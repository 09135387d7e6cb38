/- # Discovery -- methods become reachable through calls

A piece of work records calls of one method only: of the method that it enters, or of the method whose
variable its objects are new at (`State.AddsCalls`).  That method is reachable by then, and every callee that
is recorded is queued.  So each reachable method but the entry was called by one that was found before it,
and when nothing is queued the reachable methods are the ends of the paths from the entry, with contexts and
without them (`CallGraph.Closed`).

Main statement: `discovered_of_reached`. -/
import PointsTo.Proofs.CallStrings

set_option autoImplicit false

namespace PointsTo

/-- A method that is marked takes the place behind all others, or it had one. -/
theorem CallGraph.getElem?_reach {S M : Type} [DecidableEq M] {g : CallGraph S M} {m other : M} {i : Nat}
    (here : (g.reach m).1.reachable[i]? = some other) :
    g.reachable[i]? = some other ∨ i = g.reachable.size ∧ other = m := by
  unfold CallGraph.reach at here
  split at here
  · exact .inl here
  · rw [Array.getElem?_push] at here
    split at here
    · rename_i last
      exact .inr ⟨last, (Option.some.inj here).symm⟩
    · exact .inl here

/-! ## Calls of one method -/

/-- A method makes a call: one of the kind stands in its body where the edge says. -/
structure Program.Makes (p : Program) (caller : QualifiedMethod)
    (e : CallEdge QualifiedSite QualifiedMethod) : Prop where
  source : e.caller = caller
  place : e.site.caller = caller
  statement : ∃ call, p.callAt? e.site.site = some call ∧ call.kind = e.kind

namespace State

/-- The later state has more calls only of one method, and only callees were queued. -/
structure AddsCalls (p : Program) (caller : QualifiedMethod) (s t : State) : Prop where
  reachable : t.calls.reachable = s.calls.reachable
  edges : s.calls.edges.toList <+: t.calls.edges.toList
  made : ∀ {e}, e ∈ t.calls.edges → e ∈ s.calls.edges ∨ p.Makes caller e
  announced : ∀ {m}, t.network.Announces m → s.network.Announces m ∨ ∃ e ∈ t.calls.edges, e.callee = m

section AddsCalls

variable {p : Program} {caller : QualifiedMethod} {s t u : State}

theorem AddsCalls.of_calls (calls : t.calls = s.calls)
    (announced : ∀ {m}, t.network.Announces m → s.network.Announces m) : AddsCalls p caller s t where
  reachable := by rw [calls]
  edges := by rw [calls]
  made := fun edge => .inl (calls ▸ edge)
  announced := fun queued => .inl (announced queued)

theorem AddsCalls.refl (s : State) : AddsCalls p caller s s := .of_calls rfl id

theorem AddsCalls.trans (first : AddsCalls p caller s t) (second : AddsCalls p caller t u) :
    AddsCalls p caller s u where
  reachable := second.reachable.trans first.reachable
  edges := first.edges.trans second.edges
  made := fun edge => (second.made edge).elim first.made .inr
  announced := fun queued => by
    rcases second.announced queued with between | called
    · refine (first.announced between).imp_right ?_
      rintro ⟨e, edge, same⟩
      exact ⟨e, mem_of_prefix second.edges edge, same⟩
    · exact .inr called

/-- Only calls and the queue matter. -/
theorem AddsCalls.after (later : AddsCalls p caller t u) (calls : t.calls = s.calls)
    (network : t.network = s.network) : AddsCalls p caller s u :=
  .trans (.of_calls calls fun queued => network ▸ queued) later

theorem AddsCalls.foldl {α : Type} {f : State → α → State} (xs : List α)
    (one : ∀ x ∈ xs, ∀ s, AddsCalls p caller s (f s x)) (s : State) :
    AddsCalls p caller s (xs.foldl f s) := by
  induction xs generalizing s with
  | nil => exact .refl s
  | cons x rest ih =>
      exact (one x List.mem_cons_self s).trans
        (ih (fun other member => one other (List.mem_cons_of_mem x member)) (f s x))

variable (s)

theorem addsCalls_report (event : Event) : AddsCalls p caller s (s.report event) := .of_calls rfl id

theorem addsCalls_reportAll (events : List Event) : AddsCalls p caller s (s.reportAll events) :=
  .foldl events (fun event _ s => addsCalls_report s event) s

theorem addsCalls_flow (source target : Pointer) (kind : FlowKind) :
    AddsCalls p caller s (s.flow source target kind) :=
  .of_calls rfl (Network.announces_flow _ _ _ _ _).mp

theorem addsCalls_seed (pointer : Pointer) (o : QualifiedObjectId) :
    AddsCalls p caller s (s.seed pointer o) :=
  .of_calls rfl (Network.announces_seed _ _ _ _).mp

theorem addsCalls_node (pointer : Pointer) : AddsCalls p caller s (s.node pointer) := .of_calls rfl id

/-- Every element of a list makes an edge between pointers. -/
theorem addsCalls_flows {α : Type} (xs : List α) (source target : α → Pointer) (kind : FlowKind) :
    AddsCalls p caller s (xs.foldl (fun s x => s.flow (source x) (target x) kind) s) :=
  .foldl xs (fun _ _ s => addsCalls_flow s _ _ kind) s

/-- The callee of a recorded call is queued. -/
theorem addsCalls_announce {m : QualifiedMethod} (called : ∃ e ∈ s.calls.edges, e.callee = m) :
    AddsCalls p caller s (s.announce m) where
  reachable := rfl
  edges := List.prefix_refl _
  made := .inl
  announced := fun queued => by
    refine ((Network.announces_announce _ _ _).mp queued).imp_right ?_
    rintro rfl
    exact called

end AddsCalls

/-! ## What a piece of work calls -/

section Work

variable (setting : Setting) (s : State) {c : ContextId} {m : MethodId}

theorem addsCalls_exchange {caller : QualifiedMethod} (source callee : QualifiedMethod)
    (call : Invocation VarId) :
    AddsCalls setting.program caller s (exchange setting s source callee call) := by
  have passed : AddsCalls setting.program caller s (s.passArguments source.context callee.context call.args
      (setting.program.paramsOf callee.method)) := addsCalls_flows s _ _ _ _
  unfold exchange
  cases call.result with
  | none => exact passed
  | some result => exact (passed.trans (addsCalls_node _ _)).trans (addsCalls_flows _ _ _ _ _)

theorem addsCalls_bindCall {caller callee : QualifiedMethod} (source : QualifiedMethod)
    (call : Invocation VarId) (called : ∃ e ∈ s.calls.edges, e.callee = callee) :
    AddsCalls setting.program caller s (bindCall setting s source callee call) := by
  have queued : AddsCalls setting.program caller s
      ((s.report (.called source.method callee.method)).announce callee) :=
    (addsCalls_report s _).trans (addsCalls_announce _ called)
  unfold bindCall
  simp only
  split
  · exact (queued.trans (addsCalls_report _ _)).trans (addsCalls_exchange setting _ _ _ call)
  · exact queued.trans (addsCalls_exchange setting _ _ _ call)

theorem addsCalls_addCall {site : CallSite} {call : Invocation VarId}
    (statement : setting.program.callAt? site = some call) (c : ContextId) (callee : QualifiedMethod) :
    AddsCalls setting.program ⟨c, site.method⟩ s (addCall setting s ⟨c, site⟩ callee call) := by
  obtain ⟨reachable, edges, ⟨e, edge, -, called⟩, members⟩ :=
    CallGraph.connect_spec s.calls ⟨⟨c, site⟩, call.kind, ⟨c, site.method⟩, callee⟩
  have recorded : AddsCalls setting.program ⟨c, site.method⟩ s (s.withCall call.kind c site
      callee.context callee.method) := by
    refine ⟨reachable, edges, fun edge => (members _ edge).imp_right ?_, .inl⟩
    rintro rfl
    exact ⟨rfl, rfl, call, statement, rfl⟩
  unfold addCall
  simp only
  split
  · exact recorded.trans (addsCalls_bindCall setting _ _ call ⟨e, edge, called⟩)
  · exact .refl s

theorem addsCalls_callStatic (c : ContextId) (site : CallSite) :
    AddsCalls setting.program ⟨c, site.method⟩ s (callStatic setting s c site) := by
  unfold callStatic
  cases statement : setting.program.callAt? site with
  | none => exact .refl s
  | some call =>
      have reports : AddsCalls setting.program ⟨c, site.method⟩ s _ :=
        addsCalls_reportAll s (setting.program.resolveCall none call).events
      simp only
      split
      · exact reports.trans (addsCalls_report _ _)
      · exact reports.trans (.after (addsCalls_addCall setting _ statement c _) rfl rfl)

theorem addsCalls_receive {caller : QualifiedMethod} (callee : QualifiedMethod) (o : QualifiedObjectId) :
    AddsCalls setting.program caller s (receive setting s callee o) := by
  unfold receive
  split
  · exact addsCalls_seed s _ o
  · exact .refl s

theorem addsCalls_callInstance (c : ContextId) (site : CallSite) (o : QualifiedObjectId) :
    AddsCalls setting.program ⟨c, site.method⟩ s (callInstance setting s c site o) := by
  unfold callInstance
  split
  · rename_i call receiver type statement _
    have reports : AddsCalls setting.program ⟨c, site.method⟩ s _ :=
      addsCalls_reportAll s (setting.program.resolveCall (some type) call).events
    simp only
    split
    · exact reports.trans (addsCalls_report _ _)
    · refine reports.trans (.trans ?_ (addsCalls_receive setting _ _ o))
      exact .after (addsCalls_addCall setting _ statement c _) rfl rfl
  · exact .refl s

theorem addsCalls_allocate {caller : QualifiedMethod} (c : ContextId) (lhs : VarId) (site : SiteId) :
    AddsCalls setting.program caller s (allocate setting s c lhs site) :=
  .after (addsCalls_seed _ _ _) rfl rfl

/-- The call sites of a list stand in the body of one method. -/
theorem addsCalls_sites {f : State → CallSite → State} {receiver : Option VarId}
    (one : ∀ s site, AddsCalls setting.program ⟨c, site.method⟩ s (f s site)) :
    AddsCalls setting.program ⟨c, m⟩ s
      ((callSitesOf m (setting.program.bodyOf m) receiver).foldl f s) := by
  refine .foldl _ (fun site member s => ?_) s
  obtain ⟨rfl, -⟩ := mem_callSitesOf_bodyOf.mp member
  exact one s site

theorem addsCalls_applySummary : AddsCalls setting.program ⟨c, m⟩ s
    (applySummary setting s c (Summary.ofBody m (setting.program.bodyOf m))) := by
  unfold applySummary
  refine .trans ?_ (addsCalls_sites setting _ fun s site => addsCalls_callStatic setting s c site)
  refine .trans (.trans (.trans (.foldl _ ?_ _) (.foldl _ ?_ _)) (.foldl _ ?_ _)) (.foldl _ ?_ _)
  · exact fun pair _ s => addsCalls_allocate setting s c pair.1 pair.2
  all_goals exact fun pair _ s => addsCalls_flow s _ _ _

theorem addsCalls_applyAccesses (v : VarId) (o : QualifiedObjectId) : AddsCalls setting.program ⟨c, m⟩ s
    (applyAccesses setting s c ((Summary.ofBody m (setting.program.bodyOf m)).accessesOf v) o) := by
  unfold applyAccesses
  refine .trans ?_ (addsCalls_sites setting _ fun s site => addsCalls_callInstance setting s c site o)
  refine .trans (.trans (.trans (.foldl _ ?_ _) (.foldl _ ?_ _)) (.foldl _ ?_ _)) (.foldl _ ?_ _)
  all_goals exact fun x _ s => addsCalls_flow s _ _ _

/-- A method that becomes reachable makes the calls of its own body. -/
theorem addsCalls_enter {caller : QualifiedMethod} {rest : Network} : AddsCalls setting.program caller
    (s.takeMethod caller rest)
    (enter setting { s with network := rest, iterations := s.iterations + 1 } caller) := by
  cases known : s.calls.isReachable caller with
  | true =>
      rw [enter_of_isReachable known]
      exact .refl _
  | false =>
      cases abstract : setting.program.isAbstract caller.method with
      | true =>
          rw [enter_of_isAbstract known abstract]
          exact (addsCalls_report _ _).trans (addsCalls_report _ _)
      | false =>
          simp only [enter, takeMethod, CallGraph.reach, known, Program.summary?, abstract, Bool.not_true,
            Bool.false_eq_true, if_false]
          refine .trans ?_ (addsCalls_applySummary setting _)
          split
          · exact addsCalls_report _ _
          · exact (addsCalls_report _ _).trans (addsCalls_report _ _)

/-- Objects that are new at a variable lead to calls of its method, and others to none. -/
theorem addsCalls_react {c : ContextId} {v : VarId} {id : NodeId} (delta : ObjectSet)
    (pointer : s.network.graph.pointer? id = some (.var c v)) :
    AddsCalls setting.program ⟨c, setting.program.methodOfVar v⟩ s (react setting s id delta) := by
  simp only [react, pointer, Program.summary?]
  cases setting.program.isAbstract (setting.program.methodOfVar v) with
  | true => exact .refl s
  | false => exact .foldl _ (fun o _ s => addsCalls_applyAccesses setting s v o) s

end Work

/-! ## The order of discovery -/

section Order

variable {setting : Setting} {s t : State}

/-- Methods were found along calls of methods that were found before. -/
structure Discovered (setting : Setting) (s : State) : Prop where
  /-- The first reachable method is the entry in the initial context. -/
  first : ∀ {m}, s.calls.reachable[0]? = some m → m = ⟨ContextTable.emptyId, setting.entry⟩
  /-- Every other one is called by a method that is listed before it. -/
  later : ∀ {i m}, s.calls.reachable[i + 1]? = some m →
    ∃ e ∈ s.calls.edges, e.callee = m ∧ ∃ j ≤ i, s.calls.reachable[j]? = some e.caller
  /-- A recorded call is one that a reachable method makes. -/
  made : ∀ {e}, e ∈ s.calls.edges → e.caller ∈ s.calls.reachable ∧ setting.program.Makes e.caller e
  /-- Its callee is reachable or queued. -/
  callee : ∀ {e}, e ∈ s.calls.edges → e.callee ∈ s.calls.reachable ∨ s.network.Announces e.callee
  /-- A queued method is the callee of a recorded call; only at the start the entry is queued without one. -/
  announced : ∀ {m}, s.network.Announces m → (∃ e ∈ s.calls.edges, e.callee = m) ∨
    s.calls.reachable = #[] ∧
      s.network.pending.toList = [.method ⟨ContextTable.emptyId, setting.entry⟩]

theorem Consistent.callee_reached (consistent : s.Consistent setting)
    {e : CallEdge QualifiedSite QualifiedMethod} (edge : e ∈ s.calls.edges) :
    e.callee ∈ s.calls.reachable ∨ s.network.Announces e.callee := by
  have called : s.Expected (.call e.site.context e.site.site e.callee.context e.callee.method) :=
    ⟨e, edge, rfl, rfl⟩
  exact (consistent.called called).2

/-- A reachable method may make calls. -/
theorem Discovered.addsCalls (before : s.Discovered setting) {caller : QualifiedMethod}
    (reached : caller ∈ s.calls.reachable) (adds : AddsCalls setting.program caller s t)
    (after : t.Consistent setting) : t.Discovered setting where
  first := by
    rw [adds.reachable]
    exact before.first
  later := by
    intro i m
    rw [adds.reachable]
    intro here
    obtain ⟨e, edge, called, earlier⟩ := before.later here
    exact ⟨e, mem_of_prefix adds.edges edge, called, earlier⟩
  made := by
    intro e edge
    rw [adds.reachable]
    rcases adds.made edge with old | new
    · exact before.made old
    · rw [new.source]
      exact ⟨reached, new⟩
  callee := after.callee_reached
  announced := by
    intro m queued
    rcases adds.announced queued with old | called
    · rcases before.announced old with ⟨e, edge, called⟩ | ⟨nothing, -⟩
      · exact .inl ⟨e, mem_of_prefix adds.edges edge, called⟩
      · rw [nothing] at reached
        exact absurd reached (Array.not_mem_empty caller)
    · exact .inl called

/-- A queued method that is not reachable is the entry, which is found first, or it has a caller that was
found before. -/
theorem Discovered.takeMethod (before : s.Discovered setting) {m : QualifiedMethod} {rest : Network}
    (popped : s.network.pop? = some (.method m, rest)) (after : (s.takeMethod m rest).Consistent setting) :
    (s.takeMethod m rest).Discovered setting := by
  obtain ⟨edges, grown, -⟩ := CallGraph.reach_spec s.calls m
  obtain ⟨whole, -, -⟩ := Network.toList_of_pop? popped
  have queued : s.network.Announces m := by simp [Network.Announces, whole]
  have made : ∀ {e}, e ∈ s.calls.edges → e.caller ∈ (s.calls.reach m).1.reachable ∧
      setting.program.Makes e.caller e :=
    fun edge => (before.made edge).imp_left fun known => mem_of_prefix grown known
  have announced : ∀ {other}, rest.Announces other → ∃ e ∈ s.calls.edges, e.callee = other := by
    intro other still
    rcases before.announced (Network.announces_of_pop popped still) with called | ⟨-, only⟩
    · exact called
    · rw [whole, List.cons.injEq] at only
      simp [Network.Announces, only.2] at still
  refine ⟨fun {x} here => ?_, fun {i x} here => ?_, fun edge => made (edges ▸ edge), after.callee_reached,
    fun still => .inl (edges ▸ announced still)⟩
  · rcases CallGraph.getElem?_reach here with old | ⟨nothing, rfl⟩
    · exact before.first old
    · rcases before.announced queued with ⟨e, edge, -⟩ | ⟨-, only⟩
      · have inUse := Array.size_pos_of_mem (before.made edge).1
        omega
      · rw [whole, List.cons.injEq, Pending.method.injEq] at only
        exact only.1
  · have kept : ∀ {j : Nat} {y : QualifiedMethod}, s.calls.reachable[j]? = some y →
        (s.calls.reach m).1.reachable[j]? = some y := by
      intro j y there
      rw [← Array.getElem?_toList] at there ⊢
      obtain ⟨added, whole⟩ := grown
      rw [← whole, List.getElem?_append_left (List.getElem?_eq_some_iff.mp there).1]
      exact there
    rcases CallGraph.getElem?_reach here with old | ⟨last, rfl⟩
    · obtain ⟨e, edge, called, j, less, there⟩ := before.later old
      exact ⟨e, edges ▸ edge, called, j, less, kept there⟩
    · rcases before.announced queued with ⟨e, edge, called⟩ | ⟨nothing, -⟩
      · obtain ⟨j, less, there⟩ := Array.getElem_of_mem (before.made edge).1
        exact ⟨e, edges ▸ edge, called, j, by omega,
          kept (there ▸ Array.getElem?_eq_getElem less)⟩
      · simp [nothing] at last

/-- Taking objects finds no method. -/
theorem Discovered.takeObjects (before : s.Discovered setting) {id : NodeId} {set : ObjectSet}
    {rest : Network} (popped : s.network.pop? = some (.objects id set, rest))
    (after : (s.takeObjects id set rest).Consistent setting) :
    (s.takeObjects id set rest).Discovered setting := by
  obtain ⟨whole, -, -⟩ := Network.toList_of_pop? popped
  obtain ⟨-, announces, -⟩ := Network.absorb_spec rest id set
  refine ⟨before.first, before.later, before.made, after.callee_reached, fun {m} still => ?_⟩
  have queued : s.network.Announces m := Network.announces_of_pop popped ((announces m).mp still)
  rcases before.announced queued with called | ⟨-, only⟩
  · exact .inl called
  · rw [whole] at only
    cases only

theorem discovered_start : (start setting).Discovered setting := by
  obtain ⟨reachable, edges⟩ :=
    CallGraph.addEntry_parts (.empty : ContextCallGraph) ⟨ContextTable.emptyId, setting.entry⟩
  replace reachable : (start setting).calls.reachable = #[] := reachable
  replace edges : (start setting).calls.edges = #[] := edges
  refine ⟨fun here => ?_, fun here => ?_, fun edge => ?_, fun edge => ?_, fun _ => .inr ⟨reachable, rfl⟩⟩
  · simp [reachable] at here
  · simp [reachable] at here
  · simp [edges] at edge
  · simp [edges] at edge

theorem Reached.discovered (wellFormed : setting.program.WellFormed) (run : Reached setting s) :
    s.Discovered setting := by
  induction run with
  | start => exact discovered_start
  | @step s next before taken ih =>
      have consistent := before.consistent wellFormed
      have after := (before.step taken).consistent wellFormed
      cases popped : s.network.pop? with
      | none => simp [State.step, popped] at taken
      | some work =>
          obtain ⟨item, rest⟩ := work
          cases item with
          | method m =>
              rw [step_method popped, Option.some.injEq] at taken
              subst taken
              have reached := ((CallGraph.reach_spec s.calls m).2.2 m).mpr (.inr rfl)
              exact (ih.takeMethod popped (consistent_takeMethod consistent popped)).addsCalls reached
                (addsCalls_enter setting s) after
          | objects id set =>
              rw [step_objects popped, Option.some.injEq] at taken
              subst taken
              have between := ih.takeObjects popped (consistent_takeObjects consistent popped)
              cases pointer : (s.takeObjects id set rest).network.graph.pointer? id with
              | none => simpa [react, pointer] using between
              | some p =>
                  cases p with
                  | var c v =>
                      -- Objects for a variable are taken only after its method was.
                      have reached := ((before.timely wellFormed).taken popped
                        (by rw [← graph_takeObjects popped]; exact pointer)).1
                      exact between.addsCalls reached (addsCalls_react setting _ _ pointer) after
                  | _ => simpa [react, pointer] using between

end Order

end State

/-! ## Closed call graphs -/

namespace CallGraph

variable {S M : Type}

/-- The reachable methods are those at the ends of the paths from a first method. -/
def Closed (g : CallGraph S M) (first : M) : Prop :=
  ∀ m, m ∈ g.reachable ↔ ∃ sites, g.Path first m sites

/-- Where callees are reachable, so is the end of every path from a reachable method. -/
theorem Path.mem_reachable {g : CallGraph S M} {first m : M} {sites : List S} (path : g.Path first m sites)
    (start : first ∈ g.reachable) (callees : ∀ e ∈ g.edges, e.callee ∈ g.reachable) : m ∈ g.reachable := by
  cases path with
  | nil => exact start
  | snoc _ edge => exact callees _ edge

end CallGraph

namespace ContextCallGraph

variable {g : ContextCallGraph}

theorem mem_reachable_project {m : MethodId} :
    m ∈ g.project.reachable ↔ ∃ c, ⟨c, m⟩ ∈ g.reachable := by
  rw [← CallGraph.isReachable_iff]
  refine (CallGraph.isReachable_rename _ _ g).trans ⟨?_, ?_⟩
  · rintro ⟨⟨c, n⟩, reached, rfl⟩
    exact ⟨c, reached⟩
  · rintro ⟨c, reached⟩
    exact ⟨⟨c, m⟩, reached, rfl⟩

theorem exists_of_mem_project {e : CallEdge CallSite MethodId} (edge : e ∈ g.project.edges) :
    ∃ original ∈ g.edges, original.rename (·.site) (·.method) = e :=
  (CallGraph.exists_of_mem_rename _ _ g).2 e edge

/-- A path leads along the same calls when contexts are dropped. -/
theorem path_project (callers : ∀ e ∈ g.edges, e.caller = e.site.caller) {first m : QualifiedMethod}
    {sites : List QualifiedSite} (path : g.Path first m sites) :
    g.project.Path first.method m.method (sites.map (·.site)) := by
  induction path with
  | nil => exact .nil
  | @snoc e sites _ edge ih =>
      obtain ⟨e', edge', sameSite, sameCallee⟩ := CallGraph.hasEdge_iff.mp
        ((CallGraph.hasEdge_rename (·.site) (·.method) g).mpr ⟨e, edge, rfl, rfl⟩)
      obtain ⟨original, inGraph, rfl⟩ := exists_of_mem_project edge'
      -- The edge may have been merged with one of another context; its caller is the same method.
      have sameCaller : original.caller.method = e.caller.method := by
        rw [callers original inGraph, callers e edge]
        exact congrArg CallSite.method sameSite
      rw [List.map_append, List.map_singleton, ← sameSite]
      exact ih.step edge' sameCaller sameCallee

/-- What is closed with contexts is closed without them. -/
theorem closed_project (callers : ∀ e ∈ g.edges, e.caller = e.site.caller)
    (callees : ∀ e ∈ g.edges, e.callee ∈ g.reachable) {first : QualifiedMethod}
    (closed : g.Closed first) : g.project.Closed first.method := by
  intro m
  constructor
  · intro reached
    obtain ⟨c, known⟩ := mem_reachable_project.mp reached
    obtain ⟨sites, path⟩ := (closed _).mp known
    exact ⟨_, path_project callers path⟩
  · rintro ⟨sites, path⟩
    refine path.mem_reachable (mem_reachable_project.mpr ⟨_, (closed first).mpr ⟨[], .nil⟩⟩) fun e edge => ?_
    obtain ⟨original, inGraph, rfl⟩ := exists_of_mem_project edge
    exact mem_reachable_project.mpr ⟨_, callees original inGraph⟩

end ContextCallGraph

namespace State

variable {setting : Setting} {s : State}

/-- In every state of a run methods were found along calls of methods that were found before.  When nothing
is queued the reachable methods are those that calls lead to from the entry, with contexts and without. -/
theorem discovered_of_reached (loaded : setting.program.Loaded) (run : Reached setting s) :
    s.Discovered setting ∧ (s.network.pending.isEmpty = true →
      s.calls.Closed ⟨ContextTable.emptyId, setting.entry⟩ ∧ s.calls.project.Closed setting.entry) := by
  have wellFormed := loaded.wellFormed
  have discovered := run.discovered wellFormed
  refine ⟨discovered, fun finished => ?_⟩
  have connected := run.connected wellFormed
  have idle : ∀ {m}, ¬ s.network.Announces m := fun queued => by
    simp [Network.Announces, (Worklist.isEmpty_iff _).mp finished] at queued
  have entry : ⟨ContextTable.emptyId, setting.entry⟩ ∈ s.calls.reachable :=
    (run.saturated wellFormed).entry.resolve_right idle
  have callees : ∀ e ∈ s.calls.edges, e.callee ∈ s.calls.reachable :=
    fun e edge => (discovered.callee edge).resolve_right idle
  have closed : s.calls.Closed ⟨ContextTable.emptyId, setting.entry⟩ := by
    refine fun m => ⟨fun reached => connected.path (.inl reached), ?_⟩
    rintro ⟨sites, path⟩
    exact path.mem_reachable entry callees
  exact ⟨closed, ContextCallGraph.closed_project (fun e => connected.caller) callees closed⟩

/-- A method that goes on calling itself, after two steps, when its second call is still queued, and at the
end. -/
theorem discovered_of_reached_descent :
    let setting := { Description.descent.setting with policy := ⟨.callSite, 2, 1⟩ }
    ((steps setting 2 (start setting)).Discovered setting ∧
      (steps setting 2 (start setting)).calls.reachable = #[⟨0, 0⟩, ⟨1, 1⟩] ∧
      (steps setting 2 (start setting)).calls.edges.toList.map (·.callee) = [⟨1, 1⟩, ⟨2, 1⟩]) ∧
    (run setting).calls.Closed ⟨0, 0⟩ ∧ (run setting).calls.project.Closed 0 ∧
      (run setting).calls.project.reachable = #[0, 1] := by
  have loaded : Description.descent.program.Loaded := ⟨Description.descent, by decide +kernel⟩
  intro setting
  have program : setting.program.Loaded := loaded
  have middle := discovered_of_reached program (Reached.start.steps 2)
  obtain ⟨closed, projected⟩ :=
    (discovered_of_reached program (reached_run loaded.wellFormed).1).2 (by decide +kernel)
  exact ⟨⟨middle.1, by decide +kernel, by decide +kernel⟩, closed, projected, by decide +kernel⟩

end State

end PointsTo
