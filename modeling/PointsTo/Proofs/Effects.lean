/- # Effects -- the operations of the solver as changes

Every operation of the solver is a sequence of changes that binds each call it adds: the callee is expected
to be reachable, arguments flow to parameters and returned variables to the result (`State.Runs`).  The
operations that treat a method or an object leave nothing open that the method or the object demands.

Main statements: `applySummary_spec` for a method, `react_spec` for objects that are new at a variable. -/
import PointsTo.Proofs.Changes
import PointsTo.Proofs.Summaries

set_option autoImplicit false

namespace PointsTo.State

/-- The later state comes from the earlier one by changes, and each of its calls was there before or has all
that it demands. -/
structure Runs (setting : Setting) (s t : State) : Prop where
  changes : Changes setting s t
  bound : ∀ {c site d m}, t.Expected (.call c site d m) → s.Expected (.call c site d m) ∨
    ∀ fact, CallDemands setting.program c site d m fact → t.Expected fact

section Sequence

variable {setting : Setting} {s t u : State}

theorem Runs.refl (s : State) : Runs setting s s := ⟨.refl s, .inl⟩

theorem Runs.grows (runs : Runs setting s t) : s.Grows t := runs.changes.grows

theorem Runs.trans (first : Runs setting s t) (second : Runs setting t u) : Runs setting s u := by
  refine ⟨first.changes.trans second.changes, fun called => ?_⟩
  rcases second.bound called with middle | bound
  · exact (first.bound middle).imp_right fun bound fact demanded =>
      second.grows.expected (bound fact demanded)
  · exact .inr bound

/-- A change that leaves the calls alone. -/
theorem Change.runs (change : Change setting s t) (calls : t.calls = s.calls) : Runs setting s t := by
  refine ⟨change.changes, fun {c site d m} called => .inl ?_⟩
  show ∃ e ∈ s.calls.edges, _
  rw [← calls]
  exact called

theorem runs_report (event : Event) : Runs setting s (s.report event) :=
  (Change.report event).runs rfl

theorem runs_reportAll (events : List Event) : Runs setting s (s.reportAll events) := by
  induction events generalizing s with
  | nil => exact .refl s
  | cons event rest ih => exact (runs_report event).trans ih

variable (wellFormed : setting.program.WellFormed)
include wellFormed

theorem Runs.consistent (runs : Runs setting s t) (consistent : s.Consistent setting) :
    t.Consistent setting :=
  runs.changes.consistent wellFormed consistent

/-- Running over a list: each element does its part in a state that is ready for it, and neither the
readiness nor what is done goes away. -/
theorem Runs.foldl {α : Type} {f : State → α → State} (xs : List α) (ready : State → Prop)
    (done : α → State → Prop)
    (keeps : ∀ {s t}, s.Consistent setting → s.Grows t → ready s → ready t)
    (stays : ∀ {x s t}, s.Consistent setting → t.Consistent setting → s.Grows t → ready s →
      done x s → done x t)
    (one : ∀ {x s}, x ∈ xs → s.Consistent setting → ready s →
      Runs setting s (f s x) ∧ done x (f s x))
    (consistent : s.Consistent setting) (isReady : ready s) :
    Runs setting s (xs.foldl f s) ∧ ∀ x ∈ xs, done x (xs.foldl f s) := by
  induction xs generalizing s with
  | nil => exact ⟨.refl s, fun x member => by cases member⟩
  | cons x rest ih =>
      obtain ⟨first, doneFirst⟩ := one List.mem_cons_self consistent isReady
      have between := first.consistent wellFormed consistent
      have readyBetween := keeps consistent first.grows isReady
      obtain ⟨later, doneLater⟩ :=
        ih (fun member => one (List.mem_cons_of_mem x member)) between readyBetween
      refine ⟨first.trans later, fun y member => ?_⟩
      rcases List.mem_cons.mp member with rfl | inRest
      · exact stays between (later.consistent wellFormed between) later.grows readyBetween doneFirst
      · exact doneLater y inRest

omit wellFormed in
theorem flow_spec {p q : Pointer} {kind : FlowKind}
    (follows : Follows setting.program (s.domain setting) setting.entry s.Expected (.flow p q)) :
    Runs setting s (s.flow p q kind) ∧ (s.flow p q kind).Expected (.flow p q) := by
  refine ⟨(Change.flow kind follows).runs rfl, ?_⟩
  obtain ⟨a, b, source, target, ⟨e, edge, rfl, rfl⟩, -⟩ := Network.flow_spec s.network p q kind
  exact ⟨e, edge, source, target⟩

/-- Running over a list of edges that follow from some expected facts. -/
theorem flows_spec {α : Type} (xs : List α) (source target : α → Pointer) (kind : FlowKind)
    (reasons : List (Fact ContextId QualifiedObjectId))
    (follows : ∀ x ∈ xs, ∀ s : State, (∀ fact ∈ reasons, s.Expected fact) →
      Follows setting.program (s.domain setting) setting.entry s.Expected
        (.flow (source x) (target x)))
    (consistent : s.Consistent setting) (expected : ∀ fact ∈ reasons, s.Expected fact) :
    Runs setting s (xs.foldl (fun s x => s.flow (source x) (target x) kind) s) ∧
      ∀ x ∈ xs, (xs.foldl (fun s x => s.flow (source x) (target x) kind) s).Expected
        (.flow (source x) (target x)) := by
  refine Runs.foldl wellFormed _ (fun s => ∀ fact ∈ reasons, s.Expected fact)
    (fun x s => s.Expected (.flow (source x) (target x))) ?_ ?_ ?_ consistent expected
  · exact fun _ grown ready fact member => grown.expected (ready fact member)
  · exact fun _ _ grown _ done => grown.expected done
  · exact fun member _ ready => flow_spec (follows _ member _ ready)

/-- The same at the end of a run; what was expected at its start is expected still. -/
theorem Runs.flows {t : State} (before : Runs setting s t) {α : Type} (xs : List α)
    (source target : α → Pointer) (kind : FlowKind) (reasons : List (Fact ContextId QualifiedObjectId))
    (follows : ∀ x ∈ xs, ∀ s : State, (∀ fact ∈ reasons, s.Expected fact) →
      Follows setting.program (s.domain setting) setting.entry s.Expected
        (.flow (source x) (target x)))
    (consistent : s.Consistent setting) (expected : ∀ fact ∈ reasons, s.Expected fact) :
    Runs setting t (xs.foldl (fun s x => s.flow (source x) (target x) kind) t) ∧
      Runs setting s (xs.foldl (fun s x => s.flow (source x) (target x) kind) t) ∧
      ∀ x ∈ xs, (xs.foldl (fun s x => s.flow (source x) (target x) kind) t).Expected
        (.flow (source x) (target x)) := by
  obtain ⟨runs, flows⟩ := flows_spec wellFormed xs source target kind reasons follows
    (before.consistent wellFormed consistent) fun fact member => before.grows.expected (expected fact member)
  exact ⟨runs, before.trans runs, flows⟩

end Sequence

/-! ## Calls -/

section Calls

variable {setting : Setting} (wellFormed : setting.program.WellFormed) {s : State}
  (consistent : s.Consistent setting) {c : ContextId} {site : CallSite} {d : ContextId} {m : MethodId}
  {call : Invocation VarId} (statement : setting.program.callAt? site = some call)
include wellFormed consistent statement

theorem passArguments_spec (called : s.Expected (.call c site d m)) :
    Runs setting s (s.passArguments c d call.args (setting.program.paramsOf m)) ∧
      ∀ pair ∈ call.args.zip (setting.program.paramsOf m),
        (s.passArguments c d call.args (setting.program.paramsOf m)).Expected
          (.flow (.var c pair.1) (.var d pair.2)) := by
  refine flows_spec wellFormed (call.args.zip (setting.program.paramsOf m)) (fun pair => .var c pair.1)
    (fun pair => .var d pair.2) .parameter [.call c site d m] (fun pair passed t expected => ?_)
    consistent (List.forall_mem_singleton.mpr called)
  exact .ofCall (List.forall_mem_singleton.mp expected) (.argument statement passed)

theorem returnResult_spec (called : s.Expected (.call c site d m)) {result : VarId}
    (wanted : call.result = some result) :
    Runs setting s (s.returnResult c d (setting.program.returnsOf m) result) ∧
      ∀ v ∈ setting.program.returnsOf m,
        (s.returnResult c d (setting.program.returnsOf m) result).Expected
          (.flow (.var d v) (.var c result)) := by
  have owned : setting.program.Owns site.method result :=
    wellFormed.owns_of_callAt? statement (by simp [Invocation.mentions, wanted])
  have node : Runs setting s (s.node (.var c result)) :=
    (Change.node (rooted_var (consistent.called called).1 owned)).runs rfl
  have still := node.grows.expected called
  obtain ⟨runs, flows⟩ := flows_spec wellFormed (setting.program.returnsOf m) (.var d ·)
    (fun _ => .var c result) .result [.call c site d m]
    (fun v given t expected =>
      .ofCall (List.forall_mem_singleton.mp expected) (.result statement wanted given))
    (node.consistent wellFormed consistent) (List.forall_mem_singleton.mpr still)
  exact ⟨node.trans runs, flows⟩

/-- Exchanging objects with a callee leaves nothing open that the call demands. -/
theorem exchange_spec (called : s.Expected (.call c site d m)) :
    Runs setting s (exchange setting s ⟨c, site.method⟩ ⟨d, m⟩ call) ∧
      ∀ fact, CallDemands setting.program c site d m fact →
        (exchange setting s ⟨c, site.method⟩ ⟨d, m⟩ call).Expected fact := by
  obtain ⟨first, passed⟩ := passArguments_spec wellFormed consistent statement called
  have between := first.consistent wellFormed consistent
  have still := first.grows.expected called
  cases wanted : call.result with
  | none =>
      simp only [exchange, wanted]
      refine ⟨first, fun fact demanded => ?_⟩
      cases demanded with
      | callee => exact (between.called still).2
      | argument here pair =>
          cases statement.symm.trans here
          exact passed _ pair
      | result here asked given =>
          cases statement.symm.trans here
          cases wanted.symm.trans asked
  | some result =>
      obtain ⟨second, returned⟩ := returnResult_spec wellFormed between statement still wanted
      simp only [exchange, wanted]
      refine ⟨first.trans second, fun fact demanded => ?_⟩
      cases demanded with
      | callee => exact second.grows.expected (between.called still).2
      | argument here pair =>
          cases statement.symm.trans here
          exact second.grows.expected (passed _ pair)
      | result here asked given =>
          cases statement.symm.trans here
          cases wanted.symm.trans asked
          exact returned _ given

/-- A new call is recorded and bound. -/
theorem bindCall_spec (inUse : d < s.contexts.size)
    (follows : Follows setting.program (s.domain setting) setting.entry s.Expected
      (.call c site d m)) :
    Runs setting s
        (bindCall setting (s.withCall call.kind c site d m) ⟨c, site.method⟩ ⟨d, m⟩ call) ∧
      (bindCall setting (s.withCall call.kind c site d m) ⟨c, site.method⟩ ⟨d, m⟩ call).Expected
        (.call c site d m) := by
  have change := Change.call call.kind follows inUse
  obtain ⟨-, -, recorded, -⟩ :=
    CallGraph.connect_spec s.calls ⟨⟨c, site⟩, call.kind, ⟨c, site.method⟩, ⟨d, m⟩⟩
  -- Reporting commutes with the change, so the call is there before anything is reported.
  have reported : ∃ t, Runs setting ((s.withCall call.kind c site d m).announce ⟨d, m⟩) t ∧
      t.calls = (s.withCall call.kind c site d m).calls ∧
      bindCall setting (s.withCall call.kind c site d m) ⟨c, site.method⟩ ⟨d, m⟩ call =
        exchange setting t ⟨c, site.method⟩ ⟨d, m⟩ call := by
    by_cases differs : call.args.length ≠ (setting.program.paramsOf m).length
    · refine ⟨_, (runs_report (.called site.method m)).trans (runs_report
        (.arityMismatch m call.args.length (setting.program.paramsOf m).length)), rfl, ?_⟩
      simp only [bindCall, if_pos differs]
      rfl
    · refine ⟨_, runs_report (.called site.method m), rfl, ?_⟩
      simp only [bindCall, if_neg differs]
      rfl
  obtain ⟨t, reports, calls, same⟩ := reported
  have called : t.Expected (.call c site d m) := by
    obtain ⟨e, edge, atSite, toCallee⟩ := recorded
    exact ⟨e, calls ▸ edge, atSite, toCallee⟩
  have reached := reports.consistent wellFormed (change.consistent wellFormed consistent)
  obtain ⟨exchanged, answered⟩ := exchange_spec wellFormed reached statement called
  rw [same]
  refine ⟨⟨change.changes.trans (reports.trans exchanged).changes, fun later => ?_⟩,
    exchanged.grows.expected called⟩
  rcases (reports.trans exchanged).bound later with between | bound
  · rcases expected_call between with old | new | new
    · exact .inl old
    · cases new
      exact .inr answered
    · cases new
  · exact .inr bound

theorem addCall_spec (inUse : d < s.contexts.size)
    (follows : Follows setting.program (s.domain setting) setting.entry s.Expected
      (.call c site d m)) :
    Runs setting s (addCall setting s ⟨c, site⟩ ⟨d, m⟩ call) ∧
      (addCall setting s ⟨c, site⟩ ⟨d, m⟩ call).Expected (.call c site d m) := by
  have cases : addCall setting s ⟨c, site⟩ ⟨d, m⟩ call =
      if (s.calls.connect ⟨⟨c, site⟩, call.kind, ⟨c, site.method⟩, ⟨d, m⟩⟩).2 then
        bindCall setting (s.withCall call.kind c site d m) ⟨c, site.method⟩ ⟨d, m⟩ call
      else s := rfl
  rw [cases]
  split
  · exact bindCall_spec wellFormed consistent statement inUse follows
  · rename_i known
    by_cases old : s.calls.hasEdge ⟨c, site⟩ ⟨d, m⟩ = true
    · exact ⟨.refl s, CallGraph.hasEdge_iff.mp old⟩
    · exact absurd (by simp [CallGraph.connect, old]) known

end Calls

/-! ## Statements -/

section Statements

variable {setting : Setting} (wellFormed : setting.program.WellFormed) {s : State}
  (consistent : s.Consistent setting) {c : ContextId} {m : MethodId}

section Numbers

include consistent

theorem selectsStatic_withStatic (inUse : c < s.contexts.size) (site : CallSite) :
    (s.withStatic setting c site).SelectsStatic setting c site ((s.domain setting).callStatic c site) := by
  have numbers := ContextTable.numbers_internStatic consistent.contexts inUse site
  unfold SelectsStatic
  rw [show (s.withStatic setting c site).contexts.context c = s.contexts.context c from
    ContextTable.context_of_extends numbers.grown inUse]
  exact numbers.read

theorem selectsInstance_withInstance (inUse : c < s.contexts.size) (site : CallSite)
    {o : QualifiedObjectId} {receiver : Receiver} {type : TypeRef}
    (found : s.receiver? o = some (receiver, type)) :
    (s.withInstance setting c site receiver).SelectsInstance setting c site o
      ((s.domain setting).callInstance c site o) := by
  have numbers := ContextTable.numbers_internInstance consistent.contexts c site receiver
  refine ⟨receiver, type, found, ?_⟩
  rw [show (s.withInstance setting c site receiver).contexts.context c = s.contexts.context c from
      ContextTable.context_of_extends numbers.grown inUse,
    show (s.withInstance setting c site receiver).contexts.context receiver.context =
      s.contexts.context receiver.context from
      ContextTable.context_of_extends numbers.grown (consistent.receiver_context_lt found)]
  simp only [domain, found]
  exact numbers.read

theorem allocates_withObject (inUse : c < s.contexts.size) (site : SiteId) :
    (s.withObject setting c site).Allocates setting c site ((s.domain setting).object c site) := by
  have numbers := ContextTable.numbers_internHeap consistent.contexts c
  obtain ⟨object, made, origin⟩ := consistent.origin_request site
  refine ⟨_, object, Table.key?_intern _ _, ?_, made, origin⟩
  rw [show (s.withObject setting c site).contexts.context c = s.contexts.context c from
    ContextTable.context_of_extends numbers.grown inUse]
  exact numbers.read

end Numbers

omit wellFormed consistent in
theorem seed_spec {p : Pointer} {o : QualifiedObjectId}
    (follows : Follows setting.program (s.domain setting) setting.entry s.Expected (.holds p o))
    (rooted : s.Rooted setting p) (inUse : o < s.objects.size) :
    Runs setting s (s.seed p o) ∧ (s.seed p o).Expected (.holds p o) := by
  obtain ⟨a, target, arrives⟩ := Network.seed_spec s.network p o
  exact ⟨(Change.seed follows rooted inUse).runs rfl, a, target, (arrives a o).mpr (.inr ⟨rfl, rfl⟩)⟩

include wellFormed consistent

theorem callStatic_spec (reached : s.Expected (.reach c m)) {index : Nat} {call : Invocation VarId}
    (statement : setting.program.callAt? ⟨m, index⟩ = some call) (static : call.receiver = none) :
    Runs setting s (callStatic setting s c ⟨m, index⟩) ∧
      ∀ callee, (setting.program.resolveCall none call).target? = some callee →
        ∃ d, (callStatic setting s c ⟨m, index⟩).SelectsStatic setting c ⟨m, index⟩ d ∧
          (callStatic setting s c ⟨m, index⟩).Expected (.call c ⟨m, index⟩ d callee) := by
  have reports : Runs setting s (s.reportAll (setting.program.resolveCall none call).events) :=
    runs_reportAll _
  simp only [callStatic, statement]
  generalize s.reportAll (setting.program.resolveCall none call).events = t at reports ⊢
  have before := reports.consistent wellFormed consistent
  have inUse : c < t.contexts.size := before.facts (reports.grows.expected reached)
  cases resolved : (setting.program.resolveCall none call).target? with
  | none => exact ⟨reports.trans (runs_report _), fun callee impossible => by cases impossible⟩
  | some callee =>
      have number : Change setting t (t.withStatic setting c ⟨m, index⟩) := .numberStatic inUse statement
      have between := number.consistent wellFormed before
      have start := reports.trans (number.runs rfl)
      have still := start.grows.expected reached
      have selects := selectsStatic_withStatic before inUse ⟨m, index⟩
      have demanded := MethodDemands.call (D := (t.withStatic setting c ⟨m, index⟩).domain setting)
        (c := c) statement static resolved
      rw [between.callStatic_of_selects (between.facts still) selects] at demanded
      have numbered := (ContextTable.numbers_internStatic before.contexts inUse ⟨m, index⟩).lt
      obtain ⟨adds, called⟩ :=
        addCall_spec wellFormed between statement numbered (.ofMethod still demanded)
      refine ⟨start.trans adds, fun other same => ?_⟩
      cases same
      exact ⟨_, selects.mono adds.grows (between.facts still), called⟩

theorem allocate_spec (reached : s.Expected (.reach c m)) {lhs : VarId} {site : SiteId}
    (statement : .new lhs site ∈ setting.program.bodyOf m) :
    Runs setting s (allocate setting s c lhs site) ∧
      ∃ o, (allocate setting s c lhs site).Allocates setting c site o ∧
        (allocate setting s c lhs site).Expected (.holds (.var c lhs) o) := by
  have inUse : c < s.contexts.size := consistent.facts reached
  have number : Change setting s (s.withObject setting c site) :=
    .numberObject c ⟨m, lhs, statement⟩
  have between := number.consistent wellFormed consistent
  have still := number.grows.expected reached
  have allocates := allocates_withObject consistent inUse site
  have owned : setting.program.Owns m lhs := wellFormed.body statement (by simp [Statement.mentions])
  have demanded := MethodDemands.new (D := (s.withObject setting c site).domain setting)
    (c := c) statement
  rw [between.object_of_allocates allocates] at demanded
  obtain ⟨seeds, held⟩ :=
    seed_spec (.ofMethod still demanded) (rooted_var still owned) (Table.intern_lt _ _)
  exact ⟨(number.runs rfl).trans seeds, _, allocates.mono seeds.grows (between.facts still), held⟩

theorem receive_spec {v : VarId} {o : QualifiedObjectId} {index : Nat} {call : Invocation VarId}
    {d : ContextId} {callee : MethodId} (reached : s.Expected (.reach c m))
    (held : s.Expected (.holds (.var c v) o))
    (statement : setting.program.callAt? ⟨m, index⟩ = some call) (onVariable : call.receiver = some v)
    (resolved : (setting.program.resolveCall (some ((s.domain setting).type o)) call).target? =
      some callee)
    (selects : s.SelectsInstance setting c ⟨m, index⟩ o d)
    (called : s.Expected (.call c ⟨m, index⟩ d callee)) :
    Runs setting s (receive setting s ⟨d, callee⟩ o) ∧
      ∀ this, setting.program.thisOf callee = some this →
        (receive setting s ⟨d, callee⟩ o).Expected (.holds (.var d this) o) := by
  cases own : setting.program.thisOf callee with
  | none =>
      simp only [receive, own]
      exact ⟨.refl s, fun this impossible => by cases impossible⟩
  | some this =>
      simp only [receive, own]
      have demanded := ObjectDemands.this (D := s.domain setting) (c := c) statement onVariable
        resolved own
      rw [consistent.callInstance_of_selects selects] at demanded
      obtain ⟨runs, thisHeld⟩ := seed_spec (.ofObject reached held demanded)
        (rooted_var (consistent.called called).2 (wellFormed.this own)) (consistent.facts held).2
      exact ⟨runs, fun other same => by cases same; exact thisHeld⟩

/-- The context of a resolved call on an object gets its number, and then the call its edge. -/
theorem addInstance_spec (reached : s.Expected (.reach c m)) {v : VarId} {o : QualifiedObjectId}
    (held : s.Expected (.holds (.var c v) o)) {index : Nat} {call : Invocation VarId}
    (statement : setting.program.callAt? ⟨m, index⟩ = some call) (onVariable : call.receiver = some v)
    {receiver : Receiver} {type : TypeRef} (found : s.receiver? o = some (receiver, type))
    {callee : MethodId} (resolved : (setting.program.resolveCall (some type) call).target? = some callee)
    {d : ContextId} (numbered : d = (setting.policy.internInstance s.contexts c ⟨m, index⟩ receiver).2)
    {t : State} (added : t = addCall setting (s.withInstance setting c ⟨m, index⟩ receiver)
      ⟨c, ⟨m, index⟩⟩ ⟨d, callee⟩ call) :
    Runs setting s t ∧ t.SelectsInstance setting c ⟨m, index⟩ o d ∧
      t.Expected (.call c ⟨m, index⟩ d callee) := by
  subst numbered added
  have inUse : c < s.contexts.size := consistent.facts reached
  have number : Change setting s (s.withInstance setting c ⟨m, index⟩ receiver) :=
    .numberInstance c statement found
  have between := number.consistent wellFormed consistent
  have still := number.grows.expected reached
  have sameType : ((s.withInstance setting c ⟨m, index⟩ receiver).domain setting).type o = type := by
    rw [type_of_grows consistent.toValid number.grows (consistent.facts held).2]
    simp [domain, found]
  -- The number that the call asks for is the one that the rules ask for.
  have answer : (s.domain setting).callInstance c ⟨m, index⟩ o =
      (setting.policy.internInstance s.contexts c ⟨m, index⟩ receiver).2 := by
    simp only [domain, found]
  have selects := selectsInstance_withInstance consistent inUse ⟨m, index⟩ found
  rw [answer] at selects
  have demanded := ObjectDemands.call
    (D := (s.withInstance setting c ⟨m, index⟩ receiver).domain setting) (c := c) (o := o)
    statement onVariable (by rw [sameType]; exact resolved)
  rw [between.callInstance_of_selects selects] at demanded
  have below := (ContextTable.numbers_internInstance consistent.contexts c ⟨m, index⟩ receiver).lt
  obtain ⟨adds, called⟩ := addCall_spec wellFormed between statement below
    (.ofObject still (number.grows.expected held) demanded)
  exact ⟨(number.runs rfl).trans adds,
    selects.mono between.toValid adds.grows (between.facts still), called⟩

theorem callInstance_spec (reached : s.Expected (.reach c m)) {v : VarId} {o : QualifiedObjectId}
    (held : s.Expected (.holds (.var c v) o)) {index : Nat} {call : Invocation VarId}
    (statement : setting.program.callAt? ⟨m, index⟩ = some call) (onVariable : call.receiver = some v) :
    Runs setting s (callInstance setting s c ⟨m, index⟩ o) ∧
      ∀ callee, (setting.program.resolveCall (some ((s.domain setting).type o)) call).target? =
          some callee →
        ∃ d, (callInstance setting s c ⟨m, index⟩ o).SelectsInstance setting c ⟨m, index⟩ o d ∧
          (callInstance setting s c ⟨m, index⟩ o).Expected (.call c ⟨m, index⟩ d callee) ∧
          ∀ this, setting.program.thisOf callee = some this →
            (callInstance setting s c ⟨m, index⟩ o).Expected (.holds (.var d this) o) := by
  have objectInUse : o < s.objects.size := (consistent.facts held).2
  obtain ⟨⟨receiver, type⟩, found⟩ := consistent.exists_receiver? objectInUse
  have sameType : (s.domain setting).type o = type := by simp [domain, found]
  have reports :
      Runs setting s (s.reportAll (setting.program.resolveCall (some type) call).events) :=
    runs_reportAll _
  rw [sameType]
  simp only [callInstance, statement, found]
  generalize s.reportAll (setting.program.resolveCall (some type) call).events = t at reports ⊢
  have before := reports.consistent wellFormed consistent
  cases resolved : (setting.program.resolveCall (some type) call).target? with
  | none => exact ⟨reports.trans (runs_report _), fun callee impossible => by cases impossible⟩
  | some callee =>
      obtain ⟨adds, selects, called⟩ := addInstance_spec wellFormed before
        (reports.grows.expected reached) (reports.grows.expected held) statement onVariable
        (reports.grows.receiver? found) resolved rfl rfl
      have toMiddle := reports.trans adds
      have middle := adds.consistent wellFormed before
      have still := toMiddle.grows.expected reached
      have typeThere := (type_of_grows consistent.toValid toMiddle.grows objectInUse).trans sameType
      obtain ⟨receives, thisHeld⟩ := receive_spec wellFormed middle still
        (toMiddle.grows.expected held) statement onVariable (by rw [typeThere]; exact resolved)
        selects called
      refine ⟨toMiddle.trans receives, fun other same => ?_⟩
      cases same
      exact ⟨_, selects.mono middle.toValid receives.grows (middle.facts still),
        receives.grows.expected called, thisHeld⟩

theorem allocateAll_spec (reached : s.Expected (.reach c m)) :
    Runs setting s ((Summary.ofBody m (setting.program.bodyOf m)).allocations.foldl
        (fun s (lhs, site) => allocate setting s c lhs site) s) ∧
      ∀ pair ∈ (Summary.ofBody m (setting.program.bodyOf m)).allocations,
        ∃ o, ((Summary.ofBody m (setting.program.bodyOf m)).allocations.foldl
            (fun s (lhs, site) => allocate setting s c lhs site) s).Allocates setting c pair.2 o ∧
          ((Summary.ofBody m (setting.program.bodyOf m)).allocations.foldl
            (fun s (lhs, site) => allocate setting s c lhs site) s).Expected
            (.holds (.var c pair.1) o) := by
  refine Runs.foldl wellFormed _ (fun s => s.Expected (.reach c m))
    (fun (pair : VarId × SiteId) s =>
      ∃ o, s.Allocates setting c pair.2 o ∧ s.Expected (.holds (.var c pair.1) o))
    ?_ ?_ ?_ consistent reached
  · exact fun _ grown ready => grown.expected ready
  · rintro pair s t before - grown ready ⟨o, allocates, held⟩
    exact ⟨o, allocates.mono grown (before.facts ready), grown.expected held⟩
  · intro pair s member before ready
    exact allocate_spec wellFormed before ready (Summary.mem_allocations.mp member)

theorem callStaticAll_spec (reached : s.Expected (.reach c m)) :
    Runs setting s ((Summary.ofBody m (setting.program.bodyOf m)).staticCalls.foldl
        (fun s site => callStatic setting s c site) s) ∧
      ∀ site ∈ (Summary.ofBody m (setting.program.bodyOf m)).staticCalls,
        ∀ call, setting.program.callAt? site = some call →
        ∀ callee, (setting.program.resolveCall none call).target? = some callee →
          ∃ d, ((Summary.ofBody m (setting.program.bodyOf m)).staticCalls.foldl
              (fun s site => callStatic setting s c site) s).SelectsStatic setting c site d ∧
            ((Summary.ofBody m (setting.program.bodyOf m)).staticCalls.foldl
              (fun s site => callStatic setting s c site) s).Expected (.call c site d callee) := by
  refine Runs.foldl wellFormed _ (fun s => s.Expected (.reach c m))
    (fun site s => ∀ call, setting.program.callAt? site = some call →
      ∀ callee, (setting.program.resolveCall none call).target? = some callee →
        ∃ d, s.SelectsStatic setting c site d ∧ s.Expected (.call c site d callee))
    ?_ ?_ ?_ consistent reached
  · exact fun _ grown ready => grown.expected ready
  · intro site s t before _ grown ready done call here callee resolved
    obtain ⟨d, selects, called⟩ := done call here callee resolved
    exact ⟨d, selects.mono grown (before.facts ready), grown.expected called⟩
  · rintro ⟨m', index⟩ s member before ready
    obtain ⟨rfl, call, statement, static⟩ := mem_callSitesOf_bodyOf.mp member
    obtain ⟨runs, done⟩ := callStatic_spec wellFormed before ready statement static
    refine ⟨runs, fun other here => ?_⟩
    cases statement.symm.trans here
    exact done

/-- The statements of a method that take effect at once leave nothing open that the method demands. -/
theorem applySummary_spec (reached : s.Expected (.reach c m)) :
    Runs setting s (applySummary setting s c (Summary.ofBody m (setting.program.bodyOf m))) ∧
      ∀ fact, MethodDemands setting.program
          ((applySummary setting s c (Summary.ofBody m (setting.program.bodyOf m))).domain setting) c m
          fact →
        (applySummary setting s c (Summary.ofBody m (setting.program.bodyOf m))).Expected fact := by
  have ready : ∀ fact ∈ [Fact.reach c m], s.Expected fact := List.forall_mem_singleton.mpr reached
  obtain ⟨toFirst, allocated⟩ := allocateAll_spec wellFormed consistent reached
  obtain ⟨second, toSecond, copied⟩ := toFirst.flows wellFormed
    (Summary.ofBody m (setting.program.bodyOf m)).copies (fun pair => .var c pair.1)
    (fun pair => .var c pair.2) .assign [.reach c m]
    (fun pair member t expected =>
      .ofMethod (List.forall_mem_singleton.mp expected) (.copy (Summary.mem_copies.mp member)))
    consistent ready
  obtain ⟨third, toThird, loaded⟩ := toSecond.flows wellFormed
    (Summary.ofBody m (setting.program.bodyOf m)).staticLoads (fun pair => .static pair.1)
    (fun pair => .var c pair.2) .load [.reach c m]
    (fun pair member t expected =>
      .ofMethod (List.forall_mem_singleton.mp expected)
        (.loadStatic (Summary.mem_staticLoads.mp member)))
    consistent ready
  obtain ⟨fourth, toFourth, stored⟩ := toThird.flows wellFormed
    (Summary.ofBody m (setting.program.bodyOf m)).staticStores (fun pair => .var c pair.1)
    (fun pair => .static pair.2) .store [.reach c m]
    (fun pair member t expected =>
      .ofMethod (List.forall_mem_singleton.mp expected)
        (.storeStatic (Summary.mem_staticStores.mp member)))
    consistent ready
  obtain ⟨fifth, called⟩ := callStaticAll_spec wellFormed (toFourth.consistent wellFormed consistent)
    (toFourth.grows.expected reached)
  have consistentFirst := toFirst.consistent wellFormed consistent
  have consistentFifth := (toFourth.trans fifth).consistent wellFormed consistent
  refine ⟨toFourth.trans fifth, fun fact demanded => ?_⟩
  have inUse {t : State} (between : t.Consistent setting) (grown : s.Grows t) : c < t.contexts.size :=
    between.facts (grown.expected reached)
  cases demanded with
  | new statement =>
      obtain ⟨o, allocates, held⟩ := allocated _ (Summary.mem_allocations.mpr statement)
      have rest := (second.trans (third.trans (fourth.trans fifth))).grows
      have same := consistentFifth.object_of_allocates
        (allocates.mono rest (inUse consistentFirst toFirst.grows))
      exact same.symm ▸ rest.expected held
  | copy statement =>
      have rest := (third.trans (fourth.trans fifth)).grows
      exact rest.expected (copied _ (Summary.mem_copies.mpr statement))
  | loadStatic statement =>
      have rest := (fourth.trans fifth).grows
      exact rest.expected (loaded _ (Summary.mem_staticLoads.mpr statement))
  | storeStatic statement =>
      exact fifth.grows.expected (stored _ (Summary.mem_staticStores.mpr statement))
  | call statement static resolved =>
      have member := mem_callSitesOf_bodyOf.mpr ⟨rfl, _, statement, static⟩
      obtain ⟨d, selects, call⟩ := called _ member _ statement _ resolved
      have same := consistentFifth.callStatic_of_selects
        (inUse consistentFifth (toFourth.trans fifth).grows) selects
      exact same.symm ▸ call

theorem callInstanceAll_spec (reached : s.Expected (.reach c m)) {v : VarId} {o : QualifiedObjectId}
    (held : s.Expected (.holds (.var c v) o)) (sites : List CallSite)
    (listed : sites = callSitesOf m (setting.program.bodyOf m) (some v)) :
    Runs setting s (sites.foldl (fun s site => callInstance setting s c site o) s) ∧
      ∀ site ∈ sites, ∀ call, setting.program.callAt? site = some call →
        ∀ callee, (setting.program.resolveCall (some ((s.domain setting).type o)) call).target? =
            some callee →
          ∃ d, (sites.foldl (fun s site => callInstance setting s c site o) s).SelectsInstance setting c
              site o d ∧
            (sites.foldl (fun s site => callInstance setting s c site o) s).Expected
              (.call c site d callee) ∧
            ∀ this, setting.program.thisOf callee = some this →
              (sites.foldl (fun s site => callInstance setting s c site o) s).Expected
                (.holds (.var d this) o) := by
  refine Runs.foldl wellFormed _
    (fun t => s.Grows t ∧ t.Expected (.reach c m) ∧ t.Expected (.holds (.var c v) o))
    (fun site t => ∀ call, setting.program.callAt? site = some call →
      ∀ callee, (setting.program.resolveCall (some ((s.domain setting).type o)) call).target? =
          some callee →
        ∃ d, t.SelectsInstance setting c site o d ∧ t.Expected (.call c site d callee) ∧
          ∀ this, setting.program.thisOf callee = some this → t.Expected (.holds (.var d this) o))
    ?_ ?_ ?_ consistent ⟨.refl s, reached, held⟩
  · rintro t u - grown ⟨start, ready⟩
    exact ⟨start.trans grown, grown.expected ready.1, grown.expected ready.2⟩
  · rintro site t u before - grown ⟨-, ready, -⟩ done call here callee resolved
    obtain ⟨d, selects, called, thisHeld⟩ := done call here callee resolved
    exact ⟨d, selects.mono before.toValid grown (before.facts ready), grown.expected called,
      fun this own => grown.expected (thisHeld this own)⟩
  · rintro ⟨m', index⟩ t member before ⟨start, ready, readyHeld⟩
    rw [listed] at member
    obtain ⟨rfl, call, statement, onVariable⟩ := mem_callSitesOf_bodyOf.mp member
    obtain ⟨runs, done⟩ := callInstance_spec wellFormed before ready readyHeld statement onVariable
    rw [type_of_grows consistent.toValid start (consistent.facts held).2] at done
    refine ⟨runs, fun other here => ?_⟩
    cases statement.symm.trans here
    exact done

/-- The statements through a variable leave nothing open that an object in the variable demands. -/
theorem applyAccesses_spec (reached : s.Expected (.reach c m)) {v : VarId} {o : QualifiedObjectId}
    (held : s.Expected (.holds (.var c v) o)) {accesses : Accesses}
    (listed : accesses = (Summary.ofBody m (setting.program.bodyOf m)).accessesOf v) :
    Runs setting s (applyAccesses setting s c accesses o) ∧
      ∀ fact, ObjectDemands setting.program ((applyAccesses setting s c accesses o).domain setting) c m v
          o fact → (applyAccesses setting s c accesses o).Expected fact := by
  subst listed
  have ready : ∀ fact ∈ [Fact.reach c m, .holds (.var c v) o], s.Expected fact :=
    List.forall_mem_cons.mpr ⟨reached, List.forall_mem_singleton.mpr held⟩
  have follows {t : State} (expected : ∀ fact ∈ [Fact.reach c m, .holds (.var c v) o], t.Expected fact)
      {fact : Fact ContextId QualifiedObjectId}
      (demanded : ObjectDemands setting.program (t.domain setting) c m v o fact) :
      Follows setting.program (t.domain setting) setting.entry t.Expected fact := by
    obtain ⟨stillReached, stillHeld⟩ := List.forall_mem_cons.mp expected
    exact .ofObject stillReached (List.forall_mem_singleton.mp stillHeld) demanded
  obtain ⟨-, toFirst, storedFields⟩ := (Runs.refl s).flows wellFormed
    ((Summary.ofBody m (setting.program.bodyOf m)).accessesOf v).storeFields
    (fun pair => .var c pair.2) (fun pair => .field o pair.1) .store
    [.reach c m, .holds (.var c v) o]
    (fun pair member t expected => follows expected (.storeField (Summary.mem_storeFields.mp member)))
    consistent ready
  obtain ⟨second, toSecond, loadedFields⟩ := toFirst.flows wellFormed
    ((Summary.ofBody m (setting.program.bodyOf m)).accessesOf v).loadFields
    (fun pair => .field o pair.1) (fun pair => .var c pair.2) .load
    [.reach c m, .holds (.var c v) o]
    (fun pair member t expected => follows expected (.loadField (Summary.mem_loadFields.mp member)))
    consistent ready
  obtain ⟨third, toThird, storedArrays⟩ := toSecond.flows wellFormed
    ((Summary.ofBody m (setting.program.bodyOf m)).accessesOf v).storeArrays
    (.var c ·) (fun _ => .array o) .arrayStore [.reach c m, .holds (.var c v) o]
    (fun rhs member t expected => follows expected (.storeArray (Summary.mem_storeArrays.mp member)))
    consistent ready
  obtain ⟨fourth, toFourth, loadedArrays⟩ := toThird.flows wellFormed
    ((Summary.ofBody m (setting.program.bodyOf m)).accessesOf v).loadArrays
    (fun _ => .array o) (.var c ·) .arrayLoad [.reach c m, .holds (.var c v) o]
    (fun lhs member t expected => follows expected (.loadArray (Summary.mem_loadArrays.mp member)))
    consistent ready
  have consistentFourth := toFourth.consistent wellFormed consistent
  obtain ⟨fifth, called⟩ := callInstanceAll_spec wellFormed consistentFourth
    (toFourth.grows.expected reached) (toFourth.grows.expected held)
    ((Summary.ofBody m (setting.program.bodyOf m)).accessesOf v).calls rfl
  have consistentFifth := fifth.consistent wellFormed consistentFourth
  refine ⟨toFourth.trans fifth, fun fact demanded => ?_⟩
  have sameType := type_of_grows consistentFourth.toValid fifth.grows
    (consistentFourth.facts (toFourth.grows.expected held)).2
  cases demanded with
  | storeField statement =>
      have rest := (second.trans (third.trans (fourth.trans fifth))).grows
      exact rest.expected (storedFields _ (Summary.mem_storeFields.mpr statement))
  | loadField statement =>
      have rest := (third.trans (fourth.trans fifth)).grows
      exact rest.expected (loadedFields _ (Summary.mem_loadFields.mpr statement))
  | storeArray statement =>
      have rest := (fourth.trans fifth).grows
      exact rest.expected (storedArrays _ (Summary.mem_storeArrays.mpr statement))
  | loadArray statement =>
      exact fifth.grows.expected (loadedArrays _ (Summary.mem_loadArrays.mpr statement))
  | call statement onVariable resolved =>
      have member := mem_callSitesOf_bodyOf.mpr ⟨rfl, _, statement, onVariable⟩
      obtain ⟨d, selects, call, -⟩ := called _ member _ statement _ (sameType ▸ resolved)
      exact (consistentFifth.callInstance_of_selects selects).symm ▸ call
  | this statement onVariable resolved own =>
      have member := mem_callSitesOf_bodyOf.mpr ⟨rfl, _, statement, onVariable⟩
      obtain ⟨d, selects, -, thisHeld⟩ := called _ member _ statement _ (sameType ▸ resolved)
      exact (consistentFifth.callInstance_of_selects selects).symm ▸ thisHeld _ own

theorem applyAccessesAll_spec (reached : s.Expected (.reach c m)) {v : VarId}
    (objects : List QualifiedObjectId) (held : ∀ o ∈ objects, s.Expected (.holds (.var c v) o))
    {accesses : Accesses}
    (listed : accesses = (Summary.ofBody m (setting.program.bodyOf m)).accessesOf v) :
    Runs setting s (objects.foldl (fun s o => applyAccesses setting s c accesses o) s) ∧
      ∀ o ∈ objects, ∀ fact, ObjectDemands setting.program
          ((objects.foldl (fun s o => applyAccesses setting s c accesses o) s).domain setting) c m v o
          fact →
        (objects.foldl (fun s o => applyAccesses setting s c accesses o) s).Expected fact := by
  have ready : s.Expected (.reach c m) ∧ ∀ o ∈ objects, s.Expected (.holds (.var c v) o) :=
    ⟨reached, held⟩
  obtain ⟨runs, done⟩ := Runs.foldl wellFormed (f := fun s o => applyAccesses setting s c accesses o)
    objects
    (fun t => t.Expected (.reach c m) ∧ ∀ o ∈ objects, t.Expected (.holds (.var c v) o))
    (fun o t => o ∈ objects → ∀ fact,
      ObjectDemands setting.program (t.domain setting) c m v o fact → t.Expected fact)
    (fun _ grown ready => ⟨grown.expected ready.1, fun o member => grown.expected (ready.2 o member)⟩)
    (fun before after grown ready done member fact demanded =>
      objectDemands_of_grows before.toValid after.toValid grown (before.facts ready.1)
        (before.facts (ready.2 _ member)).2 (done member) demanded)
    (fun member before ready =>
      have spec := applyAccesses_spec wellFormed before ready.1 (ready.2 _ member) listed
      ⟨spec.1, fun _ => spec.2⟩)
    consistent ready
  exact ⟨runs, fun o member => done o member member⟩

omit consistent in
/-- An abstract method has no statements that an object could demand anything through. -/
theorem objectDemands_of_abstract {D : Domain ContextId QualifiedObjectId} {v : VarId}
    {o : QualifiedObjectId} {fact : Fact ContextId QualifiedObjectId}
    (abstract : setting.program.isAbstract m = true) :
    ¬ ObjectDemands setting.program D c m v o fact := by
  have empty := wellFormed.abstract abstract
  have nothing {s : Stmt} : s ∉ setting.program.bodyOf m := by simp [empty]
  intro demanded
  cases demanded with
  | loadField statement => exact nothing statement
  | storeField statement => exact nothing statement
  | loadArray statement => exact nothing statement
  | storeArray statement => exact nothing statement
  | call statement => exact nothing (Program.mem_bodyOf_of_callAt? statement)
  | this statement => exact nothing (Program.mem_bodyOf_of_callAt? statement)

/-- Reacting to objects that arrive at a node leaves nothing open that they demand. -/
theorem react_spec {id : NodeId} {delta : ObjectSet}
    (arrives : ∀ o, o ∈ delta → s.network.Arrives id o) :
    Runs setting s (react setting s id delta) ∧
      ∀ c v, s.network.graph.pointer? id = some (.var c v) → ∀ o, o ∈ delta →
        ∀ fact, ObjectDemands setting.program ((react setting s id delta).domain setting) c
            (setting.program.methodOfVar v) v o fact →
          (react setting s id delta).Expected fact := by
  cases pointer : s.network.graph.pointer? id with
  | none =>
      simp only [react, pointer]
      exact ⟨.refl s, fun c v impossible => by cases impossible⟩
  | some p =>
      cases p with
      | var c v =>
          have reached : s.Expected (.reach c (setting.program.methodOfVar v)) :=
            (consistent.rooted (Table.mem_of_key? pointer)).reach
          have held : ∀ o ∈ delta.toList, s.Expected (.holds (.var c v) o) :=
            fun o member => ⟨id, pointer, arrives o ((ObjectSet.mem_toList delta o).mp member)⟩
          cases abstract : setting.program.isAbstract (setting.program.methodOfVar v) with
          | true =>
              simp only [react, pointer, Program.summary?, abstract, if_true]
              refine ⟨.refl s, fun c' v' same o member fact demanded => ?_⟩
              cases same
              exact absurd demanded (objectDemands_of_abstract wellFormed abstract)
          | false =>
              simp only [react, pointer, Program.summary?, abstract, Bool.false_eq_true, if_false]
              obtain ⟨runs, done⟩ :=
                applyAccessesAll_spec wellFormed consistent reached delta.toList held rfl
              refine ⟨runs, fun c' v' same o member => ?_⟩
              cases same
              exact done o ((ObjectSet.mem_toList delta o).mpr member)
      | _ =>
          simp only [react, pointer]
          exact ⟨.refl s, fun c v impossible => by cases impossible⟩

end Statements

end PointsTo.State
