/- # HierarchyClosure -- the analysis by declared types ends with a closed graph

Every new edge makes one visit pending and there is one edge at most for a call site and a method, so the
visits of a run are bounded (`HierarchyAnalysis.bound`).  A callee of an edge is visited or pending, and the
calls of a visited method have edges to all their possible targets (`HierarchyAnalysis.Consistent`); when
nothing is pending the graph is closed.

Main statements: `mem_reachable_entry`, `mem_reachable_of_hasEdge` and `hasEdge_of_mem_possibleTargets` for
`HierarchyAnalysis.run`. -/
import PointsTo.Hierarchy.Analysis
import PointsTo.Proofs.CallGraphs
import PointsTo.Proofs.Sizes

set_option autoImplicit false

namespace PointsTo

/-- The possible targets of a call are found by dispatch. -/
theorem Program.exists_dispatch_of_mem_possibleTargets {V : Type} {p : Program} {call : Invocation V}
    {m : MethodId} (possible : m ∈ p.possibleTargets call) :
    ∃ c, p.dispatch c call.target.subsignature = some m := by
  unfold possibleTargets possibleTargets? at possible
  cases resolved : p.resolveRef call.target with
  | none => simp [resolved] at possible
  | some declaration =>
      simp only [resolved, Option.map_some, Option.getD_some] at possible
      split at possible
      · obtain ⟨c, -, found⟩ := List.mem_filterMap.mp (List.mem_eraseDups.mp possible)
        exact ⟨c, found⟩
      · exact ⟨_, Option.mem_toList.mp possible⟩

/-- The possible targets of a call are declared. -/
theorem Program.lt_of_mem_possibleTargets {V : Type} {p : Program} {call : Invocation V} {m : MethodId}
    (possible : m ∈ p.possibleTargets call) : m < p.methods.size := by
  obtain ⟨c, found⟩ := exists_dispatch_of_mem_possibleTargets possible
  exact lt_of_dispatch found

namespace HierarchyAnalysis

variable {p : Program} {entry : MethodId} {a b c : HierarchyAnalysis}

theorem mem_callsOf {m : MethodId} {site : CallSite} {call : Invocation VarId} :
    (site, call) ∈ callsOf p m ↔ site.method = m ∧ p.callAt? site = some call := by
  unfold callsOf
  rw [List.mem_filterMap]
  constructor
  · rintro ⟨⟨s, index⟩, member, made⟩
    have read := List.mem_zipIdx_iff_getElem?.mp member
    obtain ⟨there, called, same⟩ := Option.map_eq_some_iff.mp made
    cases same
    exact ⟨rfl, by simp [Program.callAt?, read, called]⟩
  · rintro ⟨rfl, here⟩
    have read := Program.getElem?_of_callAt? here
    exact ⟨(.invoke call, site.index), List.mem_zipIdx_iff_getElem?.mpr read, rfl⟩

/-! ## Adding edges -/

/-- The edges are between call sites and declared methods, and no two have the same ends. -/
structure Simple (p : Program) (a : HierarchyAnalysis) : Prop where
  distinct : (a.calls.edges.toList.map fun e => (e.site, e.callee)).Nodup
  inside : ∀ e ∈ a.calls.edges, e.site ∈ p.callSites ∧ e.callee < p.methods.size

/-- A simple graph has at most one edge for a call site and a method. -/
theorem Simple.edges_size_le (simple : a.Simple p) :
    a.calls.edges.size ≤ total (p.methods.toList.map fun m => m.body.length) * p.methods.size := by
  have subset : (a.calls.edges.toList.map fun e => (e.site, e.callee)) ⊆
      p.callSites.flatMap fun site => (List.range p.methods.size).map fun m => (site, m) := by
    intro ends member
    obtain ⟨e, edge, rfl⟩ := List.mem_map.mp member
    obtain ⟨atSite, declared⟩ := simple.inside e (Array.mem_toList_iff.mp edge)
    exact List.mem_flatMap.mpr ⟨_, atSite, List.mem_map.mpr ⟨_, List.mem_range.mpr declared, rfl⟩⟩
  have counted := length_le_of_nodup simple.distinct subset
  rw [List.length_map, Array.length_toList, List.length_flatMap] at counted
  rw [← p.length_callSites]
  simpa using counted

/-- The later analysis has more edges, each of which made its callee pending. -/
structure Adds (p : Program) (a b : HierarchyAnalysis) : Prop where
  reachable : b.calls.reachable = a.calls.reachable
  edges : ∀ e ∈ a.calls.edges, e ∈ b.calls.edges
  pending : ∀ m ∈ a.pending.toList, m ∈ b.pending.toList
  callees : ∀ e ∈ b.calls.edges, e ∈ a.calls.edges ∨ e.callee ∈ b.pending.toList
  balance : b.pending.toList.length + a.calls.edges.size = a.pending.toList.length + b.calls.edges.size
  simple : a.Simple p → b.Simple p

theorem Adds.refl (a : HierarchyAnalysis) : a.Adds p a :=
  ⟨rfl, fun _ => id, fun _ => id, fun _ => .inl, rfl, id⟩

theorem Adds.trans (first : a.Adds p b) (second : b.Adds p c) : a.Adds p c where
  reachable := second.reachable.trans first.reachable
  edges e edge := second.edges e (first.edges e edge)
  pending m waits := second.pending m (first.pending m waits)
  callees e edge := by
    rcases second.callees e edge with middle | new
    · exact (first.callees e middle).imp_right (second.pending _)
    · exact .inr new
  balance := by
    have one := first.balance
    have two := second.balance
    omega
  simple := fun simple => second.simple (first.simple simple)

theorem Adds.hasEdge (adds : a.Adds p b) {site : CallSite} {m : MethodId}
    (there : a.calls.hasEdge site m = true) : b.calls.hasEdge site m = true := by
  obtain ⟨e, edge, ends⟩ := CallGraph.hasEdge_iff.mp there
  exact CallGraph.hasEdge_iff.mpr ⟨e, adds.edges e edge, ends⟩

theorem adds_report (event : Event) : a.Adds p (a.report event) :=
  ⟨rfl, fun _ => id, fun _ => id, fun _ => .inl, rfl, fun simple => ⟨simple.distinct, simple.inside⟩⟩

/-- One more edge, between ends that have none, keeps a graph simple. -/
theorem Simple.push (simple : a.Simple p) {e : CallEdge CallSite MethodId}
    (edges : b.calls.edges = a.calls.edges.push e)
    (fresh : ∀ old ∈ a.calls.edges, ¬ (old.site = e.site ∧ old.callee = e.callee))
    (atSite : e.site ∈ p.callSites) (declared : e.callee < p.methods.size) : b.Simple p := by
  constructor
  · rw [edges, Array.toList_push, List.map_append, List.map_singleton]
    refine List.nodup_append.mpr ⟨simple.distinct, List.pairwise_singleton _ _, ?_⟩
    intro ends old other new same
    obtain ⟨e', edge, rfl⟩ := List.mem_map.mp old
    rw [List.mem_singleton.mp new, Prod.mk.injEq] at same
    exact fresh e' (Array.mem_toList_iff.mp edge) same
  · rw [edges]
    intro e' edge
    rcases Array.mem_push.mp edge with old | rfl
    · exact simple.inside e' old
    · exact ⟨atSite, declared⟩

/-- A target gets its edge. -/
theorem adds_addTarget {site : CallSite} (atSite : site ∈ p.callSites) (kind : CallKind) {m : MethodId}
    (declared : m < p.methods.size) : a.Adds p (a.addTarget site kind m) ∧
      (a.addTarget site kind m).calls.hasEdge site m = true := by
  cases there : a.calls.hasEdge site m with
  | true =>
      have same : a.addTarget site kind m = a := by simp [addTarget, CallGraph.connect, there]
      rw [same]
      exact ⟨.refl a, there⟩
  | false =>
      have edges : (a.addTarget site kind m).calls.edges =
          a.calls.edges.push ⟨site, kind, site.method, m⟩ := by
        simp [addTarget, CallGraph.connect, there]
      have reachable : (a.addTarget site kind m).calls.reachable = a.calls.reachable := by
        simp [addTarget, CallGraph.connect, there]
      have pending : (a.addTarget site kind m).pending = a.pending.push m := by
        simp [addTarget, CallGraph.connect, there]
      have fresh : ∀ e ∈ a.calls.edges, ¬ (e.site = site ∧ e.callee = m) := by
        intro e edge ends
        rw [CallGraph.hasEdge_iff.mpr ⟨e, edge, ends⟩] at there
        cases there
      refine ⟨⟨reachable, ?_, ?_, ?_, ?_, fun simple => simple.push edges fresh atSite declared⟩, ?_⟩
      · rw [edges]
        exact fun e edge => Array.mem_push.mpr (.inl edge)
      · rw [pending, Worklist.toList_push]
        exact fun n waits => List.mem_append_left _ waits
      · rw [edges, pending, Worklist.toList_push]
        intro e edge
        rcases Array.mem_push.mp edge with old | rfl
        · exact .inl old
        · exact .inr (List.mem_append_right _ (List.mem_singleton_self m))
      · rw [edges, pending, Worklist.toList_push, List.length_append, Array.size_push,
          List.length_singleton]
        omega
      · exact CallGraph.hasEdge_iff.mpr ⟨_, by rw [edges]; exact Array.mem_push_self, rfl, rfl⟩

/-- Adding along a list, where what each element asks for stays. -/
theorem Adds.foldl {α : Type} {f : HierarchyAnalysis → α → HierarchyAnalysis}
    (done : α → HierarchyAnalysis → Prop)
    (stays : ∀ {x a b}, Adds p a b → done x a → done x b) (xs : List α)
    (one : ∀ x ∈ xs, ∀ a, a.Adds p (f a x) ∧ done x (f a x)) (a : HierarchyAnalysis) :
    a.Adds p (xs.foldl f a) ∧ ∀ x ∈ xs, done x (xs.foldl f a) := by
  induction xs generalizing a with
  | nil => exact ⟨.refl a, fun x member => by cases member⟩
  | cons x rest ih =>
      obtain ⟨first, doneFirst⟩ := one x List.mem_cons_self a
      obtain ⟨later, doneLater⟩ := ih (fun y member => one y (List.mem_cons_of_mem x member)) (f a x)
      refine ⟨first.trans later, fun y member => ?_⟩
      rcases List.mem_cons.mp member with rfl | inRest
      · exact stays later doneFirst
      · exact doneLater y inRest

/-- A call gets edges to all its possible targets. -/
theorem adds_addCall {site : CallSite} {call : Invocation VarId}
    (statement : p.callAt? site = some call) (a : HierarchyAnalysis) :
    a.Adds p (addCall p a site call) ∧
      ∀ m ∈ p.possibleTargets call, (addCall p a site call).calls.hasEdge site m = true := by
  have reports : a.Adds p (if (p.possibleTargets? call).isNone then a.report (.undeclared call.target)
      else a) := by
    split
    · exact adds_report _
    · exact .refl a
  unfold addCall
  simp only
  generalize (if (p.possibleTargets? call).isNone then a.report (.undeclared call.target) else a) = r
    at reports ⊢
  split
  · rename_i empty
    exact ⟨reports.trans (adds_report _), fun m member => by rw [empty] at member; cases member⟩
  · obtain ⟨adds, done⟩ := Adds.foldl (fun m a => a.calls.hasEdge site m = true)
      (fun adds there => adds.hasEdge there) (p.possibleTargets call)
      (fun m possible a => adds_addTarget (Program.mem_callSites statement) call.kind
        (Program.lt_of_mem_possibleTargets possible)) r
    exact ⟨reports.trans adds, done⟩

/-! ## Visits -/

/-- Callees are visited or pending, and visited methods have their edges. -/
structure Consistent (p : Program) (entry : MethodId) (a : HierarchyAnalysis) : Prop
    extends Simple p a where
  entered : entry ∈ a.calls.reachable ∨ entry ∈ a.pending.toList
  queued : ∀ e ∈ a.calls.edges, e.callee ∈ a.calls.reachable ∨ e.callee ∈ a.pending.toList
  visited : ∀ {site call}, site.method ∈ a.calls.reachable → p.callAt? site = some call →
    ∀ m ∈ p.possibleTargets call, a.calls.hasEdge site m = true

theorem consistent_start : (start entry).Consistent p entry where
  distinct := by simp [start, CallGraph.addEntry, CallGraph.empty]
  inside := by simp [start, CallGraph.addEntry, CallGraph.empty]
  entered := .inr (by simp [start, Worklist.empty, Worklist.toList, Worklist.push])
  queued := by simp [start, CallGraph.addEntry, CallGraph.empty]
  visited := by simp [start, CallGraph.addEntry, CallGraph.empty]

/-- All calls of a method get their edges. -/
theorem adds_callsOf (p : Program) (a : HierarchyAnalysis) (m : MethodId) :
    a.Adds p ((callsOf p m).foldl (fun a pair => addCall p a pair.1 pair.2) a) ∧
      ∀ {site call}, site.method = m → p.callAt? site = some call → ∀ target ∈ p.possibleTargets call,
        ((callsOf p m).foldl (fun a pair => addCall p a pair.1 pair.2) a).calls.hasEdge site target =
          true := by
  obtain ⟨adds, done⟩ := Adds.foldl
    (fun (pair : CallSite × Invocation VarId) a =>
      ∀ target ∈ p.possibleTargets pair.2, a.calls.hasEdge pair.1 target = true)
    (fun adds there target possible => adds.hasEdge (there target possible)) (callsOf p m)
    (fun pair member a => adds_addCall (mem_callsOf.mp member).2 a) a
  exact ⟨adds, fun here statement => done (_, _) (mem_callsOf.mpr ⟨here, statement⟩)⟩

section Visit

variable {m : MethodId} {rest : Worklist MethodId}

theorem visit_of_isReachable (known : a.calls.isReachable m = true) :
    visit p { a with pending := rest } m = { a with pending := rest } := by
  simp [visit, CallGraph.reach, known]

/-- The calls of a method that is visited for the first time add their edges to an analysis in which the
method is marked. -/
theorem exists_visit_eq (p : Program) (rest : Worklist MethodId) (new : a.calls.isReachable m = false) :
    ∃ marked : HierarchyAnalysis,
    marked.calls = (a.calls.reach m).1 ∧ marked.pending = rest ∧
      visit p { a with pending := rest } m =
        (callsOf p m).foldl (fun a pair => addCall p a pair.1 pair.2) marked := by
  refine ⟨_, ?_, ?_, by simp only [visit, CallGraph.reach, new]; rfl⟩
  · simp [report, CallGraph.reach, new]
  · rfl

variable (consistent : a.Consistent p entry) (popped : a.pending.pop? = some (m, rest))
include popped

/-- What was pending is taken or still pending. -/
theorem mem_of_pop {other : MethodId} (waits : other ∈ a.pending.toList) :
    other = m ∨ other ∈ rest.toList := by
  rw [Worklist.toList_of_pop? popped] at waits
  exact List.mem_cons.mp waits

include consistent

/-- Nothing has to be done for a method that was visited. -/
theorem Consistent.drop (known : m ∈ a.calls.reachable) :
    ({ a with pending := rest } : HierarchyAnalysis).Consistent p entry := by
  have still : ∀ other, other ∈ a.calls.reachable ∨ other ∈ a.pending.toList →
      other ∈ a.calls.reachable ∨ other ∈ rest.toList := by
    rintro other (visited | waits)
    · exact .inl visited
    · rcases mem_of_pop popped waits with rfl | later
      · exact .inl known
      · exact .inr later
  exact ⟨⟨consistent.distinct, consistent.inside⟩, still _ consistent.entered,
    fun e edge => still _ (consistent.queued e edge), consistent.visited⟩

/-- An analysis is consistent when a method is marked and its calls have added their edges. -/
theorem Consistent.of_adds {marked b : HierarchyAnalysis} (calls : marked.calls = (a.calls.reach m).1)
    (pending : marked.pending = rest) (adds : marked.Adds p b)
    (done : ∀ {site call}, site.method = m → p.callAt? site = some call →
      ∀ target ∈ p.possibleTargets call, b.calls.hasEdge site target = true) : b.Consistent p entry := by
  obtain ⟨sameEdges, -, members⟩ := CallGraph.reach_spec a.calls m
  have edges : marked.calls.edges = a.calls.edges := by rw [calls, sameEdges]
  have reachable : ∀ other, other ∈ b.calls.reachable ↔ other ∈ a.calls.reachable ∨ other = m := by
    intro other
    rw [adds.reachable, calls]
    exact members other
  have still : ∀ other, other ∈ a.calls.reachable ∨ other ∈ a.pending.toList →
      other ∈ b.calls.reachable ∨ other ∈ b.pending.toList := by
    rintro other (visited | waits)
    · exact .inl ((reachable other).mpr (.inl visited))
    · rcases mem_of_pop popped waits with here | later
      · exact .inl ((reachable other).mpr (.inr here))
      · exact .inr (adds.pending other (pending ▸ later))
  have simple : marked.Simple p := ⟨edges ▸ consistent.distinct, edges ▸ consistent.inside⟩
  refine ⟨adds.simple simple, still _ consistent.entered, ?_, ?_⟩
  · intro e edge
    rcases adds.callees e edge with old | new
    · rw [edges] at old
      exact still _ (consistent.queued e old)
    · exact .inr new
  · intro site call there statement target possible
    rcases (reachable _).mp there with visited | here
    · have there := consistent.visited visited statement target possible
      obtain ⟨e, edge, ends⟩ := CallGraph.hasEdge_iff.mp there
      rw [← edges] at edge
      exact CallGraph.hasEdge_iff.mpr ⟨e, adds.edges e edge, ends⟩
    · exact done here statement target possible

/-- A visit takes a pending method away and keeps the analysis consistent; it makes as many visits pending as
it adds edges. -/
theorem Consistent.visit : (visit p { a with pending := rest } m).Consistent p entry ∧
    (HierarchyAnalysis.visit p { a with pending := rest } m).pending.toList.length + 1 +
        a.calls.edges.size =
      a.pending.toList.length +
        (HierarchyAnalysis.visit p { a with pending := rest } m).calls.edges.size := by
  have whole := congrArg List.length (Worklist.toList_of_pop? popped)
  rw [List.length_cons] at whole
  cases known : a.calls.isReachable m with
  | true =>
      rw [visit_of_isReachable known]
      refine ⟨consistent.drop popped (CallGraph.isReachable_iff.mp known), ?_⟩
      show rest.toList.length + 1 + a.calls.edges.size = _ + a.calls.edges.size
      omega
  | false =>
      obtain ⟨marked, calls, pending, same⟩ := exists_visit_eq p rest known
      obtain ⟨adds, done⟩ := adds_callsOf p marked m
      obtain ⟨sameEdges, -, -⟩ := CallGraph.reach_spec a.calls m
      have balance := adds.balance
      rw [calls, sameEdges, pending] at balance
      rw [same]
      refine ⟨consistent.of_adds popped calls pending adds done, ?_⟩
      omega

end Visit

/-! ## The end of a run -/

theorem step_of_pop {m : MethodId} {rest : Worklist MethodId} (popped : a.pending.pop? = some (m, rest)) :
    step p a = some (visit p { a with pending := rest } m) := by
  simp [step, popped]

/-- As many steps as there are visits pending and edges missing leave nothing pending. -/
theorem Consistent.steps (consistent : a.Consistent p entry) {count : Nat}
    (enough : a.pending.toList.length +
      total (p.methods.toList.map fun m => m.body.length) * p.methods.size ≤ count + a.calls.edges.size) :
    (HierarchyAnalysis.steps p count a).Consistent p entry ∧
      (HierarchyAnalysis.steps p count a).pending.toList = [] := by
  induction count generalizing a with
  | zero =>
      have few := consistent.toSimple.edges_size_le
      have nothing : a.pending.toList.length = 0 := by omega
      exact ⟨consistent, List.eq_nil_of_length_eq_zero nothing⟩
  | succ count ih =>
      unfold HierarchyAnalysis.steps
      cases popped : a.pending.pop? with
      | none =>
          have nothing : step p a = none := by simp [step, popped]
          rw [nothing]
          exact ⟨consistent, Worklist.toList_eq_nil_of_pop? popped⟩
      | some work =>
          obtain ⟨m, rest⟩ := work
          obtain ⟨kept, balance⟩ := consistent.visit popped
          rw [step_of_pop popped]
          exact ih kept (by omega)

/-- In the graph of a run nothing is left to visit. -/
theorem consistent_run (p : Program) (entry : MethodId) :
    (run p entry).Consistent p entry ∧ (run p entry).pending.toList = [] := by
  have waiting : (start entry).pending.toList.length = 1 := rfl
  refine consistent_start.steps ?_
  unfold bound
  omega

theorem mem_reachable_entry (p : Program) (entry : MethodId) : entry ∈ (run p entry).calls.reachable := by
  obtain ⟨consistent, nothing⟩ := consistent_run p entry
  have entered := consistent.entered
  rw [nothing] at entered
  exact entered.resolve_right List.not_mem_nil

theorem mem_reachable_of_hasEdge {site : CallSite} {m : MethodId}
    (edge : (run p entry).calls.hasEdge site m = true) : m ∈ (run p entry).calls.reachable := by
  obtain ⟨consistent, nothing⟩ := consistent_run p entry
  obtain ⟨e, member, -, rfl⟩ := CallGraph.hasEdge_iff.mp edge
  have queued := consistent.queued e member
  rw [nothing] at queued
  exact queued.resolve_right List.not_mem_nil

theorem hasEdge_of_mem_possibleTargets {site : CallSite} {call : Invocation VarId} {m : MethodId}
    (visited : site.method ∈ (run p entry).calls.reachable) (statement : p.callAt? site = some call)
    (possible : m ∈ p.possibleTargets call) : (run p entry).calls.hasEdge site m = true :=
  (consistent_run p entry).1.visited visited statement m possible

end HierarchyAnalysis

end PointsTo
