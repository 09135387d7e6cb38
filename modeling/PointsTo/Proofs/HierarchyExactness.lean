/- # HierarchyExactness -- the analysis by declared types computes its closure and nothing more

A visit adds edges of the visited method only and queues their callees (`HierarchyAnalysis.AddsCalls`), so
what is marked or queued lies in every set that has the entry and all callees of its methods
(`HierarchyAnalysis.Justified`).  A finished run is closed itself, so the marked methods are the least such
set.  A method that comes out of the queue again is skipped, so each is counted once however often calls lead
to it.

Main statement: `closure_of_run`. -/
import Mathlib.Order.Bounds.Basic
import PointsTo.Proofs.HierarchyClosure
import PointsTo.Proofs.Monotonicity
import PointsTo.Proofs.Safety

set_option autoImplicit false

namespace PointsTo

/-- The possible targets of a call have bodies. -/
theorem Program.isAbstract_of_mem_possibleTargets {V : Type} {p : Program} {call : Invocation V}
    {m : MethodId} (possible : m ∈ p.possibleTargets call) : p.isAbstract m = false := by
  obtain ⟨c, found⟩ := exists_dispatch_of_mem_possibleTargets possible
  exact isAbstract_of_dispatch found

/-- An edge leads from a call site to a method that may run there by declared types. -/
structure Program.Targets (p : Program) (e : CallEdge CallSite MethodId) : Prop where
  source : e.caller = e.site.method
  statement : ∃ call, p.callAt? e.site = some call ∧ e.kind = call.kind ∧
    e.callee ∈ p.possibleTargets call

/-- Two such edges with the same ends are the same. -/
theorem Program.Targets.unique {p : Program} {e e' : CallEdge CallSite MethodId} (one : p.Targets e)
    (other : p.Targets e') (site : e'.site = e.site) (callee : e'.callee = e.callee) : e' = e := by
  obtain ⟨call, here, kind, -⟩ := one.statement
  obtain ⟨call', here', kind', -⟩ := other.statement
  rw [site, here, Option.some.injEq] at here'
  have caller : e'.caller = e.caller := by rw [other.source, one.source, site]
  rw [← here', ← kind] at kind'
  cases e
  cases e'
  simp only at site callee caller kind'
  rw [site, callee, caller, kind']

/-- A set of methods with the entry and everything that its methods may call by declared types. -/
structure ClosedUnderTargets (p : Program) (entry : MethodId) (methods : Set MethodId) : Prop where
  entry : entry ∈ methods
  targets : ∀ e, p.Targets e → e.site.method ∈ methods → e.callee ∈ methods

namespace HierarchyAnalysis

variable {p : Program} {entry m : MethodId} {a b c : HierarchyAnalysis}

/-! ## What a visit adds -/

/-- The later analysis has more edges of one method only, and only callees were queued. -/
structure AddsCalls (p : Program) (m : MethodId) (a b : HierarchyAnalysis) : Prop where
  reachable : b.calls.reachable = a.calls.reachable
  statements : b.statements = a.statements
  edges : ∀ e ∈ b.calls.edges, e ∈ a.calls.edges ∨ e.site.method = m ∧ p.Targets e
  pending : ∀ n ∈ b.pending.toList,
    n ∈ a.pending.toList ∨ ∃ e, e.site.method = m ∧ p.Targets e ∧ e.callee = n
  simple : a.calls.Simple → b.calls.Simple

theorem AddsCalls.refl (a : HierarchyAnalysis) : a.AddsCalls p m a :=
  ⟨rfl, rfl, fun _ => .inl, fun _ => .inl, id⟩

theorem AddsCalls.trans (first : a.AddsCalls p m b) (second : b.AddsCalls p m c) : a.AddsCalls p m c where
  reachable := second.reachable.trans first.reachable
  statements := second.statements.trans first.statements
  edges e edge := (second.edges e edge).elim (first.edges e) .inr
  pending n waits := (second.pending n waits).elim (first.pending n) .inr
  simple := second.simple ∘ first.simple

theorem AddsCalls.foldl {α : Type} {f : HierarchyAnalysis → α → HierarchyAnalysis} (xs : List α)
    (one : ∀ x ∈ xs, ∀ a : HierarchyAnalysis, a.AddsCalls p m (f a x)) (a : HierarchyAnalysis) :
    a.AddsCalls p m (xs.foldl f a) := by
  induction xs generalizing a with
  | nil => exact .refl a
  | cons x rest ih =>
      exact (one x List.mem_cons_self a).trans
        (ih (fun other member => one other (List.mem_cons_of_mem x member)) (f a x))

theorem addsCalls_report (event : Event) : a.AddsCalls p m (a.report event) :=
  ⟨rfl, rfl, fun _ => .inl, fun _ => .inl, id⟩

theorem addsCalls_addTarget {site : CallSite} {kind : CallKind} {target : MethodId}
    (targets : p.Targets ⟨site, kind, site.method, target⟩) :
    a.AddsCalls p site.method (a.addTarget site kind target) := by
  cases there : a.calls.hasEdge site target with
  | true =>
      have same : a.addTarget site kind target = a := by simp [addTarget, CallGraph.connect, there]
      rw [same]
      exact .refl a
  | false =>
      have simple (before : a.calls.Simple) :=
        CallGraph.simple_connect before ⟨site, kind, site.method, target⟩
      unfold addTarget
      unfold CallGraph.connect at simple ⊢
      simp only [there, Bool.false_eq_true, if_false, if_true] at simple ⊢
      refine ⟨rfl, rfl, fun e edge => ?_, fun n waits => ?_, simple⟩
      · exact (Array.mem_push.mp edge).imp_right fun new => by rw [new]; exact ⟨rfl, targets⟩
      · rw [Worklist.toList_push, List.mem_append, List.mem_singleton] at waits
        exact waits.imp_right fun new => ⟨_, rfl, targets, new.symm⟩

theorem addsCalls_addCall {site : CallSite} {call : Invocation VarId} (statement : p.callAt? site = some call)
    (a : HierarchyAnalysis) : a.AddsCalls p site.method (addCall p a site call) := by
  have reports : a.AddsCalls p site.method
      (if (p.possibleTargets? call).isNone then a.report (.undeclared call.target) else a) := by
    split
    · exact addsCalls_report _
    · exact .refl a
  unfold addCall
  simp only
  split
  · exact reports.trans (addsCalls_report _)
  · refine reports.trans (.foldl _ (fun target possible a => ?_) _)
    exact addsCalls_addTarget ⟨rfl, call, statement, rfl, possible⟩

theorem addsCalls_callsOf (p : Program) (m : MethodId) (a : HierarchyAnalysis) :
    a.AddsCalls p m ((callsOf p m).foldl (fun a pair => addCall p a pair.1 pair.2) a) := by
  refine .foldl _ (fun pair member a => ?_) a
  obtain ⟨here, statement⟩ := mem_callsOf.mp member
  exact here ▸ addsCalls_addCall statement a

/-! ## What is marked, queued and counted -/

/-- What is marked or queued has to be, the edges are those of marked methods, and every marked method was
counted once. -/
structure Justified (p : Program) (entry : MethodId) (a : HierarchyAnalysis) : Prop where
  inside : ∀ {methods}, ClosedUnderTargets p entry methods →
    ∀ m, m ∈ a.calls.reachable ∨ m ∈ a.pending.toList → m ∈ methods
  edges : ∀ e ∈ a.calls.edges, e.site.method ∈ a.calls.reachable ∧ p.Targets e
  simple : a.calls.Simple
  statements : a.statements = total (a.calls.reachable.toList.map fun m => (p.bodyOf m).length)

theorem justified_start (p : Program) (entry : MethodId) : (start entry).Justified p entry where
  inside closed m known := by
    obtain none | queued := known
    · simp [start, CallGraph.addEntry, CallGraph.empty] at none
    · simp only [start, Worklist.empty, Worklist.toList, Worklist.push, List.reverse_singleton,
        List.nil_append, List.mem_singleton] at queued
      exact queued ▸ closed.entry
  edges e edge := by simp [start, CallGraph.addEntry, CallGraph.empty] at edge
  simple := ⟨by simp [start, CallGraph.addEntry, CallGraph.empty],
    by simp [start, CallGraph.addEntry, CallGraph.empty]⟩
  statements := by simp [start, CallGraph.addEntry, CallGraph.empty, total]

/-- Calls of a marked method are justified. -/
theorem Justified.addsCalls (justified : a.Justified p entry) (visited : m ∈ a.calls.reachable)
    (adds : a.AddsCalls p m b) : b.Justified p entry where
  inside {methods} closed n known := by
    rcases known with marked | waits
    · exact justified.inside closed n (.inl (adds.reachable ▸ marked))
    · rcases adds.pending n waits with old | ⟨e, site, targets, rfl⟩
      · exact justified.inside closed n (.inr old)
      · have caller : m ∈ methods := justified.inside closed m (.inl visited)
        exact closed.targets e targets (site ▸ caller)
  edges e edge := by
    rw [adds.reachable]
    rcases adds.edges e edge with old | ⟨site, targets⟩
    · exact justified.edges e old
    · exact ⟨site ▸ visited, targets⟩
  simple := adds.simple justified.simple
  statements := by rw [adds.statements, adds.reachable, justified.statements]

/-- The analysis in which a method is marked and counted, and its calls are still to come. -/
def mark (p : Program) (a : HierarchyAnalysis) (rest : Worklist MethodId) (m : MethodId) :
    HierarchyAnalysis :=
  { a with
    calls := (a.calls.reach m).1
    pending := rest
    statements := a.statements + (p.bodyOf m).length }

section Visit

variable {rest : Worklist MethodId}

theorem addsCalls_mark (new : a.calls.isReachable m = false) :
    (mark p a rest m).AddsCalls p m (visit p { a with pending := rest } m) := by
  unfold visit mark
  simp only [CallGraph.reach, new, Bool.not_true, Bool.false_eq_true, if_false]
  exact .trans (addsCalls_report (.visiting m)) (addsCalls_callsOf p m _)

variable (justified : a.Justified p entry) (popped : a.pending.pop? = some (m, rest))
include justified popped

/-- A method that comes out of the queue may be marked; it takes the place behind all others. -/
theorem Justified.mark (new : a.calls.isReachable m = false) :
    (HierarchyAnalysis.mark p a rest m).Justified p entry := by
  obtain ⟨sameEdges, -, members⟩ := CallGraph.reach_spec a.calls m
  have whole := Worklist.toList_of_pop? popped
  constructor
  case inside =>
    intro methods closed n known
    have inside := justified.inside closed
    rw [whole] at inside
    rcases known with marked | waits
    · rcases (members n).mp marked with old | rfl
      · exact inside n (.inl old)
      · exact inside n (.inr List.mem_cons_self)
    · exact inside n (.inr (List.mem_cons_of_mem m waits))
  case edges =>
    intro e edge
    replace edge : e ∈ (a.calls.reach m).1.edges := edge
    rw [sameEdges] at edge
    exact (justified.edges e edge).imp_left fun known => (members _).mpr (.inl known)
  case simple => exact CallGraph.simple_reach justified.simple m
  case statements =>
    have marked : (a.calls.reach m).1.reachable = a.calls.reachable.push m := by
      simp [CallGraph.reach, new]
    simp only [HierarchyAnalysis.mark, marked, Array.toList_push, List.map_append, total_append,
      justified.statements]
    simp [total]

theorem Justified.visit : (HierarchyAnalysis.visit p { a with pending := rest } m).Justified p entry := by
  cases known : a.calls.isReachable m with
  | true =>
      have waiting : ∀ n ∈ rest.toList, n ∈ a.pending.toList := fun n waits =>
        Worklist.toList_of_pop? popped ▸ List.mem_cons_of_mem m waits
      rw [visit_of_isReachable known]
      exact ⟨fun closed n found => justified.inside closed n (found.imp_right (waiting n)),
        justified.edges, justified.simple, justified.statements⟩
  | false =>
      have visited : m ∈ (HierarchyAnalysis.mark p a rest m).calls.reachable :=
        ((CallGraph.reach_spec a.calls m).2.2 m).mpr (.inr rfl)
      exact (justified.mark popped known).addsCalls visited (addsCalls_mark known)

end Visit

theorem Justified.steps (justified : a.Justified p entry) (count : Nat) :
    (HierarchyAnalysis.steps p count a).Justified p entry := by
  induction count generalizing a with
  | zero => exact justified
  | succ count ih =>
      unfold HierarchyAnalysis.steps
      cases popped : a.pending.pop? with
      | none => simpa [step, popped] using justified
      | some work =>
          rw [step_of_pop popped]
          exact ih (justified.visit popped)

/-! ## The closure -/

/-- The analysis has the closure of the entry under the targets of calls, every edge of it and nothing twice,
and its statements were counted; together with the dead methods the closure is all that has a body. -/
structure IsClosure (p : Program) (entry : MethodId) (a : HierarchyAnalysis) : Prop where
  least : IsLeast {methods | ClosedUnderTargets p entry methods} {m | m ∈ a.calls.reachable}
  edges : ∀ e, e ∈ a.calls.edges ↔ e.site.method ∈ a.calls.reachable ∧ p.Targets e
  once : a.calls.Simple
  statements : a.statements = total (a.calls.reachable.toList.map fun m => (p.bodyOf m).length)
  runnable : ∀ m ∈ a.calls.reachable, m < p.methods.size ∧ p.isAbstract m = false
  partitioned : (a.calls.reachable.toList ++ deadMethods p a).Perm
    ((List.range p.methods.size).filter fun m => !p.isAbstract m)

/-- The methods with bodies are closed. -/
theorem closedUnderTargets_runnable (inUse : entry < p.methods.size) (body : p.isAbstract entry = false) :
    ClosedUnderTargets p entry {m | m < p.methods.size ∧ p.isAbstract m = false} where
  entry := ⟨inUse, body⟩
  targets e targets _ := by
    obtain ⟨call, -, -, possible⟩ := targets.statement
    exact ⟨Program.lt_of_mem_possibleTargets possible, Program.isAbstract_of_mem_possibleTargets possible⟩

theorem mem_deadMethods : m ∈ deadMethods p a ↔
    m < p.methods.size ∧ p.isAbstract m = false ∧ m ∉ a.calls.reachable := by
  simp [deadMethods, PlainCallGraph.deadMethods, CallGraph.isReachable]

/-- Reachable and dead methods are the methods with bodies, each once. -/
theorem perm_reachable_deadMethods (simple : a.calls.Simple)
    (runnable : ∀ m ∈ a.calls.reachable, m < p.methods.size ∧ p.isAbstract m = false) :
    (a.calls.reachable.toList ++ deadMethods p a).Perm
      ((List.range p.methods.size).filter fun m => !p.isAbstract m) := by
  refine (List.perm_ext_iff_of_nodup ?_ (List.nodup_range.filter _)).mpr fun m => ?_
  · refine List.nodup_append.mpr ⟨simple.reachable, List.nodup_range.filter _, fun m live n dead same => ?_⟩
    subst same
    exact (mem_deadMethods.mp dead).2.2 (Array.mem_toList_iff.mp live)
  · have live := runnable m
    simp only [List.mem_append, Array.mem_toList_iff, mem_deadMethods, List.mem_filter, List.mem_range,
      Bool.not_eq_true']
    by_cases known : m ∈ a.calls.reachable
    · simp [known, live known]
    · simp [known]

theorem isClosure_run (inUse : entry < p.methods.size) (body : p.isAbstract entry = false) :
    (run p entry).IsClosure p entry := by
  have justified : (run p entry).Justified p entry := (justified_start p entry).steps (bound p)
  have runnable : ∀ m ∈ (run p entry).calls.reachable, m < p.methods.size ∧ p.isAbstract m = false :=
    fun m known => justified.inside (closedUnderTargets_runnable inUse body) m (.inl known)
  have edges : ∀ e, e ∈ (run p entry).calls.edges ↔
      e.site.method ∈ (run p entry).calls.reachable ∧ p.Targets e := by
    refine fun e => ⟨justified.edges e, fun ⟨visited, targets⟩ => ?_⟩
    obtain ⟨call, statement, -, possible⟩ := targets.statement
    obtain ⟨e', edge, site, callee⟩ := CallGraph.hasEdge_iff.mp
      (hasEdge_of_mem_possibleTargets visited statement possible)
    exact targets.unique (justified.edges e' edge).2 site callee ▸ edge
  have closed : ClosedUnderTargets p entry {m | m ∈ (run p entry).calls.reachable} := by
    refine ⟨mem_reachable_entry p entry, fun e targets visited => ?_⟩
    have edge := (edges e).mpr ⟨visited, targets⟩
    exact mem_reachable_of_hasEdge (CallGraph.hasEdge_iff.mpr ⟨e, edge, rfl, rfl⟩)
  exact {
    least := ⟨closed, fun _ other m known => justified.inside other m (.inl known)⟩
    edges := edges
    once := justified.simple
    statements := justified.statements
    runnable := runnable
    partitioned := perm_reachable_deadMethods justified.simple runnable }

/-- For every entry of a loaded program the analysis comes to its end, with the closure of the entry. -/
theorem closure_of_run (loaded : p.Loaded) {text : Option String} (chosen : p.entryMethod text = .ok entry) :
    (∃ count, step p (steps p count (start entry)) = none ∧ run p entry = steps p count (start entry)) ∧
      (run p entry).IsClosure p entry := by
  obtain ⟨inUse, body⟩ := Checked.runnable_of_entryMethod loaded.inRange chosen
  refine ⟨⟨bound p, ?_, rfl⟩, isClosure_run inUse body⟩
  have nothing : (steps p (bound p) (start entry)).pending.toList = [] := (consistent_run p entry).2
  cases popped : (steps p (bound p) (start entry)).pending.pop? with
  | none => simp [step, popped]
  | some work =>
      rw [Worklist.toList_of_pop? popped] at nothing
      cases nothing

end HierarchyAnalysis

/-- Calls in a circle: `Dog.speak` has calls to itself, from two sites, and to the entry, which calls it. -/
def Description.echo : Description where
  classes := [
    { name := "Animal", isAbstract := true
      methods := [{ name := "speak", isAbstract := true }] },
    { name := "Dog", super := some "Animal"
      methods := [
        { name := "speak", body := [
          .invoke .virtual "Animal" "speak/0" (some "this") [] none,
          .invoke .virtual "Dog" "speak/0" (some "this") [] none,
          .invoke .static "Main" "main/0" none [] none] },
        { name := "rest" }] },
    { name := "Main"
      methods := [
        { name := "main", isStatic := true, body := [
          .new "d" "Dog", .invoke .virtual "Animal" "speak/0" (some "d") [] none] }] }]
  entry := ⟨"Main", "main/0"⟩

/-- Two methods are marked although four edges queue them, and their five statements are counted once. -/
theorem HierarchyAnalysis.closure_of_run_echo :
    ((∃ count, step Description.echo.program (steps Description.echo.program count (start 3)) = none ∧
        run Description.echo.program 3 = steps Description.echo.program count (start 3)) ∧
      (run Description.echo.program 3).IsClosure Description.echo.program 3) ∧
    (run Description.echo.program 3).calls.reachable = #[3, 1] ∧
    (run Description.echo.program 3).calls.edges.toList.map (fun e => (e.site, e.callee)) =
      [(⟨3, 1⟩, 1), (⟨1, 0⟩, 1), (⟨1, 1⟩, 1), (⟨1, 2⟩, 3)] ∧
    (run Description.echo.program 3).statements = 5 ∧
    deadMethods Description.echo.program (run Description.echo.program 3) = [2] := by
  have loaded : Description.echo.program.Loaded := ⟨Description.echo, by decide +kernel⟩
  have chosen : Description.echo.program.entryMethod none = .ok 3 := by decide +kernel
  exact ⟨closure_of_run loaded chosen, by decide +kernel, by decide +kernel, by decide +kernel,
    by decide +kernel⟩

end PointsTo
