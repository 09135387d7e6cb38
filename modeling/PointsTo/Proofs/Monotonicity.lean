/- # Monotonicity -- a step loses nothing and repeats nothing

All lists of a state only get longer, so a number means the same from the step on in which it was given out,
and no set loses an object (`State.Extends`).  A new edge is compared with the old ones and a method with the
reachable ones, so nothing is recorded twice (`State.Distinct`).  Work whose outcome is there already, a
method that is reachable or objects that are all in the set of their node (`State.Redundant`), is only taken
out of the queue.

Main statement: `extends_of_reached`. -/
import PointsTo.Proofs.Termination

set_option autoImplicit false

namespace PointsTo

/-! ## Call graphs -/

namespace CallGraph

variable {S M : Type} [DecidableEq M]

/-- No call site has a callee twice, and no method is marked twice. -/
structure Simple (g : CallGraph S M) : Prop where
  edges : (g.edges.toList.map fun e => (e.site, e.callee)).Nodup
  reachable : g.reachable.toList.Nodup

theorem simple_connect [DecidableEq S] {g : CallGraph S M} (simple : g.Simple) (e : CallEdge S M) :
    (g.connect e).1.Simple := by
  unfold connect
  split
  · exact simple
  · rename_i fresh
    refine ⟨?_, simple.reachable⟩
    rw [Array.toList_push, List.map_append, List.map_singleton, ← List.concat_eq_append]
    refine List.Nodup.concat (fun member => fresh ?_) simple.edges
    obtain ⟨old, edge, ends⟩ := List.mem_map.mp member
    rw [Prod.mk.injEq] at ends
    exact hasEdge_iff.mpr ⟨old, Array.mem_toList_iff.mp edge, ends⟩

theorem simple_reach {g : CallGraph S M} (simple : g.Simple) (m : M) : (g.reach m).1.Simple := by
  unfold reach
  split
  · exact simple
  · rename_i fresh
    refine ⟨simple.edges, ?_⟩
    rw [Array.toList_push, ← List.concat_eq_append]
    exact List.Nodup.concat
      (fun member => fresh (isReachable_iff.mpr (Array.mem_toList_iff.mp member))) simple.reachable

end CallGraph

/-! ## Sets that have all already -/

/-- Absorbing objects that a pointer has changes nothing. -/
theorem PointsMap.absorb_of_subset {m : PointsMap} {pointer : Nat} {set : ObjectSet}
    (filled : set.isEmpty = false) (known : ∀ o, o ∈ set → o ∈ m.points pointer) :
    (m.absorb pointer set).1 = m ∧ (m.absorb pointer set).2.isEmpty = true := by
  have nothing : (set.difference (m.points pointer)).isEmpty = true := by
    refine Bool.not_eq_false _ |>.mp fun something => ?_
    obtain ⟨o, new⟩ := ObjectSet.exists_mem_of_isEmpty something
    obtain ⟨inSet, unknown⟩ := (ObjectSet.mem_difference _ _ _).mp new
    exact unknown (known o inSet)
  obtain ⟨o, inSet⟩ := ObjectSet.exists_mem_of_isEmpty filled
  have held := known o inSet
  have entry : (m.get? pointer).isSome = true := by
    cases read : m.get? pointer with
    | some _ => rfl
    | none => simp [points, read] at held
  simp [absorb, nothing, entry]

theorem Network.absorb_of_subset {n : Network} {id : NodeId} {set : ObjectSet}
    (filled : set.isEmpty = false) (known : ∀ o, o ∈ set → o ∈ n.points.points id) :
    (n.absorb id set).1 = n ∧ (n.absorb id set).2.isEmpty = true := by
  obtain ⟨same, nothing⟩ := PointsMap.absorb_of_subset filled known
  simp [absorb, same, nothing]

namespace State

variable {setting : Setting} {s t next : State}

/-! ## Growth -/

/-- The later state has all that the earlier one has, at the same places. -/
structure Extends (s t : State) : Prop where
  held : ∀ {p o}, o ∈ s.points p → o ∈ t.points p
  points : ∀ {id o}, o ∈ s.network.points.points id → o ∈ t.network.points.points id
  nodes : s.network.graph.nodes.toList <+: t.network.graph.nodes.toList
  flows : s.network.graph.edges.toList <+: t.network.graph.edges.toList
  calls : s.calls.edges.toList <+: t.calls.edges.toList
  reachable : s.calls.reachable.toList <+: t.calls.reachable.toList
  contexts : s.contexts.toList <+: t.contexts.toList
  heap : s.heap.objects.toList <+: t.heap.objects.toList
  objects : s.objects.toList <+: t.objects.toList

theorem Grows.extends (grown : s.Grows t) (before : s.network.graph.nodes.toList.Nodup)
    (after : t.network.graph.nodes.toList.Nodup) : s.Extends t where
  held := fun {p o} member => by
    obtain ⟨id, pointer, held⟩ := (mem_points_iff before).mp member
    exact (mem_points_iff after).mpr ⟨id, grown.network.nodes.key? pointer, grown.network.points id o held⟩
  points := grown.network.points _ _
  nodes := grown.network.nodes
  flows := grown.network.edges
  calls := grown.calls
  reachable := grown.reachable
  contexts := grown.contexts
  heap := grown.heap.objects
  objects := grown.objects

theorem grows_of_step (wellFormed : setting.program.WellFormed) (consistent : s.Consistent setting)
    (taken : step setting s = some next) : s.Grows next := by
  rcases step_cases wellFormed consistent taken with
    ⟨m, rest, popped, runs, -⟩ | ⟨id, set, rest, popped, runs, -⟩
  · exact (grows_takeMethod popped).trans runs.grows
  · exact (grows_takeObjects popped).trans runs.grows

/-! ## Nothing twice -/

/-- No edge is recorded twice, whatever its kind, and no method is reachable twice in a context. -/
structure Distinct (s : State) : Prop where
  flows : (s.network.graph.edges.toList.map fun e => (e.source, e.target)).Nodup
  calls : (s.calls.edges.toList.map fun e => (e.site, e.callee)).Nodup
  reachable : s.calls.reachable.toList.Nodup

theorem Change.simple (change : Change setting s t) (simple : s.calls.Simple) : t.calls.Simple := by
  cases change with
  | call => exact CallGraph.simple_connect simple _
  | _ => exact simple

theorem Reached.distinct (wellFormed : setting.program.WellFormed) (run : Reached setting s) :
    s.Distinct := by
  have calls : s.calls.Simple := by
    refine run.invariant wellFormed ?_ (fun _ => Change.simple) ?_ (fun _ _ simple => simple)
    · obtain ⟨reachable, edges⟩ :=
        CallGraph.addEntry_parts (.empty : ContextCallGraph) ⟨ContextTable.emptyId, setting.entry⟩
      constructor
      · show List.Nodup (List.map _ (CallGraph.addEntry .empty _).edges.toList)
        rw [edges]
        exact List.nodup_nil
      · show (CallGraph.addEntry .empty _).reachable.toList.Nodup
        rw [reachable]
        exact List.nodup_nil
    · exact fun _ _ simple => CallGraph.simple_reach simple _
  exact ⟨(run.ordered wellFormed).simple, calls.edges, calls.reachable⟩

/-! ## Repeated work -/

/-- A piece of work whose outcome is there already. -/
inductive Redundant (s : State) : Pending → Prop
  | method {m : QualifiedMethod} (known : m ∈ s.calls.reachable) : Redundant s (.method m)
  | objects {id : NodeId} {set : ObjectSet} (filled : set.isEmpty = false)
      (known : ∀ o, o ∈ set → o ∈ s.network.points.points id) : Redundant s (.objects id set)

/-- Redundant work is taken out of the queue and counted, and that is all. -/
theorem step_of_redundant {item : Pending} {pending : Worklist Pending}
    (popped : s.network.pending.pop? = some (item, pending)) (redundant : s.Redundant item) :
    step setting s =
      some { s with network := { s.network with pending }, iterations := s.iterations + 1 } := by
  have oldest : s.network.pop? = some (item, { s.network with pending }) := by
    simp [Network.pop?, popped]
  cases redundant with
  | @method m known =>
      have isReachable : s.calls.isReachable m = true := CallGraph.isReachable_iff.mpr known
      rw [step_method oldest]
      simp [enter, CallGraph.reach, isReachable]
  | @objects id set filled known =>
      obtain ⟨same, nothing⟩ := Network.absorb_of_subset (n := { s.network with pending }) filled known
      rw [step_objects oldest, react_of_isEmpty nothing, takeObjects, same]

/-- In every state of a run a further step keeps all that there is at its place and records nothing twice,
and a step whose work was done before changes nothing but the queue and the count of steps. -/
theorem extends_of_reached (loaded : setting.program.Loaded) (run : Reached setting s) :
    (∀ next, step setting s = some next → s.Extends next ∧ next.Distinct) ∧
      ∀ item pending, s.network.pending.pop? = some (item, pending) → s.Redundant item →
        step setting s =
          some { s with network := { s.network with pending }, iterations := s.iterations + 1 } := by
  have wellFormed := loaded.wellFormed
  refine ⟨fun next taken => ?_, fun item pending => step_of_redundant⟩
  have consistent := run.consistent wellFormed
  have after := run.step taken
  exact ⟨(grows_of_step wellFormed consistent taken).extends consistent.nodes
    (after.consistent wellFormed).nodes, after.distinct wellFormed⟩

end State

/-- A method that calls itself and copies an object in a circle. -/
def Description.circle : Description where
  classes := [
    { name := "Main"
      methods := [
        { name := "main", isStatic := true, body := [
          .new "x" "Main", .copy "y" "x", .copy "x" "y",
          .invoke .static "Main" "main/0" none [] none] }] }]
  entry := ⟨"Main", "main/0"⟩

namespace State

/-- The state after some steps. -/
def circling (count : Nat) : State :=
  steps Description.circle.setting count (start Description.circle.setting)

/-- The method comes out of the queue again after two steps, and the object at its first variable after four;
the state after four steps extends the one after three. -/
theorem extends_of_reached_circle :
    (∀ next, step Description.circle.setting (circling 3) = some next →
      (circling 3).Extends next ∧ next.Distinct) ∧
    step Description.circle.setting (circling 2) = some { circling 2 with
      network := { (circling 2).network with pending := ⟨[], [.objects 1 (.singleton 0)]⟩ }
      iterations := (circling 2).iterations + 1 } ∧
    step Description.circle.setting (circling 4) = some { circling 4 with
      network := { (circling 4).network with pending := ⟨[], []⟩ }
      iterations := (circling 4).iterations + 1 } := by
  have loaded : Description.circle.program.Loaded := ⟨Description.circle, by decide +kernel⟩
  have reached (count : Nat) : Reached Description.circle.setting (circling count) :=
    Reached.start.steps count
  have method : (circling 2).network.pending.pop? =
      some (.method ⟨0, 0⟩, ⟨[], [.objects 1 (.singleton 0)]⟩) := by decide +kernel
  have objects : (circling 4).network.pending.pop? = some (.objects 0 (.singleton 0), ⟨[], []⟩) := by
    decide +kernel
  refine ⟨(extends_of_reached loaded (reached 3)).1, ?_, ?_⟩
  · exact (extends_of_reached loaded (reached 2)).2 _ _ method (.method (by decide +kernel))
  · refine (extends_of_reached loaded (reached 4)).2 _ _ objects (.objects rfl fun o member => ?_)
    rw [(ObjectSet.mem_singleton _ _).mp member]
    decide +kernel

end State

end PointsTo
