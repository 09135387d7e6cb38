/- # SetCounts -- the statistics of an outcome agree with its answers

The statistics go through the sets as they are stored, by node; the answers go through variables and contexts.  Both
count the same sets: a node stands for one pointer, so an entry of a variable is the set of one variable in one
context (`nodup_storedPointers`), and every variable that has objects is a local of one method, which is reachable
(`Reached.timely`).  What the other variables and contexts add is empty, and so does not count
(`SetStatistics.ofSizes_congr`).

Main statement: `statistics_of_reached`. -/
import PointsTo.Proofs.CallCounts
import PointsTo.Proofs.Coherence
import PointsTo.Proofs.FilledSets
import PointsTo.Proofs.Precedence
import PointsTo.Proofs.Projection
import PointsTo.Report.Summary

set_option autoImplicit false

namespace PointsTo

theorem total_map_flatMap {α β : Type} (xs : List α) (parts : α → List β) (size : β → Nat) :
    total ((xs.flatMap parts).map size) = total (xs.map fun x => total ((parts x).map size)) := by
  induction xs with
  | nil => rfl
  | cons x rest ih => rw [List.flatMap_cons, List.map_append, total_append, ih, List.map_cons, total]

namespace SetStatistics

theorem relations_ofSizes (sizes : List Nat) : (ofSizes sizes).relations = total sizes := by
  have kept : total ((sizes.filter fun n => n ≠ 0).map id) = total (sizes.map id) :=
    total_filter _ _ fun n _ zero => by simpa using zero
  simpa [ofSizes] using kept

theorem pointers_ofSizes {α : Type} (xs : List α) (size : α → Nat) :
    (ofSizes (xs.map size)).pointers = (xs.filter fun x => size x ≠ 0).length := by
  rw [ofSizes, List.filter_map, List.length_map]
  rfl

end SetStatistics

namespace Result

variable {r : Result}

/-! ## What is counted -/

/-- The size of the set of a variable in a context, zero when it has none. -/
def sizeIn (r : Result) (c : ContextId) (v : VarId) : Nat := ((r.pointsToIn? c v).map (·.count)).getD 0

/-- The variables with the contexts in which they were met. -/
def metVariables (r : Result) : List (ContextId × VarId) :=
  (List.range r.setting.program.vars.size).flatMap fun v => (r.contextsOf v).map fun c => (c, v)

/-- The variable and the context of a node, with its set. -/
def storedSet? (r : Result) (entry : NodeId × ObjectSet) : Option ((ContextId × VarId) × ObjectSet) :=
  match r.state.network.graph.pointer? entry.1 with
  | some (.var c v) => some ((c, v), entry.2)
  | _ => none

/-- The sets of variables in contexts as they are stored, by node. -/
def storedSets (r : Result) : List ((ContextId × VarId) × ObjectSet) :=
  r.state.network.points.toList.filterMap r.storedSet?

/-- The statistics are sums over the answers. -/
structure CountsAnswers (r : Result) : Prop where
  /-- No method has a variable of another, and none has one twice, so each is counted once. -/
  locals : r.reachableLocals.Nodup
  mergedRelations : r.statistics.mergedSets.relations =
    total (r.reachableLocals.map fun v => (r.pointsTo v).length)
  mergedPointers : r.statistics.mergedSets.pointers = (r.reachableLocals.filter fun v => r.pointsTo v ≠ []).length
  variableRelations : r.statistics.variableSets.relations =
    total ((List.range r.setting.program.vars.size).map fun v => total ((r.contextsOf v).map fun c => r.sizeIn c v))
  allRelations : r.statistics.allSets.relations = r.state.network.points.relations
  reachableMethods : r.statistics.calls.reachableMethods = r.reachableMethods.length
  callEdges : r.statistics.calls.callEdges = r.plainCalls.edges.size

/-! ## Variables in contexts -/

theorem mem_contextsOf {v : VarId} {c : ContextId} :
    c ∈ r.contextsOf v ↔ ∃ id, r.state.network.graph.pointer? id = some (.var c v) := by
  rw [contextsOf, mem_ascending, List.mem_filterMap]
  constructor
  · rintro ⟨⟨p, id⟩, node, read⟩
    cases p with
    | var d w =>
        obtain ⟨rfl, same⟩ := Option.ite_none_right_eq_some.mp read
        cases same
        exact ⟨id, mem_nodes_iff.mp node⟩
    | _ => cases read
  · rintro ⟨id, pointer⟩
    exact ⟨(.var c v, id), mem_nodes_iff.mpr pointer, by simp⟩

theorem storedSet?_eq_some_iff {entry : NodeId × ObjectSet} {stored : (ContextId × VarId) × ObjectSet} :
    r.storedSet? entry = some stored ↔
      r.state.network.graph.pointer? entry.1 = some (.var stored.1.1 stored.1.2) ∧ entry.2 = stored.2 := by
  obtain ⟨⟨c, v⟩, set⟩ := stored
  unfold storedSet?
  split
  · rename_i d w pointer
    simp [pointer, and_assoc]
  · rename_i other
    simpa using fun pointer => (other c v pointer).elim

theorem variableSets_eq : r.variableSets = r.storedSets.map fun entry => (entry.1.2, entry.2) := by
  rw [variableSets, storedSets, List.map_filterMap]
  refine List.filterMap_congr fun (id, set) _ => ?_
  simp only [storedSet?]
  cases r.state.network.graph.pointer? id with
  | none => rfl
  | some p => cases p <;> rfl

section Valid

variable (valid : r.state.Valid r.setting)
include valid

/-- The set that is stored for a variable in a context is the one that is asked for. -/
theorem mem_storedSets {c : ContextId} {v : VarId} {set : ObjectSet} :
    ((c, v), set) ∈ r.storedSets ↔ r.pointsToIn? c v = some set := by
  have numbered : ∀ id, r.state.network.graph.node? (.var c v) = some id ↔
      r.state.network.graph.pointer? id = some (.var c v) := fun id => Table.number?_eq_some_iff valid.nodes
  rw [storedSets, List.mem_filterMap]
  constructor
  · rintro ⟨⟨id, stored⟩, entry, read⟩
    obtain ⟨pointer, rfl⟩ := storedSet?_eq_some_iff.mp read
    have found := Std.TreeMap.mem_toList_iff_getElem?_eq_some.mp entry
    simp [pointsToIn?, (numbered id).mpr pointer, PointsMap.get?, found]
  · intro found
    obtain ⟨id, node, stored⟩ := Option.bind_eq_some_iff.mp found
    exact ⟨(id, set), Std.TreeMap.mem_toList_iff_getElem?_eq_some.mpr stored,
      storedSet?_eq_some_iff.mpr ⟨(numbered id).mp node, rfl⟩⟩

/-- No variable has two sets in one context, since no pointer has two nodes. -/
theorem nodup_storedSets : (r.storedSets.map (·.1)).Nodup := by
  have distinct : r.state.network.points.toList.Pairwise fun a b => a.1 ≠ b.1 :=
    Std.TreeMap.distinct_keys_toList.imp fun differ same => by simp [same] at differ
  rw [List.Nodup, List.pairwise_map]
  refine List.Pairwise.filterMap _ (fun a b differ x fromA y fromB same => differ ?_) distinct
  have pointer := (storedSet?_eq_some_iff.mp fromA).1
  rw [same] at pointer
  exact Table.key?_injective valid.nodes pointer (storedSet?_eq_some_iff.mp fromB).1

theorem sizeIn_of_mem_storedSets {entry : (ContextId × VarId) × ObjectSet} (stored : entry ∈ r.storedSets) :
    r.sizeIn entry.1.1 entry.1.2 = entry.2.count := by
  rw [sizeIn, (mem_storedSets valid).mp stored]
  rfl

/-- The objects that the statistics collect for a variable are its merged set. -/
theorem objectsAmong_variableSets (v : VarId) : r.objectsAmong r.variableSets v = r.pointsTo v := by
  refine Ascends.eq_of_mem_iff (pairwise_ascending _) (pairwise_ascending _) fun o => ?_
  rw [mem_pointsTo valid, objectsAmong, mem_ascending, List.mem_flatMap, variableSets_eq]
  constructor
  · rintro ⟨⟨w, set⟩, entry, member⟩
    obtain ⟨⟨⟨c, w⟩, set⟩, stored, same⟩ := List.mem_map.mp entry
    cases same
    rcases eq_or_ne w v with rfl | other
    · simp only [if_true, underlying, List.mem_filterMap, ObjectSet.mem_toList] at member
      obtain ⟨q, inSet, without⟩ := member
      exact ⟨c, q, ⟨set, (mem_storedSets valid).mp stored, inSet⟩, without⟩
    · simp [other] at member
  · rintro ⟨c, q, ⟨set, found, inSet⟩, without⟩
    refine ⟨(v, set), List.mem_map.mpr ⟨((c, v), set), (mem_storedSets valid).mpr found, rfl⟩, ?_⟩
    simp only [if_true, underlying, List.mem_filterMap, ObjectSet.mem_toList]
    exact ⟨q, inSet, without⟩

end Valid

/-! ## Variables that are counted -/

theorem nodup_metVariables : r.metVariables.Nodup := by
  refine List.nodup_flatMap.mpr ⟨fun v _ => ?_, List.nodup_range.imp fun differ => ?_⟩
  · have distinct : (r.contextsOf v).Nodup := (pairwise_ascending _).nodup
    exact distinct.map fun c d same => (Prod.mk.inj same).1
  · refine List.disjoint_left.mpr fun (c, v) first second => differ ?_
    obtain ⟨d, -, here⟩ := List.mem_map.mp first
    obtain ⟨d', -, there⟩ := List.mem_map.mp second
    exact (Prod.mk.inj here).2.trans (Prod.mk.inj there).2.symm

theorem mem_reachableMethods {m : MethodId} :
    m ∈ r.reachableMethods ↔ ∃ c, ⟨c, m⟩ ∈ r.state.calls.reachable := by
  rw [reachableMethods, PlainCallGraph.reachableMethods, mem_ascending, Array.mem_toList_iff,
    ← CallGraph.isReachable_iff]
  exact isReachable_iff

/-- The reachable methods are counted once each. -/
theorem length_reachableMethods : r.reachableMethods.length = r.plainCalls.reachable.size := by
  have distinct : r.plainCalls.reachable.toList.Nodup := (CallGraph.simple_rename _ _ _).reachable
  have shuffled : r.reachableMethods.Perm r.plainCalls.reachable.toList := perm_ascending distinct
  rw [shuffled.length_eq, Array.length_toList]

theorem mem_reachableLocals (loaded : r.setting.program.Loaded) {v : VarId} : v ∈ r.reachableLocals ↔
    ∃ c m, r.setting.program.Owns m v ∧ ⟨c, m⟩ ∈ r.state.calls.reachable := by
  simp only [reachableLocals, List.mem_flatMap, mem_reachableMethods, loaded.mem_localsOf_iff]
  exact ⟨fun ⟨m, ⟨c, reached⟩, owned⟩ => ⟨c, m, owned, reached⟩,
    fun ⟨c, m, owned, reached⟩ => ⟨m, ⟨c, reached⟩, owned⟩⟩

/-- A variable is a local of one method, once. -/
theorem nodup_reachableLocals (loaded : r.setting.program.Loaded) : r.reachableLocals.Nodup := by
  have distinct : r.reachableMethods.Nodup := (pairwise_ascending _).nodup
  refine List.nodup_flatMap.mpr ⟨fun m _ => (loaded.ascends_localsOf m).nodup,
    distinct.imp fun differ => List.disjoint_left.mpr fun v first second => differ ?_⟩
  rw [← (loaded.mem_localsOf_iff.mp first).methodOfVar, (loaded.mem_localsOf_iff.mp second).methodOfVar]

/-! ## The counts of a run -/

section Reached

variable {setting : Setting} {s : State}

/-- A variable that has a set in a context was met in it, and is in use. -/
theorem mem_metVariables_of_pointsToIn? (consistent : s.Consistent setting) {c : ContextId} {v : VarId}
    {set : ObjectSet} (found : pointsToIn? ⟨setting, s⟩ c v = some set) :
    (c, v) ∈ metVariables ⟨setting, s⟩ := by
  obtain ⟨id, node, -⟩ := Option.bind_eq_some_iff.mp found
  have pointer := (Table.number?_eq_some_iff consistent.nodes).mp node
  obtain ⟨m, owned, -⟩ := consistent.rooted (Table.mem_of_key? pointer)
  obtain ⟨var, read, -⟩ := Option.map_eq_some_iff.mp owned
  exact List.mem_flatMap.mpr ⟨v, List.mem_range.mpr (Array.getElem?_eq_some_iff.mp read).1,
    List.mem_map.mpr ⟨c, mem_contextsOf.mpr ⟨id, pointer⟩, rfl⟩⟩

theorem variableSets_statistics (consistent : s.Consistent setting) :
    (⟨setting, s⟩ : Result).statistics.variableSets =
      .ofSizes ((metVariables ⟨setting, s⟩).map fun (c, v) => sizeIn ⟨setting, s⟩ c v) := by
  let r : Result := ⟨setting, s⟩
  have valid : r.state.Valid r.setting := consistent.toValid
  have sizes : r.variableSets.map (fun entry => entry.2.count) =
      (r.storedSets.map (·.1)).map fun (c, v) => r.sizeIn c v := by
    rw [variableSets_eq, List.map_map, List.map_map]
    exact List.map_congr_left fun entry stored => (sizeIn_of_mem_storedSets valid stored).symm
  show SetStatistics.ofSizes (r.variableSets.map fun entry => entry.2.count) = _
  rw [sizes]
  refine SetStatistics.ofSizes_congr _ (nodup_storedSets valid) nodup_metVariables fun (c, v) something => ?_
  cases found : r.pointsToIn? c v with
  | none => simp [sizeIn, found] at something
  | some set =>
      exact iff_of_true (List.mem_map.mpr ⟨((c, v), set), (mem_storedSets valid).mpr found, rfl⟩)
        (mem_metVariables_of_pointsToIn? consistent found)

/-- A variable that has objects is a local of a reachable method. -/
theorem mem_reachableLocals_of_pointsTo (loaded : setting.program.Loaded) (run : State.Reached setting s)
    {v : VarId} {o : ObjectId} (member : o ∈ pointsTo ⟨setting, s⟩ v) : v ∈ reachableLocals ⟨setting, s⟩ := by
  have consistent := run.consistent loaded.wellFormed
  obtain ⟨c, q, held, -⟩ := (mem_pointsTo consistent.toValid).mp member
  have inSet := hasIn_iff.mp held
  obtain ⟨id, pointer, -⟩ := (State.mem_points_iff consistent.nodes).mp inSet
  obtain ⟨m, owned, -⟩ := consistent.rooted (Table.mem_of_key? pointer)
  have something : (s.points (.var c v)).isEmpty = false :=
    Bool.eq_false_iff.mpr fun nothing => ObjectSet.not_mem_of_isEmpty nothing q inSet
  have reached := (run.timely loaded.wellFormed).held something
  rw [owned.methodOfVar] at reached
  exact (mem_reachableLocals loaded).mpr ⟨c, m, owned, reached⟩

theorem mergedSets_statistics (loaded : setting.program.Loaded) (run : State.Reached setting s) :
    (⟨setting, s⟩ : Result).statistics.mergedSets =
      .ofSizes ((reachableLocals ⟨setting, s⟩).map fun v => (pointsTo ⟨setting, s⟩ v).length) := by
  let r : Result := ⟨setting, s⟩
  have valid : r.state.Valid r.setting := (run.consistent loaded.wellFormed).toValid
  show SetStatistics.ofSizes ((r.variableSets.map fun entry => entry.1).eraseDups.map fun v =>
    (r.objectsAmong r.variableSets v).length) = _
  simp only [objectsAmong_variableSets valid]
  refine SetStatistics.ofSizes_congr _ (nodup_eraseDups _) (nodup_reachableLocals loaded) fun v something => ?_
  obtain ⟨set, filled⟩ := r.exists_filledSet (v := v) (by rwa [objectsAmong_variableSets valid])
  obtain ⟨o, member⟩ := List.exists_mem_of_length_pos (Nat.pos_of_ne_zero something)
  exact iff_of_true (List.mem_eraseDups.mpr (List.mem_map.mpr ⟨_, (List.mem_filter.mp filled).1, rfl⟩))
    (mem_reachableLocals_of_pointsTo loaded run member)

/-- In every state of a run, and so at its end, the statistics are sums over the answers. -/
theorem statistics_of_reached (loaded : setting.program.Loaded) (run : State.Reached setting s) :
    (⟨setting, s⟩ : Result).CountsAnswers := by
  have ofMerged := mergedSets_statistics loaded run
  have calls := CallGraph.counts (·.site) (·.method) s.calls
  constructor
  case locals => exact nodup_reachableLocals loaded
  case mergedRelations => rw [ofMerged, SetStatistics.relations_ofSizes]
  case mergedPointers =>
    rw [ofMerged, SetStatistics.pointers_ofSizes]
    simp only [ne_eq, List.length_eq_zero_iff]
  case variableRelations =>
    rw [variableSets_statistics (run.consistent loaded.wellFormed), SetStatistics.relations_ofSizes, metVariables,
      total_map_flatMap]
    simp only [List.map_map, Function.comp_def]
  case allRelations => exact SetStatistics.relations_ofSizes _
  case reachableMethods =>
    rw [length_reachableMethods]
    exact (congrArg CallStatistics.reachableMethods calls.same).trans calls.reachableMethods
  case callEdges => exact (congrArg CallStatistics.callEdges calls.same).trans calls.callEdges

open State (nested) in
/-- Nodes in nodes: three variables have four objects, and in the contexts of their methods seven. -/
theorem statistics_of_reached_nest :
    nested.analyse.CountsAnswers ∧
    nested.analyse.statistics.mergedSets = ⟨3, 4⟩ ∧
    nested.analyse.reachableLocals.map nested.analyse.pointsTo = [[0], [0, 1], [1]] ∧
    nested.analyse.statistics.variableSets = ⟨7, 7⟩ ∧
    (List.range 3).map nested.analyse.contextsOf = [[0], [1, 2, 4], [1, 2, 4]] := by
  have loaded : nested.program.Loaded := ⟨Description.nest, by decide +kernel⟩
  exact ⟨statistics_of_reached loaded (State.reached_run loaded.wellFormed).1, by decide +kernel, by decide +kernel,
    by decide +kernel, by decide +kernel⟩

end Reached

end Result

end PointsTo
