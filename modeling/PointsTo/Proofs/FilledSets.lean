/- # FilledSets -- the statistics of an outcome count its filled sets

The statistics go once through the sets of all nodes and leave out the empty ones.  A variable that has only
empty sets is left out with them, and this changes no count (`SetStatistics.ofSizes` drops the size zero).

Main statement: `Result.statistics_of_filled`. -/
import PointsTo.Proofs.FiniteSets
import PointsTo.Proofs.Lowering
import PointsTo.Proofs.Sizes
import PointsTo.Report.Statistics

set_option autoImplicit false

namespace PointsTo

namespace SetStatistics

/-- What is left out as empty does not count. -/
theorem ofSizes_filter {α : Type} (xs : List α) (keep : α → Bool) (size : α → Nat)
    (empty : ∀ x ∈ xs, keep x = false → size x = 0) :
    ofSizes ((xs.filter keep).map size) = ofSizes (xs.map size) := by
  have same : ((xs.filter keep).map size).filter (· ≠ 0) = (xs.map size).filter (· ≠ 0) := by
    rw [List.filter_map, List.filter_map, List.filter_filter]
    congr 1
    refine List.filter_congr fun x member => ?_
    cases kept : keep x with
    | false => simp [empty x member kept]
    | true => simp
  simp only [ofSizes, same]

/-- Lists without repetitions count the same when they have the same members that are not empty. -/
theorem ofSizes_congr {α : Type} {xs ys : List α} (size : α → Nat) (first : xs.Nodup) (second : ys.Nodup)
    (same : ∀ x, size x ≠ 0 → (x ∈ xs ↔ x ∈ ys)) : ofSizes (xs.map size) = ofSizes (ys.map size) := by
  have shuffled : (xs.filter fun x => size x ≠ 0).Perm (ys.filter fun x => size x ≠ 0) := by
    refine (List.perm_ext_iff_of_nodup (first.filter _) (second.filter _)).mpr fun x => ?_
    simp only [List.mem_filter, decide_eq_true_eq]
    exact and_congr_left (same x)
  have sizes := shuffled.map size
  have reads (zs : List α) :
      (zs.map size).filter (· ≠ 0) = (zs.filter fun x => size x ≠ 0).map size := List.filter_map ..
  simp only [ofSizes, reads, sizes.length_eq, total_eq_sum, sizes.sum_eq]

end SetStatistics

namespace Result

variable (r : Result)

/-- The variable of a node with its set. -/
def variableSet? (entry : NodeId × ObjectSet) : Option (VarId × ObjectSet) :=
  match r.state.network.graph.pointer? entry.1 with
  | some (.var _ v) => some (v, entry.2)
  | _ => none

/-- The sets of variables that are not empty. -/
def filledSets : List (VarId × ObjectSet) := r.variableSets.filter fun entry => !entry.2.isEmpty

theorem snd_of_variableSet? {entry : NodeId × ObjectSet} {e : VarId × ObjectSet}
    (read : r.variableSet? entry = some e) : e.2 = entry.2 := by
  unfold variableSet? at read
  split at read
  · cases read
    rfl
  · cases read

theorem filterMap_variableSet? (entries : List (NodeId × ObjectSet)) :
    (entries.filter fun entry => !entry.2.isEmpty).filterMap r.variableSet? =
      (entries.filterMap r.variableSet?).filter fun entry => !entry.2.isEmpty := by
  rw [List.filter_filterMap, List.filterMap_filter]
  refine List.filterMap_congr fun entry _ => ?_
  cases read : r.variableSet? entry with
  | none => simp
  | some e => simp [Option.filter, r.snd_of_variableSet? read]

theorem underlying_of_isEmpty {set : ObjectSet} (empty : set.isEmpty = true) : r.underlying set = [] := by
  rw [underlying, ObjectSet.toList_of_isEmpty empty, List.filterMap_nil]

theorem objectsAmong_filledSets (v : VarId) :
    r.objectsAmong r.filledSets v = r.objectsAmong r.variableSets v := by
  unfold objectsAmong filledSets
  congr 1
  induction r.variableSets with
  | nil => rfl
  | cons entry rest ih =>
      cases empty : entry.2.isEmpty with
      | true => simp [empty, ih, r.underlying_of_isEmpty empty]
      | false => simp [empty, ih]

theorem exists_filledSet {v : VarId} (something : (r.objectsAmong r.variableSets v).length ≠ 0) :
    ∃ set, (v, set) ∈ r.filledSets := by
  obtain ⟨o, inObjects⟩ := List.exists_mem_of_length_pos (Nat.pos_of_ne_zero something)
  rw [← objectsAmong_filledSets] at inObjects
  obtain ⟨⟨w, set⟩, filled, inSet⟩ := List.mem_flatMap.mp ((mem_ascending _ _).mp inObjects)
  rcases eq_or_ne w v with rfl | other
  · exact ⟨set, filled⟩
  · simp [other] at inSet

/-- Variables without objects do not count. -/
theorem mergedSets_filledSets :
    .ofSizes ((r.filledSets.map fun entry => entry.1).eraseDups.map fun v =>
      (r.objectsAmong r.filledSets v).length) = r.statistics.mergedSets := by
  simp only [objectsAmong_filledSets]
  refine SetStatistics.ofSizes_congr _ (nodup_eraseDups _) (nodup_eraseDups _) fun v something => ?_
  obtain ⟨set, filled⟩ := r.exists_filledSet something
  have met := (List.mem_filter.mp filled).1
  simp only [List.mem_eraseDups, List.mem_map]
  exact ⟨fun _ => ⟨_, met, rfl⟩, fun _ => ⟨_, filled, rfl⟩⟩

/-- Empty sets do not count. -/
theorem statistics_of_filled :
    { r.statistics with
      allSets := .ofSizes ((r.state.network.points.toList.filter fun entry => !entry.2.isEmpty).map
        fun entry => entry.2.count)
      variableSets := .ofSizes (r.filledSets.map fun entry => entry.2.count)
      mergedSets := .ofSizes ((r.filledSets.map fun entry => entry.1).eraseDups.map fun v =>
        (r.objectsAmong r.filledSets v).length) } = r.statistics := by
  have all : .ofSizes ((r.state.network.points.toList.filter fun entry => !entry.2.isEmpty).map
      fun entry => entry.2.count) = r.statistics.allSets :=
    SetStatistics.ofSizes_filter _ _ _ fun _ _ empty => ObjectSet.count_of_isEmpty (by simpa using empty)
  have ofVariables : .ofSizes (r.filledSets.map fun entry => entry.2.count) = r.statistics.variableSets :=
    SetStatistics.ofSizes_filter _ _ _ fun _ _ empty => ObjectSet.count_of_isEmpty (by simpa using empty)
  rw [all, ofVariables, mergedSets_filledSets]

end Result

end PointsTo
