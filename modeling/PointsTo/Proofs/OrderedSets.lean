/- # OrderedSets -- sets list each element once, and networks each edge

A bit set lists its elements in ascending order, whatever its words are; a set that is kept as a list does
so as long as it came out of the set operations (`ObjectSet.Ordered`).  The sets of a network and those on
their way in it all did (`Network.Ordered`), so a list of new objects is no longer than there are objects.
As a new edge is compared with the old ones, a node has each other node once among its successors.

Main statements: `ascends_toList` for bit sets, `ordered_union` and `ordered_difference`, and for networks
`ordered_flow`, `ordered_seed` and `ordered_absorb`. -/
import Mathlib.Data.List.Nodup
import Mathlib.Data.List.Perm.Subperm
import PointsTo.Proofs.Delivery

set_option autoImplicit false

namespace PointsTo

/-! ## Bit sets -/

namespace BitSet

theorem ascends_wordBits (w : BitVec 64) : Ascends (wordBits w) ∧ ∀ i ∈ wordBits w, i < 64 := by
  unfold wordBits
  split
  · exact ⟨List.Pairwise.nil, fun i member => by cases member⟩
  · refine ⟨List.pairwise_lt_range.filter _, fun i member => ?_⟩
    exact List.mem_range.mp (List.mem_filter.mp member).1

theorem ascends_elementsBelow (s : BitSet) (count : Nat) {others : List Nat} (ordered : Ascends others)
    (above : ∀ e ∈ others, 64 * count ≤ e) : Ascends (s.elementsBelow count others) := by
  induction count generalizing others with
  | zero => exact ordered
  | succ count ih =>
      obtain ⟨bits, small⟩ := ascends_wordBits (s.word count)
      have first : Ascends ((wordBits (s.word count)).map (64 * count + ·)) :=
        List.Pairwise.map _ (fun i j less => Nat.add_lt_add_left less _) bits
      apply ih
      · refine List.pairwise_append.mpr ⟨first, ordered, fun e member other later => ?_⟩
        obtain ⟨i, inWord, rfl⟩ := List.mem_map.mp member
        have low := small i inWord
        have high := above other later
        omega
      · intro e member
        rcases List.mem_append.mp member with inWord | later
        · obtain ⟨i, -, rfl⟩ := List.mem_map.mp inWord
          omega
        · have high := above e later
          omega

theorem ascends_toList (s : BitSet) : Ascends s.toList :=
  ascends_elementsBelow s _ List.Pairwise.nil fun e member => by cases member

/-- A bit set without elements has only zero words. -/
theorem isEmpty_of_forall {s : BitSet} (nothing : ∀ e, s.contains e = false) : s.isEmpty = true := by
  rw [isEmpty, Array.all_eq_true]
  intro i inside
  rw [beq_iff_eq]
  refine BitVec.eq_of_getLsbD_eq fun j small => ?_
  have absent := nothing (64 * i + j)
  rw [contains, show (64 * i + j) / 64 = i by omega, show (64 * i + j) % 64 = j by omega, word,
    Array.getElem?_eq_getElem inside, Option.getD_some] at absent
  simpa using absent

end BitSet

/-! ## Sets of objects -/

namespace ObjectSet

/-- The elements are listed in strictly ascending order. -/
def Ordered (s : ObjectSet) : Prop := Ascends s.toList

/-- A set that is not empty has an element. -/
theorem exists_mem_of_isEmpty {s : ObjectSet} (something : s.isEmpty = false) : ∃ e, e ∈ s := by
  by_contra nothing
  rw [not_exists] at nothing
  have empty : s.isEmpty = true := by
    cases s with
    | sparse elements =>
        refine List.isEmpty_iff.mpr (List.eq_nil_iff_forall_not_mem.mpr fun e member => nothing e ?_)
        exact List.contains_iff_mem.mpr member
    | dense bits => exact BitSet.isEmpty_of_forall fun e => Bool.eq_false_iff.mpr (nothing e)
  rw [something] at empty
  cases empty

theorem ordered_dense (bits : BitSet) : (dense bits).Ordered := bits.ascends_toList

theorem ordered_empty : empty.Ordered := List.Pairwise.nil

theorem ordered_singleton (e : Nat) : (singleton e).Ordered := List.pairwise_singleton _ e

theorem ordered_ofAscending {elements : List Nat} (ordered : Ascends elements) :
    (ofAscending elements).Ordered := by
  unfold ofAscending
  split
  · exact ordered
  · exact ordered_dense _

theorem ordered_difference {s : ObjectSet} (ordered : s.Ordered) (t : ObjectSet) :
    (s.difference t).Ordered := by
  unfold difference
  split
  · simp only
    split
    · exact ordered_dense _
    · exact BitSet.ascends_toList _
  · exact ordered_ofAscending (ordered.filter _)

theorem ordered_union {s t : ObjectSet} (first : s.Ordered) (second : t.Ordered) :
    (s.union t).1.Ordered := by
  cases s with
  | dense left => cases t <;> exact ordered_dense _
  | sparse left =>
      cases t with
      | dense right => exact ordered_dense _
      | sparse right => exact ordered_ofAscending (pairwise_unionAscending first right)

/-- An ordered set of numbers below a bound has at most as many elements. -/
theorem length_toList_le {s : ObjectSet} (ordered : s.Ordered) {bound : Nat}
    (below : ∀ e, e ∈ s → e < bound) : s.toList.length ≤ bound := by
  have nodup : s.toList.Nodup := Ascends.nodup ordered
  have subset : s.toList ⊆ List.range bound :=
    fun e member => List.mem_range.mpr (below e ((mem_toList s e).mp member))
  simpa using (nodup.subperm subset).length_le

end ObjectSet

/-! ## Flow graphs -/

namespace FlowGraph

/-- No two edges have the same ends. -/
def Simple (g : FlowGraph) : Prop := (g.edges.toList.map fun e => (e.source, e.target)).Nodup

theorem simple_connect {g : FlowGraph} (simple : g.Simple) (e : FlowEdge) : (g.connect e).1.Simple := by
  unfold connect
  split
  · exact simple
  · rename_i fresh
    unfold Simple
    rw [Array.toList_push, List.map_append, List.map_singleton, ← List.concat_eq_append]
    refine List.Nodup.concat (fun member => fresh ?_) simple
    obtain ⟨old, edge, ends⟩ := List.mem_map.mp member
    rw [Prod.mk.injEq] at ends
    exact hasEdge_iff.mpr ⟨old, Array.mem_toList_iff.mp edge, ends⟩

/-- A node has at most as many successors as there are nodes. -/
theorem length_successors_le {g : FlowGraph} (simple : g.Simple) {bound : Nat}
    (below : ∀ e ∈ g.edges, e.target < bound) (id : NodeId) : (g.successors id).length ≤ bound := by
  have ends : (g.edges.toList.filter fun e => e.source = id).map (fun e => (e.source, e.target)) =
      (g.successors id).reverse.map (id, ·) := by
    rw [successors, List.reverse_reverse, List.map_map]
    refine List.map_congr_left fun e member => ?_
    have same := (List.mem_filter.mp member).2
    rw [decide_eq_true_eq] at same
    simp [same]
  have distinct : (g.successors id).Nodup := by
    have parts : ((g.edges.toList.filter fun e => e.source = id).map
        fun e => (e.source, e.target)).Nodup := simple.sublist (List.filter_sublist.map _)
    rw [ends] at parts
    exact List.nodup_reverse.mp (List.Nodup.of_map _ parts)
  have subset : g.successors id ⊆ List.range bound := by
    intro target member
    obtain ⟨e, edge, -, rfl⟩ := mem_successors.mp member
    exact List.mem_range.mpr (below e edge)
  simpa using (distinct.subperm subset).length_le

end FlowGraph

/-! ## Networks -/

namespace Network

/-- The sets of a network and those on their way in it are ordered, and no edge is there twice. -/
structure Ordered (n : Network) : Prop where
  points : ∀ id, (n.points.points id).Ordered
  pending : ∀ id set, .objects id set ∈ n.pending.toList → set.Ordered
  simple : n.graph.Simple

section Operations

variable {n : Network} (ordered : n.Ordered)
include ordered

theorem ordered_send (id : NodeId) {set : ObjectSet} (sent : set.Ordered) : (n.send id set).Ordered := by
  refine ⟨ordered.points, fun x other member => ?_, ordered.simple⟩
  rw [send, Worklist.toList_push, List.mem_append, List.mem_singleton, Pending.objects.injEq] at member
  rcases member with old | ⟨rfl, rfl⟩
  · exact ordered.pending x other old
  · exact sent

theorem ordered_announce (m : QualifiedMethod) : (n.announce m).Ordered := by
  refine ⟨ordered.points, fun x other member => ?_, ordered.simple⟩
  rw [announce, Worklist.toList_push, List.mem_append, List.mem_singleton] at member
  rcases member with old | same
  · exact ordered.pending x other old
  · cases same

theorem ordered_node (p : Pointer) : (n.node p).1.Ordered :=
  ⟨ordered.points, ordered.pending, ordered.simple⟩

theorem ordered_connect (e : FlowEdge) : (n.connect e).1.Ordered := by
  unfold connect
  cases isNew : (n.graph.connect e).2 with
  | false => simpa [isNew] using ordered
  | true =>
      have larger : Ordered { n with graph := (n.graph.connect e).1 } :=
        ⟨ordered.points, ordered.pending, FlowGraph.simple_connect ordered.simple e⟩
      simp only [isNew, Bool.not_true, Bool.false_eq_true, if_false]
      split
      · exact larger
      · exact ordered_send larger e.target (ordered.points e.source)

theorem ordered_flow (p q : Pointer) (kind : FlowKind) : (n.flow p q kind).Ordered :=
  ordered_connect (ordered_node (ordered_node ordered p) q) _

theorem ordered_seed (p : Pointer) (o : QualifiedObjectId) : (n.seed p o).Ordered :=
  ordered_send (ordered_node ordered p) _ (ObjectSet.ordered_singleton o)

theorem ordered_of_pop {item : Pending} {rest : Network} (taken : n.pop? = some (item, rest)) :
    rest.Ordered := by
  obtain ⟨whole, graph, points⟩ := toList_of_pop? taken
  refine ⟨fun id => points ▸ ordered.points id, fun id set member => ordered.pending id set ?_,
    graph ▸ ordered.simple⟩
  rw [whole]
  exact List.mem_cons_of_mem _ member

theorem ordered_sendAll (targets : List NodeId) {set : ObjectSet} (sent : set.Ordered) :
    (targets.foldl (fun n target => n.send target set) n).Ordered := by
  induction targets generalizing n with
  | nil => exact ordered
  | cons target rest ih => exact ih (ordered_send ordered target sent)

/-- Absorbing an ordered set keeps the order, and what was new is ordered. -/
theorem ordered_absorb (id : NodeId) {set : ObjectSet} (absorbed : set.Ordered) :
    (n.absorb id set).1.Ordered ∧ (n.absorb id set).2.Ordered := by
  have delta : (n.points.absorb id set).2.Ordered := by
    unfold PointsMap.absorb
    simp only
    split <;> exact ObjectSet.ordered_difference absorbed _
  have points : ∀ x, ((n.points.absorb id set).1.points x).Ordered := by
    intro x
    unfold PointsMap.absorb
    simp only
    split
    · exact ordered.points x
    · rw [PointsMap.points, PointsMap.get?_insert]
      split
      · exact ObjectSet.ordered_union (ordered.points id) (ObjectSet.ordered_difference absorbed _)
      · exact ordered.points x
  have taken : Ordered { n with points := (n.points.absorb id set).1 } :=
    ⟨points, ordered.pending, ordered.simple⟩
  unfold absorb
  simp only
  split
  · exact ⟨taken, delta⟩
  · exact ⟨ordered_sendAll taken _ delta, delta⟩

end Operations

theorem ordered_empty : empty.Ordered :=
  ⟨fun id => by simp [empty, PointsMap.points, PointsMap.get?, ObjectSet.ordered_empty],
    fun _ _ member => (List.not_mem_nil member).elim, List.nodup_nil⟩

end Network

end PointsTo
