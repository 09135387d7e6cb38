/- # Rows -- members that are numbered owner by owner

The loader numbers the members of its classes, and the variables and allocations of its methods, in one row
each, owner by owner.  `blocks` has the numbers that each owner gets and `memberRows` the members themselves.
Under its own numbers an owner finds its own members (`exists_block`), and all numbers of the row are given
out once (`flatten_blocks_memberRows`). -/
import Mathlib.Data.List.Forall2
import PointsTo.Loading.Blocks

set_option autoImplicit false

namespace PointsTo

/-- An element of the second of two related lists has one beside it in the first. -/
theorem rel_getElem? {α β : Type} {R : α → β → Prop} {xs : List α} {ys : List β}
    (related : List.Forall₂ R xs ys) {i : Nat} {y : β} (here : ys[i]? = some y) :
    ∃ x, xs[i]? = some x ∧ R x y := by
  induction related generalizing i with
  | nil => cases here
  | cons first _ ih =>
      cases i with
      | zero =>
          cases here
          exact ⟨_, rfl, first⟩
      | succ i => exact ih here

section Blocks

variable {α : Type}

/-- A block of numbers reads the row that it was cut for. -/
theorem map_getElem?_blocks {rows : List (List α)} (before : List α) {i : Nat} {row : List α}
    (here : rows[i]? = some row) :
    ∃ ids, (blocks before.length (rows.map List.length))[i]? = some ids ∧
      ids.map ((before ++ rows.flatten)[·]?) = row.map some := by
  induction rows generalizing before i with
  | nil => cases here
  | cons first rest ih =>
      cases i with
      | zero =>
          cases here
          refine ⟨_, rfl, List.ext_getElem? fun k => ?_⟩
          rw [List.getElem?_map, List.getElem?_map]
          by_cases bound : k < row.length
          · rw [List.getElem?_range' bound, Option.map_some, Nat.one_mul, List.flatten_cons,
              List.getElem?_append_right (Nat.le_add_right _ _), Nat.add_sub_cancel_left,
              List.getElem?_append_left bound, List.getElem?_eq_getElem bound]
            rfl
          · have beyond : row.length ≤ k := Nat.le_of_not_lt bound
            simp [beyond]
      | succ i =>
          obtain ⟨ids, block, reads⟩ := ih (before ++ first) here
          rw [List.length_append] at block
          refine ⟨ids, block, ?_⟩
          rw [List.flatten_cons, ← List.append_assoc]
          exact reads

/-- The blocks number the rows without a gap. -/
theorem flatten_blocks_lengths (rows : List (List α)) :
    (blocks 0 (rows.map List.length)).flatten = List.range rows.flatten.length := by
  have sum : total (rows.map List.length) = rows.flatten.length := by
    induction rows with
    | nil => rfl
    | cons row rest ih => simp [total, ih]
  rw [flatten_blocks, sum, List.range_eq_range']

end Blocks

section Members

variable {γ α β : Type} (members : γ → List α) (declare : α → Nat → β)

/-- The members of owners with consecutive numbers, each with its owner. -/
def memberRowsFrom (start : Nat) (owners : List γ) : List (List β) :=
  (owners.zipIdx start).map fun (c, owner) => (members c).map fun a => declare a owner

/-- The members of owners, each with its owner. -/
def memberRows (owners : List γ) : List (List β) := memberRowsFrom members declare 0 owners

theorem memberRowsFrom_cons (start : Nat) (c : γ) (rest : List γ) :
    memberRowsFrom members declare start (c :: rest) =
      ((members c).map fun a => declare a start) :: memberRowsFrom members declare (start + 1) rest := rfl

theorem lengths_memberRowsFrom (start : Nat) (owners : List γ) :
    (memberRowsFrom members declare start owners).map List.length =
      owners.map fun c => (members c).length := by
  induction owners generalizing start with
  | nil => rfl
  | cons c rest ih => rw [memberRowsFrom_cons, List.map_cons, List.map_cons, ih, List.length_map]

/-- The row has the members of all owners in their order. -/
theorem forall₂_memberRowsFrom (start : Nat) (owners : List γ) :
    List.Forall₂ (fun a b => ∃ owner, b = declare a owner) (owners.flatMap members)
      (memberRowsFrom members declare start owners).flatten := by
  induction owners generalizing start with
  | nil => exact .nil
  | cons c rest ih =>
      rw [memberRowsFrom_cons, List.flatMap_cons, List.flatten_cons]
      refine List.rel_append ?_ (ih (start + 1))
      rw [List.forall₂_map_right_iff, List.forall₂_same]
      exact fun a _ => ⟨start, rfl⟩

/-- An owner finds its members under the numbers of its block. -/
theorem exists_block {owners : List γ} {id : Nat} {c : γ} (here : owners[id]? = some c) :
    ∃ ids, (blocks 0 (owners.map fun c => (members c).length))[id]? = some ids ∧
      ids.map ((memberRows members declare owners).flatten[·]?) =
        (members c).map fun a => some (declare a id) := by
  have row : (memberRows members declare owners)[id]? = some ((members c).map fun a => declare a id) := by
    simp [memberRows, memberRowsFrom, here]
  obtain ⟨ids, block, reads⟩ := map_getElem?_blocks [] row
  rw [memberRows, lengths_memberRowsFrom, List.length_nil] at block
  rw [List.nil_append, List.map_map] at reads
  exact ⟨ids, block, reads⟩

variable {members declare} in
theorem flatten_blocks_memberRows (owners : List γ) :
    (blocks 0 (owners.map fun c => (members c).length)).flatten =
      List.range (memberRows members declare owners).flatten.length := by
  rw [← flatten_blocks_lengths, memberRows, lengths_memberRowsFrom]

end Members

section Owners

variable {α : Type} {owners : Array α} {members : α → List Nat} {count : Nat}
  (all : owners.toList.flatMap members = List.range count)
include all

/-- Every number of a row belongs to an owner. -/
theorem exists_owner {i : Nat} (bound : i < count) :
    ∃ (id : Nat) (owner : α), owners[id]? = some owner ∧ i ∈ members owner := by
  have inRow : i ∈ owners.toList.flatMap members := all ▸ List.mem_range.mpr bound
  obtain ⟨owner, listed, member⟩ := List.mem_flatMap.mp inRow
  obtain ⟨id, here⟩ := Array.getElem?_of_mem (Array.mem_toList_iff.mp listed)
  exact ⟨id, owner, here, member⟩

/-- An owner has numbers of the row only. -/
theorem lt_of_owner {id i : Nat} {owner : α} (here : owners[id]? = some owner) (member : i ∈ members owner) :
    i < count := by
  have inRow : i ∈ owners.toList.flatMap members :=
    List.mem_flatMap.mpr ⟨owner, Array.mem_toList_iff.mpr (Array.mem_of_getElem? here), member⟩
  exact List.mem_range.mp (all ▸ inRow)

end Owners

end PointsTo
