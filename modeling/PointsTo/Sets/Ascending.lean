/- # Ascending -- strictly ascending lists of naturals

Insertion, union and the ascending listing of any list.  Main statements: the operations keep the order
(`pairwise_insertAscending`, `pairwise_unionAscending`, `pairwise_ascending`) and have the members one
expects (`mem_insertAscending`, `mem_unionAscending`, `mem_ascending`), and the members determine the list
(`Ascends.eq_of_mem_iff`). -/
set_option autoImplicit false

namespace PointsTo

/-- A list in strictly ascending order. -/
abbrev Ascends (xs : List Nat) : Prop := xs.Pairwise (· < ·)

/-- Puts an element in its place, unless it is there. -/
def insertAscending (e : Nat) : List Nat → List Nat
  | [] => [e]
  | x :: rest =>
    if e < x then e :: x :: rest
    else if e = x then x :: rest
    else x :: insertAscending e rest

/-- Puts every element of the second list in its place in the first. -/
def unionAscending (xs ys : List Nat) : List Nat :=
  ys.foldl (fun xs e => insertAscending e xs) xs

/-- The members of a list in strictly ascending order. -/
def ascending (xs : List Nat) : List Nat := unionAscending [] xs

/-! ## Members and order -/

theorem mem_insertAscending (e x : Nat) (xs : List Nat) :
    x ∈ insertAscending e xs ↔ x = e ∨ x ∈ xs := by
  induction xs with
  | nil => simp [insertAscending]
  | cons y rest ih => grind [insertAscending]

theorem mem_unionAscending (x : Nat) (xs ys : List Nat) :
    x ∈ unionAscending xs ys ↔ x ∈ xs ∨ x ∈ ys := by
  induction ys generalizing xs with
  | nil => simp [unionAscending]
  | cons y rest ih =>
    have step := ih (insertAscending y xs)
    simp only [unionAscending, List.foldl_cons] at step ⊢
    rw [step, mem_insertAscending, List.mem_cons]
    grind

theorem mem_ascending (x : Nat) (xs : List Nat) : x ∈ ascending xs ↔ x ∈ xs := by
  simp [ascending, mem_unionAscending]

theorem pairwise_insertAscending (e : Nat) {xs : List Nat} (ordered : Ascends xs) :
    Ascends (insertAscending e xs) := by
  induction xs with
  | nil => simp [insertAscending]
  | cons y rest ih =>
    have above := (List.pairwise_cons.mp ordered).1
    have tail := ih (List.pairwise_cons.mp ordered).2
    unfold insertAscending
    split
    · rename_i less
      refine List.pairwise_cons.mpr ⟨fun x member => ?_, ordered⟩
      rcases List.mem_cons.mp member with same | later
      · exact same ▸ less
      · exact Nat.lt_trans less (above x later)
    · split
      · exact ordered
      · rename_i notLess different
        refine List.pairwise_cons.mpr ⟨fun x member => ?_, tail⟩
        rcases (mem_insertAscending e x rest).mp member with same | later
        · omega
        · exact above x later

theorem pairwise_unionAscending {xs : List Nat} (ordered : Ascends xs) (ys : List Nat) :
    Ascends (unionAscending xs ys) := by
  induction ys generalizing xs with
  | nil => simpa [unionAscending] using ordered
  | cons y rest ih => exact ih (pairwise_insertAscending y ordered)

theorem pairwise_ascending (xs : List Nat) : Ascends (ascending xs) :=
  pairwise_unionAscending List.Pairwise.nil xs

/-! ## Ascending lists as sets -/

theorem Ascends.nodup {xs : List Nat} (ordered : Ascends xs) : xs.Nodup := ordered.imp Nat.ne_of_lt

/-- There is one strictly ascending list with given members. -/
theorem Ascends.eq_of_mem_iff {xs ys : List Nat} (first : Ascends xs) (second : Ascends ys)
    (same : ∀ x, x ∈ xs ↔ x ∈ ys) : xs = ys := by
  have shuffled : xs.Perm ys := (List.perm_ext_iff_of_nodup first.nodup second.nodup).mpr same
  exact shuffled.eq_of_pairwise (fun _ _ _ _ less more => absurd less (Nat.lt_asymm more)) first second

/-- The ascending listing of a list without repetitions only changes the order. -/
theorem perm_ascending {xs : List Nat} (distinct : xs.Nodup) : (ascending xs).Perm xs :=
  (List.perm_ext_iff_of_nodup (pairwise_ascending xs).nodup distinct).mpr fun x => mem_ascending x xs

end PointsTo
