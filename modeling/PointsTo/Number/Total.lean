/- # Total -- sums of lists of naturals

`total_append` splits a sum, and `le_total_of_mem` says that no member exceeds the sum. -/
set_option autoImplicit false

namespace PointsTo

/-- The sum of a list. -/
def total : List Nat → Nat
  | [] => 0
  | n :: rest => n + total rest

theorem total_append (xs ys : List Nat) : total (xs ++ ys) = total xs + total ys := by
  induction xs with
  | nil => simp [total]
  | cons x rest ih => simp [total, ih, Nat.add_assoc]

theorem le_total_of_mem {n : Nat} {xs : List Nat} (member : n ∈ xs) : n ≤ total xs := by
  induction xs with
  | nil => simp at member
  | cons x rest ih =>
    simp only [total]
    rcases List.mem_cons.mp member with same | later
    · omega
    · have := ih later
      omega

end PointsTo
