/- # Blocks -- consecutive numbers in blocks of given lengths

Members of classes and variables of methods are numbered in one row, class by class and method by method.
`blocks` cuts that row; `length_blocks` and `flatten_blocks` say that it cuts all of it. -/
import PointsTo.Number.Total

set_option autoImplicit false

namespace PointsTo

/-- Consecutive numbers from `start` on, in blocks of the given lengths. -/
def blocks (start : Nat) : List Nat → List (List Nat)
  | [] => []
  | length :: lengths => List.range' start length :: blocks (start + length) lengths

theorem length_blocks (start : Nat) (lengths : List Nat) :
    (blocks start lengths).length = lengths.length := by
  induction lengths generalizing start with
  | nil => rfl
  | cons length lengths ih => simp [blocks, ih]

theorem flatten_blocks (start : Nat) (lengths : List Nat) :
    (blocks start lengths).flatten = List.range' start (total lengths) := by
  induction lengths generalizing start with
  | nil => rfl
  | cons length lengths ih => simp [blocks, total, ih, List.range'_append_1]

end PointsTo
