/- # Worklist -- a first-in first-out queue

Items leave in the order in which they came.  The queue is a front list and a reversed back list; its
contents are `toList`, and `toList_push` and `toList_of_pop?` say what the two operations do to them. -/
set_option autoImplicit false

namespace PointsTo

/-- A queue: the oldest items in order, and the newest in reverse. -/
structure Worklist (α : Type) where
  front : List α := []
  back : List α := []
  deriving DecidableEq, Repr

namespace Worklist

variable {α : Type}

/-- The queue without items. -/
def empty : Worklist α := {}

/-- The items, oldest first. -/
def toList (q : Worklist α) : List α := q.front ++ q.back.reverse

/-- Adds an item behind all others. -/
def push (q : Worklist α) (item : α) : Worklist α := ⟨q.front, item :: q.back⟩

/-- Takes the oldest item. -/
def pop? (q : Worklist α) : Option (α × Worklist α) :=
  match q.front with
  | item :: rest => some (item, ⟨rest, q.back⟩)
  | [] =>
    match q.back.reverse with
    | item :: rest => some (item, ⟨rest, []⟩)
    | [] => none

/-- The count of items. -/
def size (q : Worklist α) : Nat := q.front.length + q.back.length

/-- Whether there is nothing to take. -/
def isEmpty (q : Worklist α) : Bool := q.front.isEmpty && q.back.isEmpty

@[simp] theorem toList_empty : (empty : Worklist α).toList = [] := rfl

@[simp] theorem toList_push (q : Worklist α) (item : α) :
    (q.push item).toList = q.toList ++ [item] := by
  simp [toList, push]

theorem toList_of_pop? {q rest : Worklist α} {item : α} (taken : q.pop? = some (item, rest)) :
    q.toList = item :: rest.toList := by
  obtain ⟨front, back⟩ := q
  cases front with
  | cons first others =>
    simp only [pop?, Option.some.injEq, Prod.mk.injEq] at taken
    simp [toList, ← taken.1, ← taken.2]
  | nil =>
    simp only [pop?] at taken
    split at taken
    · rename_i first others whole
      simp only [Option.some.injEq, Prod.mk.injEq] at taken
      simp [toList, whole, ← taken.1, ← taken.2]
    · simp at taken

theorem toList_eq_nil_of_pop? {q : Worklist α} (nothing : q.pop? = none) : q.toList = [] := by
  obtain ⟨front, back⟩ := q
  cases front with
  | cons first others => simp [pop?] at nothing
  | nil =>
    simp only [pop?] at nothing
    split at nothing
    · simp at nothing
    · rename_i whole
      simpa [toList] using whole

theorem size_eq_length (q : Worklist α) : q.size = q.toList.length := by
  simp [size, toList]

theorem isEmpty_iff (q : Worklist α) : q.isEmpty = true ↔ q.toList = [] := by
  simp [isEmpty, toList]

end Worklist

end PointsTo
