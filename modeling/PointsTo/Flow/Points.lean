/- # Points -- the sets of pointers

A map from pointers, given by number, to sets of objects.  A pointer without an entry points to nothing;
`absorb` makes the entry, adds a set to it and says what was new.

Main statement: `mem_points_absorb`, absorbing adds exactly the given set. -/
import Std.Data.TreeMap
import PointsTo.Number.Total
import PointsTo.Sets.Objects

set_option autoImplicit false

namespace PointsTo

/-- The sets of pointers. -/
structure PointsMap where
  sets : Std.TreeMap Nat ObjectSet := ∅

namespace PointsMap

/-- The map without entries. -/
def empty : PointsMap := {}

/-- The entry of a pointer. -/
def get? (m : PointsMap) (pointer : Nat) : Option ObjectSet := m.sets[pointer]?

/-- The set of a pointer, empty without an entry. -/
def points (m : PointsMap) (pointer : Nat) : ObjectSet := (m.get? pointer).getD .empty

/-- Whether a pointer points to nothing. -/
def isEmpty (m : PointsMap) (pointer : Nat) : Bool := (m.points pointer).isEmpty

/-- Adds an object to the set of a pointer; says whether it was new. -/
def add (m : PointsMap) (pointer object : Nat) : PointsMap × Bool :=
  let (set, isNew) := (m.points pointer).insert object
  (⟨m.sets.insert pointer set⟩, isNew)

/-- Adds a set to the set of a pointer; gives the objects that were new. -/
def absorb (m : PointsMap) (pointer : Nat) (set : ObjectSet) : PointsMap × ObjectSet :=
  let delta := set.difference (m.points pointer)
  if delta.isEmpty && (m.get? pointer).isSome then (m, delta)
  else (⟨m.sets.insert pointer ((m.points pointer).union delta).1⟩, delta)

/-- The pointers with an entry, in ascending order. -/
def keys (m : PointsMap) : List Nat := m.sets.keys

/-- The entries in the order of their pointers. -/
def toList (m : PointsMap) : List (Nat × ObjectSet) := m.sets.toList

/-- The count of pairs of a pointer and an object in its set. -/
def relations (m : PointsMap) : Nat := total (m.toList.map fun (_, set) => set.count)

/-- The entries of `after` that are new or differ from those of `before`. -/
def changes (before after : PointsMap) : List (Nat × ObjectSet) :=
  after.toList.filter fun (pointer, set) => before.get? pointer ≠ some set

/-! ## Reading after writing -/

theorem get?_insert (m : PointsMap) (pointer other : Nat) (set : ObjectSet) :
    PointsMap.get? ⟨m.sets.insert pointer set⟩ other =
      if pointer = other then some set else m.get? other := by
  simp [get?, Std.TreeMap.getElem?_insert]

/-- Absorbing leaves the other pointers alone. -/
theorem get?_absorb_ne (m : PointsMap) {pointer other : Nat} (set : ObjectSet)
    (differs : pointer ≠ other) : (m.absorb pointer set).1.get? other = m.get? other := by
  simp only [absorb]
  split
  · rfl
  · simp [get?_insert, differs]

/-- The new objects are those of the set that the pointer did not have. -/
theorem mem_delta_absorb (m : PointsMap) (pointer : Nat) (set : ObjectSet) (o : Nat) :
    o ∈ (m.absorb pointer set).2 ↔ o ∈ set ∧ ¬ o ∈ m.points pointer := by
  simp only [absorb]
  split <;> simp [ObjectSet.mem_difference]

/-- Absorbing adds exactly the given set. -/
theorem mem_points_absorb (m : PointsMap) (pointer : Nat) (set : ObjectSet) (o : Nat) :
    o ∈ (m.absorb pointer set).1.points pointer ↔ o ∈ m.points pointer ∨ o ∈ set := by
  simp only [absorb]
  split
  · rename_i nothing
    have known := ObjectSet.not_mem_of_isEmpty (Bool.and_eq_true_iff.mp nothing).1 o
    simp only [ObjectSet.mem_difference] at known
    grind
  · simp only [points, get?_insert, if_true, Option.getD_some, ObjectSet.mem_union,
      ObjectSet.mem_difference]
    grind

end PointsMap

end PointsTo
