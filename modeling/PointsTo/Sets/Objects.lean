/- # Objects -- points-to sets

A points-to set holds object numbers.  A small one is a strictly ascending list, a larger one a bit set;
`sparseCapacity` is the largest size of a list.  Elements are listed in ascending order in both forms.

Main statements: `mem_insert`, `mem_union` and `mem_difference` say what the operations do to membership,
whatever the forms of their arguments, and `mem_toList` that `toList` lists the members. -/
import PointsTo.Sets.Ascending
import PointsTo.Sets.Bits

set_option autoImplicit false

namespace PointsTo

/-- The largest size of a set that is kept as a list. -/
def sparseCapacity : Nat := 32

/-- A set of object numbers. -/
inductive ObjectSet
  | sparse (elements : List Nat)
  | dense (bits : BitSet)
  deriving DecidableEq, Repr

namespace ObjectSet

/-- The set without elements. -/
def empty : ObjectSet := .sparse []

/-- The set with one element. -/
def singleton (e : Nat) : ObjectSet := .sparse [e]

/-- The elements in ascending order. -/
def toList : ObjectSet → List Nat
  | .sparse elements => elements
  | .dense bits => bits.toList

/-- Whether an element is in the set. -/
def contains (s : ObjectSet) (e : Nat) : Bool :=
  match s with
  | .sparse elements => elements.contains e
  | .dense bits => bits.contains e

/-- The count of elements. -/
def count : ObjectSet → Nat
  | .sparse elements => elements.length
  | .dense bits => bits.count

/-- Whether there are no elements. -/
def isEmpty : ObjectSet → Bool
  | .sparse elements => elements.isEmpty
  | .dense bits => bits.isEmpty

/-- The set of an ascending list, in the form its length asks for. -/
def ofAscending (elements : List Nat) : ObjectSet :=
  if elements.length ≤ sparseCapacity then .sparse elements
  else .dense (BitSet.empty.insertAll elements)

/-- Whether every element of `t` is in `s`.  A list never holds all of a set with more elements. -/
def superset (s t : ObjectSet) : Bool :=
  match s, t with
  | .dense left, .dense right => left.superset right
  | .sparse _, .dense right => right.count ≤ s.count && right.toList.all s.contains
  | _, .sparse elements => elements.all s.contains

/-- Adds an element; says whether it was new. -/
def insert (s : ObjectSet) (e : Nat) : ObjectSet × Bool :=
  match s with
  | .dense bits =>
    let (bits, isNew) := bits.insert e
    (.dense bits, isNew)
  | .sparse elements => (ofAscending (insertAscending e elements), !elements.contains e)

/-- Adds the elements of another set; says whether any was new. -/
def union (s t : ObjectSet) : ObjectSet × Bool :=
  let joined := match s, t with
    | .dense left, .dense right => .dense (left.union right).1
    | .dense left, .sparse elements => .dense (left.insertAll elements)
    | .sparse elements, .dense right => .dense ((BitSet.empty.insertAll elements).union right).1
    | .sparse left, .sparse right => ofAscending (unionAscending left right)
  (joined, !s.superset t)

/-- The elements of `s` that are not in `t`. -/
def difference (s t : ObjectSet) : ObjectSet :=
  match s, t with
  | .dense left, .dense right =>
    let rest := right.missingFrom left
    if sparseCapacity < rest.count then .dense rest else .sparse rest.toList
  | _, _ => ofAscending (s.toList.filter fun e => !t.contains e)

/-- The set of the elements of a list. -/
def ofList (elements : List Nat) : ObjectSet := elements.foldl (fun s e => (s.insert e).1) empty

instance : Membership Nat ObjectSet := ⟨fun s e => s.contains e = true⟩

instance (e : Nat) (s : ObjectSet) : Decidable (e ∈ s) :=
  inferInstanceAs (Decidable (s.contains e = true))

/-! ## Membership -/

theorem mem_iff_contains (s : ObjectSet) (e : Nat) : e ∈ s ↔ s.contains e = true := Iff.rfl

theorem mem_toList (s : ObjectSet) (e : Nat) : e ∈ s.toList ↔ e ∈ s := by
  cases s with
  | sparse elements => simp [mem_iff_contains, toList, contains]
  | dense bits => simp [mem_iff_contains, toList, contains, BitSet.mem_toList]

@[simp] theorem not_mem_empty (e : Nat) : ¬ e ∈ empty := by
  simp [mem_iff_contains, empty, contains]

theorem not_mem_of_isEmpty {s : ObjectSet} (nothing : s.isEmpty = true) (e : Nat) : ¬ e ∈ s := by
  cases s with
  | sparse elements =>
    have none : elements = [] := by simpa [isEmpty] using nothing
    simp [mem_iff_contains, contains, none]
  | dense bits =>
    simp only [isEmpty] at nothing
    simp [mem_iff_contains, contains, BitSet.contains_of_isEmpty nothing]

theorem toList_of_isEmpty {s : ObjectSet} (nothing : s.isEmpty = true) : s.toList = [] := by
  apply List.eq_nil_iff_forall_not_mem.mpr
  intro e member
  exact not_mem_of_isEmpty nothing e ((mem_toList s e).mp member)

@[simp] theorem mem_singleton (e x : Nat) : x ∈ singleton e ↔ x = e := by
  simp [mem_iff_contains, singleton, contains]

theorem contains_empty_bits (x : Nat) : BitSet.empty.contains x = false := by
  simp [BitSet.empty, BitSet.contains, BitSet.word]

theorem mem_ofAscending (elements : List Nat) (x : Nat) : x ∈ ofAscending elements ↔ x ∈ elements := by
  unfold ofAscending
  split
  · simp [mem_iff_contains, contains]
  · simp [mem_iff_contains, contains, BitSet.contains_insertAll, contains_empty_bits]

theorem mem_insert (s : ObjectSet) (e x : Nat) : x ∈ (s.insert e).1 ↔ x = e ∨ x ∈ s := by
  cases s with
  | sparse elements =>
    simp only [insert, mem_ofAscending, mem_insertAscending]
    simp [mem_iff_contains, contains]
  | dense bits =>
    simp [insert, mem_iff_contains, contains, BitSet.contains_insert, or_comm]

theorem mem_union (s t : ObjectSet) (x : Nat) : x ∈ (s.union t).1 ↔ x ∈ s ∨ x ∈ t := by
  cases s with
  | sparse left =>
    cases t with
    | sparse right =>
      simp only [union, mem_ofAscending, mem_unionAscending]
      simp [mem_iff_contains, contains]
    | dense right =>
      simp [union, mem_iff_contains, contains, BitSet.contains_union, BitSet.contains_insertAll,
        contains_empty_bits]
  | dense left =>
    cases t with
    | sparse right => simp [union, mem_iff_contains, contains, BitSet.contains_insertAll]
    | dense right => simp [union, mem_iff_contains, contains, BitSet.contains_union]

theorem mem_difference (s t : ObjectSet) (x : Nat) : x ∈ s.difference t ↔ x ∈ s ∧ ¬ x ∈ t := by
  have general : x ∈ ofAscending (s.toList.filter fun e => !t.contains e) ↔ x ∈ s ∧ ¬ x ∈ t := by
    rw [mem_ofAscending, List.mem_filter, mem_toList]
    simp [mem_iff_contains]
  cases s with
  | sparse left => exact general
  | dense left =>
    cases t with
    | sparse right => exact general
    | dense right =>
      simp only [difference]
      split
      · simp [mem_iff_contains, contains, BitSet.contains_missingFrom]
      · simp [mem_iff_contains, contains, BitSet.mem_toList, BitSet.contains_missingFrom]

end ObjectSet

end PointsTo
