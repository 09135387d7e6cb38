/- # Numbering -- how the numbers of a table behave over time

A table only grows at its end: `Table.Extends` says that all numbers in use keep their keys.  In a table
without repetitions a key has one number, so asking for a key that is there gives its number and changes
nothing (`intern_of_key?`). -/
import PointsTo.Table

set_option autoImplicit false

namespace PointsTo.Table

variable {α : Type}

/-- The later table has all numbers of the earlier one, with the same keys. -/
def Extends (earlier later : Table α) : Prop := earlier.toList <+: later.toList

theorem key?_eq_getElem? (t : Table α) (id : Nat) : t.key? id = t.toList[id]? := by
  simp [key?, toList]

theorem size_eq_length (t : Table α) : t.size = t.toList.length := by
  simp [size, toList]

theorem Extends.refl (t : Table α) : t.Extends t := List.prefix_refl _

theorem Extends.trans {t u v : Table α} (first : t.Extends u) (second : u.Extends v) : t.Extends v :=
  List.IsPrefix.trans first second

/-- Numbers keep their keys. -/
theorem Extends.key? {t u : Table α} (grown : t.Extends u) {id : Nat} {key : α}
    (read : t.key? id = some key) : u.key? id = some key := by
  rw [key?_eq_getElem?] at read ⊢
  obtain ⟨more, same⟩ := grown
  have bounded : id < t.toList.length := (List.getElem?_eq_some_iff.mp read).1
  rw [← same, List.getElem?_append_left bounded]
  exact read

theorem Extends.size_le {t u : Table α} (grown : t.Extends u) : t.size ≤ u.size := by
  rw [size_eq_length, size_eq_length]
  exact List.IsPrefix.length_le grown

theorem lt_of_key? {t : Table α} {id : Nat} {key : α} (read : t.key? id = some key) :
    id < t.size := by
  rw [key?_eq_getElem?] at read
  rw [size_eq_length]
  exact (List.getElem?_eq_some_iff.mp read).1

theorem exists_key?_of_lt {t : Table α} {id : Nat} (inUse : id < t.size) :
    ∃ key, t.key? id = some key := by
  rw [size_eq_length] at inUse
  exact ⟨t.toList[id], by rw [key?_eq_getElem?]; exact List.getElem?_eq_getElem inUse⟩

theorem mem_of_key? {t : Table α} {id : Nat} {key : α} (read : t.key? id = some key) :
    key ∈ t.toList := by
  rw [key?_eq_getElem?] at read
  exact List.mem_of_getElem? read

/-- Without repetitions, numbers with one key are equal. -/
theorem key?_injective {t : Table α} (distinct : t.toList.Nodup) {first second : Nat} {key : α}
    (read : t.key? first = some key) (again : t.key? second = some key) : first = second := by
  rw [key?_eq_getElem?] at read again
  have bounded : first < t.toList.length := (List.getElem?_eq_some_iff.mp read).1
  exact (List.getElem?_inj bounded distinct).mp (read.trans again.symm)

variable [DecidableEq α]

theorem extends_intern (t : Table α) (key : α) : t.Extends (t.intern key).1 := by
  unfold intern
  split
  · exact Extends.refl t
  · simp [Extends, toList]

theorem toList_intern_of_mem {t : Table α} {key : α} (member : key ∈ t.toList) :
    (t.intern key).1 = t := by
  unfold intern
  split
  · rfl
  · rename_i missing
    exact absurd member (not_mem_of_number?_eq_none missing)

theorem mem_toList_intern {t : Table α} {key other : α} :
    other ∈ (t.intern key).1.toList ↔ other ∈ t.toList ∨ other = key := by
  by_cases member : key ∈ t.toList
  · rw [toList_intern_of_mem member]
    constructor
    · exact .inl
    · rintro (old | rfl)
      · exact old
      · exact member
  · unfold intern
    split
    · rename_i id found
      exact absurd (mem_of_key? (key?_of_number? found)) member
    · simp [toList]

theorem intern_lt (t : Table α) (key : α) : (t.intern key).2 < (t.intern key).1.size :=
  lt_of_key? (key?_intern t key)

/-- A number that reads back as a key is the number of the key. -/
theorem number?_of_key? {t : Table α} (distinct : t.toList.Nodup) {id : Nat} {key : α}
    (read : t.key? id = some key) : t.number? key = some id := by
  cases found : t.number? key with
  | none => exact absurd (mem_of_key? read) (not_mem_of_number?_eq_none found)
  | some other => rw [key?_injective distinct (key?_of_number? found) read]

theorem number?_eq_some_iff {t : Table α} (distinct : t.toList.Nodup) {id : Nat} {key : α} :
    t.number? key = some id ↔ t.key? id = some key :=
  ⟨key?_of_number?, number?_of_key? distinct⟩

/-- A request leaves the other keys with their numbers. -/
theorem number?_intern_of_some {t : Table α} (distinct : t.toList.Nodup) {key : α} {id : Nat}
    (found : t.number? key = some id) (other : α) : (t.intern other).1.number? key = some id :=
  number?_of_key? (nodup_intern t other distinct) (intern_extends t other (key?_of_number? found))

theorem number?_intern_self {t : Table α} (distinct : t.toList.Nodup) (key : α) :
    (t.intern key).1.number? key = some (t.intern key).2 :=
  number?_of_key? (nodup_intern t key distinct) (key?_intern t key)

/-- Asking again for a key gives its number and adds nothing. -/
theorem intern_of_key? {t : Table α} (distinct : t.toList.Nodup) {id : Nat} {key : α}
    (read : t.key? id = some key) : t.intern key = (t, id) := by
  simp [intern, number?_of_key? distinct read]

end PointsTo.Table
