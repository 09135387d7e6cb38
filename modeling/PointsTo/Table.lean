/- # Table -- keys numbered in the order of their first request

A table gives every key a dense number.  `intern` returns the number of a key and adds the key when it is
new; a key keeps its number for good.  Main statements: `key?_intern` (a number reads back as its key),
`intern_extends` (old numbers keep their keys) and `nodup_intern` (no key is numbered twice). -/
set_option autoImplicit false

namespace PointsTo

/-- Distinct keys; the number of a key is its position. -/
structure Table (α : Type) where
  keys : Array α := #[]
  deriving Repr

namespace Table

variable {α : Type}

/-- The table without keys. -/
def empty : Table α := {}

/-- The count of keys. -/
def size (t : Table α) : Nat := t.keys.size

/-- The key of a number. -/
def key? (t : Table α) (id : Nat) : Option α := t.keys[id]?

/-- The keys in the order of their numbers. -/
def toList (t : Table α) : List α := t.keys.toList

variable [DecidableEq α]

/-- The last position below `bound` that holds the key. -/
def searchBelow (keys : Array α) (key : α) : Nat → Option Nat
  | 0 => none
  | bound + 1 => if keys[bound]? = some key then some bound else searchBelow keys key bound

/-- The number of a key. -/
def number? (t : Table α) (key : α) : Option Nat := searchBelow t.keys key t.keys.size

/-- The number of a key, which is added when it is new. -/
def intern (t : Table α) (key : α) : Table α × Nat :=
  match t.number? key with
  | some id => (t, id)
  | none => (⟨t.keys.push key⟩, t.keys.size)

/-! ## Numbers and keys -/

theorem searchBelow_some {keys : Array α} {key : α} {bound id : Nat}
    (found : searchBelow keys key bound = some id) : keys[id]? = some key := by
  induction bound with
  | zero => simp [searchBelow] at found
  | succ bound ih =>
    unfold searchBelow at found
    split at found
    · rename_i here
      cases found
      exact here
    · exact ih found

theorem searchBelow_none {keys : Array α} {key : α} {bound : Nat}
    (missing : searchBelow keys key bound = none) :
    ∀ id < bound, keys[id]? ≠ some key := by
  induction bound with
  | zero => intro id below; omega
  | succ bound ih =>
    unfold searchBelow at missing
    split at missing
    · simp at missing
    · rename_i notHere
      intro id below
      rcases Nat.lt_succ_iff_lt_or_eq.mp below with less | same
      · exact ih missing id less
      · exact same ▸ notHere

/-- A found number reads back as its key. -/
theorem key?_of_number? {t : Table α} {key : α} {id : Nat} (found : t.number? key = some id) :
    t.key? id = some key :=
  searchBelow_some found

/-- A key without a number is not in the table. -/
theorem not_mem_of_number?_eq_none {t : Table α} {key : α} (missing : t.number? key = none) :
    key ∉ t.toList := by
  intro present
  obtain ⟨id, read⟩ := List.mem_iff_getElem?.mp present
  have bounded : id < t.keys.size := by
    have := (List.getElem?_eq_some_iff.mp read).1
    simpa [toList] using this
  exact searchBelow_none missing id bounded (by simpa [toList] using read)

theorem key?_intern (t : Table α) (key : α) : (t.intern key).1.key? (t.intern key).2 = some key := by
  unfold intern
  split
  · rename_i id found
    exact key?_of_number? found
  · simp [key?]

/-- Numbers in use keep their keys. -/
theorem intern_extends (t : Table α) (key : α) {id : Nat} {old : α} (read : t.key? id = some old) :
    (t.intern key).1.key? id = some old := by
  unfold intern
  split
  · exact read
  · have bounded : id < t.keys.size := (Array.getElem?_eq_some_iff.mp read).1
    simpa [key?, Array.getElem?_push, Nat.ne_of_lt bounded] using read

/-- A table stays free of repetitions. -/
theorem nodup_intern (t : Table α) (key : α) (distinct : t.toList.Nodup) :
    (t.intern key).1.toList.Nodup := by
  unfold intern
  split
  · exact distinct
  · rename_i missing
    have fresh := not_mem_of_number?_eq_none missing
    simp only [toList, Array.toList_push] at *
    rw [List.nodup_append]
    exact ⟨distinct, by simp, fun a mem b single same =>
      fresh (by simp only [List.mem_singleton] at single; exact single ▸ same ▸ mem)⟩

end Table

end PointsTo
