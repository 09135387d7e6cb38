/- # BitSets -- bit sets count, compare and enumerate what they contain

What a bit set answers is what its elements say, however many words it stores: `count` is the number of
elements (`count_eq_card`), `superset` compares them (`superset_iff`), and walking through the words with a
cursor meets them in ascending order, each once (`enumerate_eq_toList`).  A finite set has one ascending list
(`Ascends.eq_sort`), so what is known of the list of elements is known of the set.  The cursor keeps the offset of its
word in a machine word that starts one word below zero; `Cursor.At` says what it is at any time. -/
import Mathlib.Data.Finset.Sort
import PointsTo.Number.Total
import PointsTo.Proofs.OrderedSets

set_option autoImplicit false

namespace PointsTo

/-! ## Ascending lists as finite sets -/

namespace Ascends

variable {xs : List Nat} {f : Finset Nat} (ordered : Ascends xs) (mem : ∀ e, e ∈ xs ↔ e ∈ f)
include ordered mem

theorem length_eq_card : xs.length = f.card := by
  have whole : xs.toFinset = f := by
    ext e
    rw [List.mem_toFinset, mem]
  rw [← List.toFinset_card_of_nodup ordered.nodup, whole]

theorem eq_sort : xs = f.sort (· ≤ ·) :=
  ordered.eq_of_mem_iff (Finset.sortedLT_sort f).pairwise fun e => by rw [mem, Finset.mem_sort]

end Ascends

namespace BitSet

/-! ## Counting -/

theorem length_elementsBelow (s : BitSet) (bound : Nat) (others : List Nat) :
    (s.elementsBelow bound others).length =
      total ((List.range bound).map fun i => (wordBits (s.word i)).length) + others.length := by
  induction bound generalizing others with
  | zero => simp [elementsBelow, total]
  | succ bound ih =>
      rw [elementsBelow, ih, List.length_append, List.length_map, List.range_succ, List.map_append,
        total_append]
      simp only [List.map_singleton, total]
      omega

theorem foldl_add_eq_total (lengths : List Nat) (start : Nat) :
    lengths.foldl (· + ·) start = start + total lengths := by
  induction lengths generalizing start with
  | nil => rfl
  | cons n rest ih =>
      rw [List.foldl_cons, ih, total]
      omega

theorem count_eq_length (s : BitSet) : s.count = s.toList.length := by
  have words : s.words.toList = (List.range s.words.size).map s.word := by
    apply List.ext_getElem
    · simp
    · intro i inside _
      have bound : i < s.words.size := by simpa using inside
      simp [word, bound]
  have folded : s.count = (s.words.toList.map fun w => (wordBits w).length).foldl (· + ·) 0 := by
    rw [count, ← Array.foldl_toList, List.foldl_map]
  rw [folded, foldl_add_eq_total, toList, length_elementsBelow, words, List.map_map]
  simp [Function.comp_def]

/-- A finite set has the elements of a bit set. -/
def Denotes (s : BitSet) (f : Finset Nat) : Prop := ∀ e, s.contains e = true ↔ e ∈ f

theorem Denotes.mem_toList_iff {s : BitSet} {f : Finset Nat} (denotes : s.Denotes f) (e : Nat) :
    e ∈ s.toList ↔ e ∈ f := (mem_toList s e).trans (denotes e)

theorem Denotes.count_eq_card {s : BitSet} {f : Finset Nat} (denotes : s.Denotes f) :
    s.count = f.card :=
  (count_eq_length s).trans (s.ascends_toList.length_eq_card denotes.mem_toList_iff)

/-! ## Comparing -/

theorem and_eq_right_iff (a b : BitVec 64) :
    a &&& b = b ↔ ∀ j, b.getLsbD j = true → a.getLsbD j = true := by
  constructor
  · intro same j set
    rw [← same, BitVec.getLsbD_and, Bool.and_eq_true] at set
    exact set.1
  · intro wider
    apply BitVec.eq_of_getLsbD_eq
    intro j _
    rw [BitVec.getLsbD_and]
    cases set : b.getLsbD j with
    | false => exact Bool.and_false _
    | true => rw [wider j set, Bool.and_true]

theorem superset_iff_words (s t : BitSet) :
    s.superset t = true ↔ ∀ i < t.words.size, s.word i &&& t.word i = t.word i := by
  simp [superset, Nat.all_eq_finRange_all, Fin.forall_iff]

theorem superset_iff (s t : BitSet) :
    s.superset t = true ↔ ∀ e, t.contains e = true → s.contains e = true := by
  rw [superset_iff_words]
  constructor
  · intro words e set
    by_cases stored : e / 64 < t.words.size
    · have whole := words (e / 64) stored
      rw [and_eq_right_iff] at whole
      exact whole _ set
    · have zero : t.word (e / 64) = 0 := by simp [word, Nat.not_lt.mp stored]
      simp [contains, zero] at set
  · intro wider i stored
    rw [and_eq_right_iff]
    intro j set
    have inWord : j < 64 := BitVec.lt_of_getLsbD set
    have element := wider (64 * i + j)
    rw [contains, contains, show (64 * i + j) / 64 = i by omega, show (64 * i + j) % 64 = j by omega]
      at element
    exact element set

theorem isEmpty_iff (s : BitSet) : s.isEmpty = true ↔ ∀ e, s.contains e = false :=
  ⟨fun nothing e => contains_of_isEmpty nothing e, isEmpty_of_forall⟩

/-! ## Stored words -/

theorem size_insert (s : BitSet) (e : Nat) :
    (s.insert e).1.words.size = max s.words.size (e / 64 + 1) := by
  simp only [insert, Array.size_setIfInBounds, size_grown]

theorem size_insertAll_le {s : BitSet} {elements : List Nat} {bound : Nat}
    (small : s.words.size ≤ bound) (below : ∀ e ∈ elements, e < 64 * bound) :
    (s.insertAll elements).words.size ≤ bound := by
  induction elements generalizing s with
  | nil => exact small
  | cons e rest ih =>
      apply ih
      · have first := below e List.mem_cons_self
        rw [size_insert]
        omega
      · exact fun other later => below other (List.mem_cons_of_mem _ later)

theorem size_union (s t : BitSet) :
    (s.union t).1.words.size = max s.words.size t.words.size := by
  simp only [union, Array.size_mapIdx, size_grown]

theorem size_missingFrom (s t : BitSet) : (s.missingFrom t).words.size = t.words.size := by
  simp only [missingFrom, Array.size_mapIdx]

theorem contains_lt {s : BitSet} {e : Nat} (set : s.contains e = true) : e < 64 * s.words.size := by
  have stored : e / 64 < s.words.size := by
    by_contra outside
    have zero : s.word (e / 64) = 0 := by simp [word, Nat.not_lt.mp outside]
    simp [contains, zero] at set
  omega

/-! ## Enumerating -/

/-- The elements in the words from a position on. -/
def elementsFrom (s : BitSet) (start : Nat) : List Nat :=
  (List.range' start (s.words.size - start)).flatMap fun i =>
    (wordBits (s.word i)).map (64 * i + ·)

theorem elementsFrom_of_lt {s : BitSet} {start : Nat} (stored : start < s.words.size) :
    s.elementsFrom start =
      (wordBits (s.word start)).map (64 * start + ·) ++ s.elementsFrom (start + 1) := by
  have rest : s.words.size - start = (s.words.size - (start + 1)) + 1 := by omega
  rw [elementsFrom, rest, List.range'_succ, List.flatMap_cons, elementsFrom]

theorem elementsFrom_size (s : BitSet) : s.elementsFrom s.words.size = [] := by
  simp [elementsFrom]

theorem elementsBelow_eq (s : BitSet) (bound : Nat) (others : List Nat) :
    s.elementsBelow bound others =
      ((List.range bound).flatMap fun i => (wordBits (s.word i)).map (64 * i + ·)) ++ others := by
  induction bound generalizing others with
  | zero => simp [elementsBelow]
  | succ bound ih =>
      rw [elementsBelow, ih, List.range_succ, List.flatMap_append, List.append_assoc]
      simp

theorem toList_eq_elementsFrom (s : BitSet) : s.toList = s.elementsFrom 0 := by
  rw [toList, elementsBelow_eq, elementsFrom, List.append_nil, List.range_eq_range', Nat.sub_zero]

theorem wordBits_eq_filter (w : BitVec 64) : wordBits w = (List.range 64).filter fun i => w.getLsbD i := by
  unfold wordBits
  split
  · rename_i zero
    simp [zero]
  · rfl

/-- Clearing the lowest bit leaves the others. -/
theorem wordBits_xor_mask {w : BitVec 64} {i : Nat} {rest : List Nat} (bits : wordBits w = i :: rest) :
    wordBits (w ^^^ mask i) = rest := by
  have set : w.getLsbD i = true := (mem_wordBits w i).mp (by rw [bits]; exact List.mem_cons_self)
  have small : i < 64 := BitVec.lt_of_getLsbD set
  have cleared : ∀ j ∈ List.range 64, (w ^^^ mask i).getLsbD j = (w.getLsbD j && decide (j ≠ i)) := by
    intro j inside
    have bound : j < 64 := List.mem_range.mp inside
    rw [BitVec.getLsbD_xor, mask, BitVec.getLsbD_twoPow, Nat.mod_eq_of_lt small]
    by_cases same : j = i
    · simp [same, set, small]
    · have differs : ¬ i = j := fun equal => same equal.symm
      simp [same, differs]
  have others : i ∉ rest := by
    have ascending := (ascends_wordBits w).1
    rw [bits] at ascending
    intro member
    exact Nat.lt_irrefl i ((List.pairwise_cons.mp ascending).1 i member)
  have kept : ∀ j ∈ rest, decide (j ≠ i) = true := by
    intro j member
    exact decide_eq_true fun same => others (same ▸ member)
  rw [wordBits_eq_filter, List.filter_congr cleared]
  simp only [Bool.and_comm (w.getLsbD _)]
  rw [← List.filter_filter, ← wordBits_eq_filter, bits, List.filter_cons_of_neg (by simp),
    List.filter_eq_self.mpr kept]

namespace Cursor

/-- What is still to be met from a position on. -/
def remaining (s : BitSet) (c : Cursor) : List Nat :=
  (wordBits c.word).map (c.offset.toNat + ·) ++ s.elementsFrom c.taken

/-- A position that an enumeration comes to: the offset is that of the last word taken, and one word below zero
as long as none was. -/
structure At (s : BitSet) (c : Cursor) : Prop where
  taken : c.taken ≤ s.words.size
  offset : c.offset + 64 = BitVec.ofNat 64 (64 * c.taken)
  unstarted : c.taken = 0 → c.word = 0

theorem at_start (s : BitSet) : Cursor.start.At s := ⟨Nat.zero_le _, rfl, fun _ => rfl⟩

theorem remaining_start (s : BitSet) : Cursor.start.remaining s = s.toList := by
  rw [remaining, toList_eq_elementsFrom]
  rfl

/-- An answer gives the first of the elements that remain and a position at which the others do. -/
inductive Meets (s : BitSet) : List Nat → Option (Nat × Cursor) → Prop
  | nil : Meets s [] none
  | cons {e : Nat} {c : Cursor} (next : c.At s) : Meets s (e :: c.remaining s) (some (e, c))

/-- A bit of the word at hand comes before all other words. -/
theorem meets_of_wordBits {s : BitSet} {c : Cursor} (reached : c.At s) {i : Nat} {rest : List Nat}
    (bits : wordBits c.word = i :: rest) (fuel : Nat) :
    Meets s (c.remaining s) (Cursor.next? s fuel c) := by
  have next : (Cursor.mk (c.word ^^^ mask i) c.offset c.taken).At s := by
    refine ⟨reached.taken, reached.offset, fun unstarted => ?_⟩
    rw [reached.unstarted unstarted] at bits
    cases bits
  have met : c.remaining s =
      (i + c.offset.toNat) :: (Cursor.mk (c.word ^^^ mask i) c.offset c.taken).remaining s := by
    rw [remaining, remaining, bits, wordBits_xor_mask bits, List.map_cons, List.cons_append,
      Nat.add_comm]
  have answer : Cursor.next? s fuel c =
      some (i + c.offset.toNat, ⟨c.word ^^^ mask i, c.offset, c.taken⟩) := by
    cases fuel <;> simp [Cursor.next?, bits]
  rw [met, answer]
  exact .cons next

section Next

variable {s : BitSet} (small : 64 * s.words.size ≤ UInt64.size)
include small

/-- The offset of a word that was taken is the number of the bits before it. -/
theorem At.toNat_offset {c : Cursor} (reached : c.At s) (started : 0 < c.taken) :
    c.offset.toNat = 64 * (c.taken - 1) := by
  have bound := reached.taken
  have sum := congrArg BitVec.toNat reached.offset
  have width : BitVec.toNat (64 : BitVec 64) = 64 := rfl
  rw [BitVec.toNat_add, BitVec.toNat_ofNat, width] at sum
  have inWord := c.offset.isLt
  have limit : UInt64.size = 18446744073709551616 := rfl
  omega

theorem At.next {c : Cursor} (reached : c.At s) (stored : c.taken < s.words.size) :
    (Cursor.mk (s.word c.taken) (c.offset + 64) (c.taken + 1)).At s ∧
      (Cursor.mk (s.word c.taken) (c.offset + 64) (c.taken + 1)).remaining s =
        s.elementsFrom c.taken := by
  have offset : c.offset + 64 + 64 = BitVec.ofNat 64 (64 * (c.taken + 1)) := by
    rw [reached.offset]
    apply BitVec.eq_of_toNat_eq
    simp
    omega
  have next : (Cursor.mk (s.word c.taken) (c.offset + 64) (c.taken + 1)).At s :=
    ⟨stored, offset, fun zero => absurd zero (Nat.succ_ne_zero _)⟩
  refine ⟨next, ?_⟩
  have number := next.toNat_offset small (Nat.succ_pos _)
  simp only [Nat.add_sub_cancel] at number
  rw [remaining, elementsFrom_of_lt stored, number]

/-- The next element is the first of those that remain, and the others remain behind it. -/
theorem meets_next? {c : Cursor} (reached : c.At s) {fuel : Nat}
    (enough : s.words.size ≤ c.taken + fuel) :
    Meets s (c.remaining s) (Cursor.next? s fuel c) := by
  induction fuel generalizing c with
  | zero =>
      cases bits : wordBits c.word with
      | cons i rest => exact meets_of_wordBits reached bits 0
      | nil =>
          have last : c.taken = s.words.size := Nat.le_antisymm reached.taken enough
          rw [remaining, bits, last, elementsFrom_size, Cursor.next?, bits]
          exact .nil
  | succ fuel ih =>
      cases bits : wordBits c.word with
      | cons i rest => exact meets_of_wordBits reached bits (fuel + 1)
      | nil =>
          rw [remaining, bits, List.map_nil, List.nil_append, Cursor.next?, bits]
          simp only [List.head?_nil]
          split
          · rename_i stored
            obtain ⟨next, rest⟩ := reached.next small stored
            have later := ih next (by simp only; omega)
            rw [rest] at later
            exact later
          · rename_i outside
            have last : c.taken = s.words.size :=
              Nat.le_antisymm reached.taken (Nat.not_lt.mp outside)
            rw [last, elementsFrom_size]
            exact .nil

/-- Draining a cursor takes the elements that remain, as many as there is fuel for. -/
theorem drain_eq_take {c : Cursor} (reached : c.At s) (fuel : Nat) :
    Cursor.drain s fuel c = (c.remaining s).take fuel := by
  induction fuel generalizing c with
  | zero => rfl
  | succ fuel ih =>
      have met := meets_next? small reached (Nat.le_add_left _ _)
      unfold Cursor.drain
      generalize Cursor.next? s s.words.size c = answer at met ⊢
      generalize c.remaining s = elements at met ⊢
      cases met with
      | nil => rfl
      | cons next =>
          rw [List.take_succ_cons, ← ih next]

end Next

end Cursor

/-- A cursor meets the elements in ascending order, each once, as long as all bits have positions that a
machine word can hold. -/
theorem enumerate_eq_toList {s : BitSet} (small : 64 * s.words.size ≤ UInt64.size) :
    s.enumerate = s.toList := by
  have elements : s.toList.length ≤ 64 * s.words.size := by
    refine ObjectSet.length_toList_le (ObjectSet.ordered_dense s) fun e member => ?_
    exact contains_lt member
  rw [enumerate, Cursor.drain_eq_take small (Cursor.at_start s), Cursor.remaining_start,
    List.take_of_length_le elements]

end BitSet

end PointsTo
