/- # StoredWords -- bit sets on machine words

The operations on bit sets say what they do to elements; here they are done with machine words alone.  A bit is looked
up behind a comparison with the stored bits (`testBit`), a set has changed when a word has (`setBit`, `mergeWords`),
elements are counted word by word (`popcount`), and an iteration clears the lowest bit of its copy of a word and goes
on to the next word when it has none left (`Cursor.Next`).  All agree with the operations on elements.

The sum of a bit and the offset of its word is a sum of naturals in `Cursor.Next`, and the relation has no step where
it would not fit a machine word.  So that an iteration meets anything is also to say that no sum overflows: only the
step from one word below zero to the first word wraps around, and no bit is met before it (`Cursor.At.fits`).

Main statement: `indices_after`. -/
import PointsTo.Proofs.FiniteSets

set_option autoImplicit false

namespace PointsTo.BitSet

/-! ## Words -/

theorem mask_ne_zero (e : Nat) : mask e ≠ 0 := by
  intro zero
  have inWord : e % 64 < 64 := Nat.mod_lt e (by decide)
  have bit := congrArg (·.getLsbD (e % 64)) zero
  simp [mask, inWord] at bit

theorem and_mask (w : BitVec 64) (e : Nat) : w &&& mask e = if w.getLsbD (e % 64) then mask e else 0 :=
  BitVec.and_twoPow w (e % 64)

theorem and_mask_ne_zero (w : BitVec 64) (e : Nat) : (w &&& mask e != 0) = w.getLsbD (e % 64) := by
  rw [and_mask]
  cases w.getLsbD (e % 64) with
  | true => simpa using mask_ne_zero e
  | false => rfl

theorem or_eq_left_iff (a b : BitVec 64) : a ||| b = a ↔ a &&& b = b := by
  rw [and_eq_right_iff]
  constructor
  · intro same j set
    rw [← same, BitVec.getLsbD_or, set, Bool.or_true]
  · intro wider
    apply BitVec.eq_of_getLsbD_eq
    intro j _
    rw [BitVec.getLsbD_or]
    cases set : b.getLsbD j with
    | false => exact Bool.or_false _
    | true => rw [wider j set, Bool.or_true]

/-- A bit that is added changes its word exactly when it was not set. -/
theorem or_mask_ne (w : BitVec 64) (e : Nat) : (w ||| mask e != w) = !w.getLsbD (e % 64) := by
  have same : w ||| mask e = w ↔ w.getLsbD (e % 64) = true := by
    rw [or_eq_left_iff, and_mask]
    cases w.getLsbD (e % 64) with
    | true => simp
    | false => simpa using (mask_ne_zero e).symm
  cases set : w.getLsbD (e % 64) with
  | true => simpa using same.mpr set
  | false => simpa [set] using same

/-- As many words as bits take. -/
def wordsFor (bits : Nat) : Nat := (bits + 63) / 64

/-- Whether an element is in the set; beyond the stored bits no word is read. -/
def testBit (s : BitSet) (e : Nat) : Bool :=
  if inside : e < 64 * s.words.size then
    have stored : e / 64 < s.words.size := by omega
    s.words[e / 64] &&& mask e != 0
  else false

/-- Sets the bit of an element; says whether its word changed. -/
def setBit (s : BitSet) (e : Nat) : BitSet × Bool :=
  let larger := s.grown (wordsFor (e + 1))
  have stored : e / 64 < larger.words.size := by
    rw [size_grown, wordsFor]
    omega
  let old := larger.words[e / 64]
  (⟨larger.words.set (e / 64) (old ||| mask e)⟩, old ||| mask e != old)

/-- Adds the bits of words to words at the same places, as long as there are both, and gathers the bits that changed. -/
def mergeFrom (changed : BitVec 64) : List (BitVec 64) → List (BitVec 64) → List (BitVec 64) × BitVec 64
  | old :: olds, given :: others =>
    let (merged, changed) := mergeFrom (changed ||| old ^^^ (old ||| given)) olds others
    ((old ||| given) :: merged, changed)
  | olds, _ => (olds, changed)

/-- Adds the bits of another set; says whether any bit changed. -/
def mergeWords (s t : BitSet) : BitSet × Bool :=
  let (words, changed) := mergeFrom 0 (s.grown (wordsFor (64 * t.words.size))).words.toList t.words.toList
  (⟨words.toArray⟩, changed != 0)

/-- The count of the bits that are set. -/
def popcount (s : BitSet) : Nat := total (s.words.toList.map fun w => w.cpop.toNat)

theorem testBit_eq (s : BitSet) (e : Nat) : s.testBit e = s.contains e := by
  unfold testBit
  split
  · rename_i inside
    have stored : e / 64 < s.words.size := by omega
    simp only [and_mask_ne_zero, contains, word, Array.getElem?_eq_getElem stored, Option.getD_some]
  · rename_i outside
    have none : s.contains e = false := Bool.eq_false_iff.mpr fun set => outside (contains_lt set)
    exact none.symm

theorem setBit_eq (s : BitSet) (e : Nat) : s.setBit e = s.insert e := by
  have enough : wordsFor (e + 1) = e / 64 + 1 := by
    unfold wordsFor
    omega
  have stored : e / 64 < (s.grown (e / 64 + 1)).words.size := by
    rw [size_grown]
    omega
  have read : (s.grown (e / 64 + 1)).words[e / 64] = s.word (e / 64) := by
    rw [← word_grown s (e / 64 + 1), word, Array.getElem?_eq_getElem stored, Option.getD_some]
  have changed : (s.word (e / 64) ||| mask e != s.word (e / 64)) = !s.contains e := or_mask_ne _ e
  simp only [setBit, insert, enough, read, changed, Array.setIfInBounds_def, dif_pos stored]

theorem words_mergeFrom (changed : BitVec 64) (olds others : List (BitVec 64)) :
    (mergeFrom changed olds others).1 = olds.mapIdx fun i w => w ||| others[i]?.getD 0 := by
  induction olds generalizing changed others with
  | nil => cases others <;> rfl
  | cons old olds ih =>
      cases others with
      | nil =>
          have kept : ∀ words : List (BitVec 64), words.mapIdx (fun _ w => w) = words := fun words =>
            List.ext_getElem (by simp) (by simp)
          simp [mergeFrom, kept]
      | cons given others =>
          rw [mergeFrom, List.mapIdx_cons]
          exact congrArg _ (ih _ others)

/-- No bit has changed when every word has the bits that it was given. -/
theorem changed_mergeFrom (changed : BitVec 64) {olds others : List (BitVec 64)} (long : others.length ≤ olds.length) :
    (mergeFrom changed olds others).2 = 0 ↔
      changed = 0 ∧ ∀ i : Nat, olds[i]?.getD 0 &&& others[i]?.getD 0 = others[i]?.getD 0 := by
  induction olds generalizing changed others with
  | nil =>
      cases List.length_eq_zero_iff.mp (Nat.le_zero.mp long)
      simp [mergeFrom]
  | cons old olds ih =>
      cases others with
      | nil => simp [mergeFrom]
      | cons given others =>
          have same : old ^^^ (old ||| given) = 0 ↔ old &&& given = given :=
            BitVec.xor_eq_zero_iff.trans (eq_comm.trans (or_eq_left_iff old given))
          have gathered : changed ||| old ^^^ (old ||| given) = 0 ↔ changed = 0 ∧ old ^^^ (old ||| given) = 0 :=
            BitVec.or_eq_zero_iff
          rw [mergeFrom]
          refine (ih _ (Nat.le_of_succ_le_succ long)).trans ?_
          rw [gathered, same, and_assoc]
          refine and_congr_right fun _ => ⟨fun ⟨first, later⟩ i => ?_, fun all => ⟨all 0, fun i => all (i + 1)⟩⟩
          cases i with
          | zero => exact first
          | succ i => exact later i

theorem mergeWords_eq (s t : BitSet) : s.mergeWords t = s.union t := by
  have enough : wordsFor (64 * t.words.size) = t.words.size := by
    unfold wordsFor
    omega
  let larger := s.grown t.words.size
  have long : t.words.toList.length ≤ larger.words.toList.length := by
    rw [Array.length_toList, Array.length_toList, size_grown]
    exact Nat.le_max_right _ _
  have stored (u : BitSet) (i : Nat) : u.words.toList[i]?.getD 0 = u.word i := by
    rw [word, Array.getElem?_toList]
  have merged : (mergeFrom 0 larger.words.toList t.words.toList).1.toArray =
      larger.words.mapIdx fun i w => w ||| t.word i := by
    simp only [words_mergeFrom, stored]
    rw [← Array.toList_mapIdx]
  have changed : (mergeFrom 0 larger.words.toList t.words.toList).2 = 0 ↔ s.superset t = true := by
    rw [changed_mergeFrom 0 long, superset_iff_words]
    simp only [stored, true_and, larger, word_grown]
    refine ⟨fun all i _ => all i, fun words i => ?_⟩
    by_cases inside : i < t.words.size
    · exact words i inside
    · have zero : t.word i = 0 := by simp [word, Nat.not_lt.mp inside]
      rw [zero]
      exact BitVec.and_zero
  rw [mergeWords, enough]
  refine Prod.ext (congrArg BitSet.mk merged) ?_
  show ((mergeFrom 0 larger.words.toList t.words.toList).2 != 0) = !s.superset t
  cases wider : s.superset t with
  | true => simpa using changed.mpr wider
  | false => simpa [wider] using changed

theorem length_wordBits (w : BitVec 64) : (wordBits w).length = w.cpop.toNat := by
  have upTo : ∀ n, w.cpopNatRec n 0 = ((List.range n).filter fun i => w.getLsbD i).length := by
    intro n
    induction n with
    | zero => rfl
    | succ n ih =>
        rw [BitVec.cpopNatRec_succ, BitVec.cpopNatRec_eq, ih, List.range_succ, List.filter_append, List.length_append]
        cases set : w.getLsbD n <;> simp [set, Nat.add_comm]
  rw [wordBits_eq_filter, BitVec.toNat_cpop, upTo]

theorem popcount_eq (s : BitSet) : s.popcount = s.count := by
  have folded : s.count = (s.words.toList.map fun w => (wordBits w).length).foldl (· + ·) 0 := by
    rw [count, ← Array.foldl_toList, List.foldl_map]
  rw [folded, foldl_add_eq_total, popcount]
  simp only [length_wordBits, Nat.zero_add]

/-- The first bit of a word is the lowest one that is set. -/
theorem wordBits_of_ne_zero {w : BitVec 64} (something : w ≠ 0) : ∃ rest, wordBits w = w.ctz.toNat :: rest := by
  have set : w.ctz.toNat ∈ wordBits w := (mem_wordBits w _).mpr (BitVec.getLsbD_true_ctz_of_ne_zero something)
  have ascending := (ascends_wordBits w).1
  cases bits : wordBits w with
  | nil =>
      rw [bits] at set
      cases set
  | cons i rest =>
      have first : w.getLsbD i = true := (mem_wordBits w i).mp (by rw [bits]; exact List.mem_cons_self)
      rw [bits] at set ascending
      rcases List.mem_cons.mp set with same | later
      · exact ⟨rest, by rw [same]⟩
      · have before := (List.pairwise_cons.mp ascending).1 _ later
        rw [BitVec.getLsbD_false_of_lt_ctz before] at first
        cases first

/-! ## Iterating -/

namespace Cursor

/-- A call of an iterator: its answer, and where it is left.  The lowest bit of the word at hand is met, if its
place in the set is a number that fits a machine word; a word without bits is followed by the next stored one. -/
inductive Next (s : BitSet) : Cursor → Option (Nat × Cursor) → Prop
  | bit {c : Cursor} (something : c.word ≠ 0) (fits : c.word.ctz.toNat + c.offset.toNat < UInt64.size) :
      Next s c (some (c.word.ctz.toNat + c.offset.toNat,
        ⟨c.word ^^^ BitVec.twoPow 64 c.word.ctz.toNat, c.offset, c.taken⟩))
  | word {c : Cursor} {answer : Option (Nat × Cursor)} (nothing : c.word = 0) (stored : c.taken < s.words.size)
      (later : Next s ⟨s.words[c.taken], c.offset + 64, c.taken + 1⟩ answer) : Next s c answer
  | ended {c : Cursor} (nothing : c.word = 0) (last : s.words.size ≤ c.taken) : Next s c none

/-- Calls of an iterator until it has nothing more to give, and what they met. -/
inductive Drains (s : BitSet) : Cursor → List Nat → Prop
  | nil {c : Cursor} (ended : Next s c none) : Drains s c []
  | cons {c rest : Cursor} {e : Nat} {elements : List Nat} (next : Next s c (some (e, rest)))
      (later : Drains s rest elements) : Drains s c (e :: elements)

variable {s : BitSet} {c : Cursor}

theorem Next.unique {answer other : Option (Nat × Cursor)} (next : Next s c answer) (next' : Next s c other) :
    answer = other := by
  induction next with
  | bit something _ =>
      cases next' with
      | bit => rfl
      | word nothing => exact absurd nothing something
      | ended nothing => exact absurd nothing something
  | word nothing stored _ ih =>
      cases next' with
      | bit something => exact absurd nothing something
      | word _ _ later => exact ih later
      | ended _ last => exact absurd stored (Nat.not_lt.mpr last)
  | ended nothing last =>
      cases next' with
      | bit something => exact absurd nothing something
      | word _ stored => exact absurd stored (Nat.not_lt.mpr last)
      | ended => rfl

theorem Drains.unique {elements others : List Nat} (drains : Drains s c elements) (drains' : Drains s c others) :
    elements = others := by
  induction drains generalizing others with
  | nil ended =>
      cases drains' with
      | nil => rfl
      | cons next => cases ended.unique next
  | cons next _ ih =>
      cases drains' with
      | nil ended => cases ended.unique next
      | cons next' later =>
          cases next.unique next'
          rw [ih later]

section Small

variable (small : 64 * s.words.size ≤ UInt64.size)
include small

/-- A bit of the word at hand has a place below the end of the stored words. -/
theorem At.fits (reached : c.At s) (something : c.word ≠ 0) :
    c.word.ctz.toNat + c.offset.toNat < 64 * s.words.size := by
  have started : 0 < c.taken := Nat.pos_of_ne_zero fun unstarted => something (reached.unstarted unstarted)
  have inWord : c.word.ctz.toNat < 64 :=
    BitVec.lt_of_getLsbD (BitVec.getLsbD_true_ctz_of_ne_zero something)
  have inUse := reached.taken
  rw [reached.toNat_offset small started]
  omega

theorem At.next_of_ne_zero (reached : c.At s) (something : c.word ≠ 0) (fuel : Nat) :
    Next s c (Cursor.next? s fuel c) := by
  obtain ⟨rest, bits⟩ := wordBits_of_ne_zero something
  have inWord : c.word.ctz.toNat < 64 := BitVec.lt_of_getLsbD (BitVec.getLsbD_true_ctz_of_ne_zero something)
  have answer : Cursor.next? s fuel c = some (c.word.ctz.toNat + c.offset.toNat,
      ⟨c.word ^^^ BitVec.twoPow 64 c.word.ctz.toNat, c.offset, c.taken⟩) := by
    cases fuel <;> simp [Cursor.next?, bits, mask, Nat.mod_eq_of_lt inWord]
  rw [answer]
  exact .bit something ((reached.fits small something).trans_le small)

/-- What the cursor finds with enough fuel is what the next call answers. -/
theorem At.next_next? (reached : c.At s) {fuel : Nat} (enough : s.words.size ≤ c.taken + fuel) :
    Next s c (Cursor.next? s fuel c) := by
  induction fuel generalizing c with
  | zero =>
      by_cases nothing : c.word = 0
      · have answer : Cursor.next? s 0 c = none := by simp [Cursor.next?, nothing, wordBits]
        rw [answer]
        exact .ended nothing enough
      · exact reached.next_of_ne_zero small nothing 0
  | succ fuel ih =>
      by_cases nothing : c.word = 0
      · have bits : wordBits c.word = [] := by simp [nothing, wordBits]
        rw [Cursor.next?, bits]
        simp only [List.head?_nil]
        split
        · rename_i stored
          have read : s.word c.taken = s.words[c.taken] := by simp [BitSet.word, stored]
          have later := ih (reached.next small stored).1 (by simp only; omega)
          rw [read] at later ⊢
          exact .word nothing stored later
        · rename_i outside
          exact .ended nothing (Nat.not_lt.mp outside)
      · exact reached.next_of_ne_zero small nothing (fuel + 1)

/-- A call answers with the first of what remains. -/
theorem At.exists_next (reached : c.At s) : ∃ answer, Next s c answer ∧ Meets s (c.remaining s) answer :=
  ⟨_, reached.next_next? small (Nat.le_add_left s.words.size _), meets_next? small reached (Nat.le_add_left _ _)⟩

/-- An iteration meets what remains, in its order, and ends. -/
theorem At.drains {elements : List Nat} (reached : c.At s) (remain : c.remaining s = elements) :
    Drains s c elements := by
  obtain ⟨answer, next, met⟩ := reached.exists_next small
  rw [remain] at met
  induction elements generalizing c answer with
  | nil =>
      cases met
      exact .nil next
  | cons e elements ih =>
      cases met with
      | cons reached' =>
          obtain ⟨answer, next', met'⟩ := reached'.exists_next small
          exact .cons next (ih reached' rfl answer next' met')

end Small

end Cursor

/-! ## Finite sets -/

/-- A set has the elements of a finite set of numbers that take 32 bits. -/
structure Stores (s : BitSet) (f : Finset Nat) : Prop where
  denotes : s.Denotes f
  size : s.words.size ≤ ObjectSet.wordLimit

/-- What a set tells about a finite set, and that it does so on machine words. -/
structure Answers (s : BitSet) (f : Finset Nat) : Prop where
  contains : ∀ e, s.contains e = decide (e ∈ f)
  testBit : ∀ e, s.testBit e = s.contains e
  isEmpty : s.isEmpty = decide (f = ∅)
  count : s.count = f.card
  popcount : s.popcount = s.count
  /-- Iterating ends, after every element was met exactly once, in ascending order. -/
  drains : ∀ elements, Cursor.Drains s .start elements ↔ elements = f.sort (· ≤ ·)
  enumerate : s.enumerate = f.sort (· ≤ ·)

section Stored

variable {s t : BitSet} {f g : Finset Nat}

theorem Denotes.contains_eq (denotes : s.Denotes f) (e : Nat) : s.contains e = decide (e ∈ f) := by
  rw [Bool.eq_iff_iff, decide_eq_true_eq]
  exact denotes e

theorem Denotes.isEmpty_eq (denotes : s.Denotes f) : s.isEmpty = decide (f = ∅) := by
  rw [Bool.eq_iff_iff, decide_eq_true_eq, isEmpty_iff, Finset.eq_empty_iff_forall_notMem]
  refine forall_congr' fun e => ?_
  rw [← denotes e, Bool.not_eq_true]

theorem Denotes.superset_eq (left : s.Denotes f) (right : t.Denotes g) : s.superset t = decide (g ⊆ f) := by
  rw [Bool.eq_iff_iff, decide_eq_true_eq, superset_iff, Finset.subset_iff]
  refine forall_congr' fun e => ?_
  rw [left e, right e]

theorem Denotes.toList_eq (denotes : s.Denotes f) : s.toList = f.sort (· ≤ ·) :=
  s.ascends_toList.eq_sort denotes.mem_toList_iff

theorem Stores.answers (stores : s.Stores f) : s.Answers f := by
  have positions : 64 * ObjectSet.wordLimit ≤ UInt64.size := by decide
  have small := (Nat.mul_le_mul_left 64 stores.size).trans positions
  have listed := stores.denotes.toList_eq
  have drained := (Cursor.at_start s).drains small ((Cursor.remaining_start s).trans listed)
  constructor
  case contains => exact stores.denotes.contains_eq
  case testBit => exact s.testBit_eq
  case isEmpty => exact stores.denotes.isEmpty_eq
  case count => exact stores.denotes.count_eq_card
  case popcount => exact s.popcount_eq
  case drains => exact fun elements => ⟨fun drains => drains.unique drained, fun same => same ▸ drained⟩
  case enumerate => exact (enumerate_eq_toList small).trans listed

/-! ## Operations -/

/-- The operations on bit sets. -/
def operations : SetOperations BitSet where
  new := empty
  singleton e := (empty.insert e).1
  insert := insert
  union := union
  difference s t := t.missingFrom s

/-- The same on machine words. -/
def wordOperations : SetOperations BitSet where
  new := empty
  singleton e := (empty.setBit e).1
  insert := setBit
  union := mergeWords
  difference s t := t.missingFrom s

theorem wordOperations_eq : wordOperations = operations := by
  have bits : setBit = insert := funext fun s => funext fun e => setBit_eq s e
  have words : mergeWords = union := funext fun s => funext fun t => mergeWords_eq s t
  simp only [wordOperations, operations, bits, words]

theorem stores_empty : empty.Stores ∅ :=
  ⟨fun e => by simp [ObjectSet.contains_empty_bits], Nat.zero_le _⟩

theorem Stores.insert (stores : s.Stores f) {e : Nat} (small : e < 64 * ObjectSet.wordLimit) :
    (s.insert e).1.Stores (Insert.insert e f) := by
  refine ⟨fun x => ?_, ?_⟩
  · rw [contains_insert, Bool.or_eq_true, decide_eq_true_eq, stores.denotes x, Finset.mem_insert, or_comm]
  · have size := stores.size
    rw [size_insert]
    omega

/-- An insertion says that the set grew exactly when it did. -/
theorem Denotes.grew_insert (denotes : s.Denotes f) (e : Nat) : (s.insert e).2 = decide (f ≠ Insert.insert e f) := by
  have known : (s.insert e).2 = !s.contains e := rfl
  rw [known, denotes.contains_eq, ← decide_not, decide_eq_decide, ne_eq, not_congr]
  rw [eq_comm, Finset.insert_eq_self]

theorem Stores.union (left : s.Stores f) (right : t.Stores g) : (s.union t).1.Stores (f ∪ g) := by
  refine ⟨fun x => ?_, ?_⟩
  · rw [contains_union, Bool.or_eq_true, left.denotes x, right.denotes x, Finset.mem_union]
  · rw [size_union]
    exact max_le left.size right.size

/-- A union says that the set grew exactly when it did. -/
theorem Denotes.grew_union (left : s.Denotes f) (right : t.Denotes g) :
    (s.union t).2 = decide (f ≠ f ∪ g) := by
  have known : (s.union t).2 = !s.superset t := rfl
  rw [known, left.superset_eq right, ← decide_not, decide_eq_decide, ne_eq, not_congr]
  rw [eq_comm, Finset.union_eq_left]

theorem Stores.missingFrom (left : s.Stores f) (right : t.Stores g) : (t.missingFrom s).Stores (f \ g) := by
  refine ⟨fun x => ?_, ?_⟩
  · rw [contains_missingFrom, Bool.and_eq_true, left.denotes x, Bool.not_eq_true', ← Bool.not_eq_true,
      right.denotes x, Finset.mem_sdiff]
  · rw [size_missingFrom]
    exact left.size

end Stored

theorem simulates_finite : operations.Simulates finiteOperations Stores where
  new := stores_empty
  singleton e := stores_empty.insert (ObjectSet.toNat_lt_limit e)
  insert e stores := ⟨stores.insert (ObjectSet.toNat_lt_limit e), stores.denotes.grew_insert e.toNat⟩
  union left right := ⟨left.union right, left.denotes.grew_union right.denotes⟩
  difference left right := left.missingFrom right

/-- Bit sets behave as finite sets of numbers of 32 bits: whatever sets are made, copied, grown and subtracted, in
whatever order, on machine words or by elements, every call answers as it does on finite sets, and afterwards every
set answers about its elements, and every two sets about each other, as the finite sets do. -/
theorem indices_after (calls : List SetCall) :
    SetCall.after wordOperations calls = SetCall.after operations calls ∧
    (SetCall.after operations calls).2 = (SetCall.after finiteOperations calls).2 ∧
    (∀ i, ((SetCall.after operations calls).1 i).Answers ((SetCall.after finiteOperations calls).1 i)) ∧
    ∀ i j, ((SetCall.after operations calls).1 i).superset ((SetCall.after operations calls).1 j) =
      decide ((SetCall.after finiteOperations calls).1 j ⊆ (SetCall.after finiteOperations calls).1 i) := by
  obtain ⟨all, answers⟩ := SetCall.simulates_after simulates_finite calls
  exact ⟨by rw [wordOperations_eq], answers, fun i => (all i).answers,
    fun i j => (all i).denotes.superset_eq (all j).denotes⟩

/-- Taking away the highest element leaves words without bits at the end. -/
example :
    let sets := (SetCall.after wordOperations
      [.insert 0 3, .insert 0 200, .insert 1 200, .difference 2 0 1, .insert 1 64, .union 1 2]).1
    (sets 2).words.size = 4 ∧ (sets 2).enumerate = [3] ∧ (sets 1).enumerate = [3, 64, 200] := by
  decide +kernel

end PointsTo.BitSet
