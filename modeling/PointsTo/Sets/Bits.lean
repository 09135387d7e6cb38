/- # Bits -- a growing set of naturals in 64-bit words

Element `e` is bit `e % 64` of word `e / 64`; a word that is not stored reads as zero.  Nothing is ever
removed, so a set only gains bits and words.  Equality compares the stored words, so a trailing zero word
counts.

Main statements: `contains_insert`, `contains_union` and `contains_missingFrom` say what the operations do
to membership, and `mem_toList` that `toList` lists the members. -/
set_option autoImplicit false

namespace PointsTo

/-- A set of naturals, 64 to a word. -/
structure BitSet where
  words : Array (BitVec 64) := #[]
  deriving DecidableEq, Repr

namespace BitSet

/-- The set without elements and words. -/
def empty : BitSet := {}

/-- The word at a position, zero when it is not stored. -/
def word (s : BitSet) (i : Nat) : BitVec 64 := s.words[i]?.getD 0

/-- Whether an element is in the set. -/
def contains (s : BitSet) (e : Nat) : Bool := (s.word (e / 64)).getLsbD (e % 64)

/-- The same set with at least `count` stored words. -/
def grown (s : BitSet) (count : Nat) : BitSet :=
  ⟨s.words ++ Array.replicate (count - s.words.size) 0⟩

/-- The word with only bit `e % 64`. -/
def mask (e : Nat) : BitVec 64 := BitVec.twoPow 64 (e % 64)

/-- Adds an element; says whether it was new. -/
def insert (s : BitSet) (e : Nat) : BitSet × Bool :=
  let larger := s.grown (e / 64 + 1)
  (⟨larger.words.setIfInBounds (e / 64) (s.word (e / 64) ||| mask e)⟩, !s.contains e)

/-- Adds the elements of a list. -/
def insertAll (s : BitSet) (elements : List Nat) : BitSet :=
  elements.foldl (fun s e => (s.insert e).1) s

/-- Whether every element of `t` is in `s`. -/
def superset (s t : BitSet) : Bool :=
  Nat.all t.words.size fun i _ => s.word i &&& t.word i == t.word i

/-- Adds the elements of another set; says whether any was new. -/
def union (s t : BitSet) : BitSet × Bool :=
  (⟨(s.grown t.words.size).words.mapIdx fun i w => w ||| t.word i⟩, !s.superset t)

/-- The elements of `t` that are not in `s`, in as many words as `t` has. -/
def missingFrom (s t : BitSet) : BitSet :=
  ⟨t.words.mapIdx fun i w => w &&& ~~~ s.word i⟩

/-- Whether there are no elements. -/
def isEmpty (s : BitSet) : Bool := s.words.all (· == 0)

/-! ## Elements -/

/-- The positions of the bits of a word, in ascending order. -/
def wordBits (w : BitVec 64) : List Nat :=
  if w = 0 then [] else (List.range 64).filter fun i => w.getLsbD i

/-- The elements in the first `count` words, followed by `others`. -/
def elementsBelow (s : BitSet) : Nat → List Nat → List Nat
  | 0, others => others
  | count + 1, others =>
    elementsBelow s count ((wordBits (s.word count)).map (64 * count + ·) ++ others)

/-- The elements in ascending order. -/
def toList (s : BitSet) : List Nat := s.elementsBelow s.words.size []

/-- The count of elements. -/
def count (s : BitSet) : Nat :=
  s.words.foldl (fun total w => total + (wordBits w).length) 0

/-! ## Enumeration -/

/-- A position in the enumeration: the bits of the current word that were not visited, the offset of that
word, and the number of words taken so far.  The offset is a machine word; it starts one word below zero,
so that taking the first word brings it to zero. -/
structure Cursor where
  word : BitVec 64
  offset : BitVec 64
  taken : Nat
  deriving DecidableEq, Repr

/-- The position before the first word. -/
def Cursor.start : Cursor := ⟨0, -64, 0⟩

/-- The next element and the position behind it.  At most `fuel` words are taken on the way. -/
def Cursor.next? (s : BitSet) : Nat → Cursor → Option (Nat × Cursor)
  | fuel, c =>
    match (wordBits c.word).head? with
    | some i => some (i + c.offset.toNat, { c with word := c.word ^^^ mask i })
    | none =>
      match fuel with
      | 0 => none
      | fuel + 1 =>
        if c.taken < s.words.size then
          Cursor.next? s fuel ⟨s.word c.taken, c.offset + 64, c.taken + 1⟩
        else none

/-- At most `fuel` elements from a position on. -/
def Cursor.drain (s : BitSet) : Nat → Cursor → List Nat
  | 0, _ => []
  | fuel + 1, c =>
    match Cursor.next? s s.words.size c with
    | some (e, c) => e :: Cursor.drain s fuel c
    | none => []

/-- The elements in the order in which the cursor meets them. -/
def enumerate (s : BitSet) : List Nat := Cursor.drain s (64 * s.words.size) Cursor.start

/-! ## Membership -/

theorem word_grown (s : BitSet) (count i : Nat) : (s.grown count).word i = s.word i := by
  simp only [word, grown, Array.getElem?_append]
  split
  · rfl
  · rename_i outside
    simp only [Array.getElem?_replicate, Array.getElem?_eq_none (Nat.not_lt.mp outside)]
    split <;> rfl

theorem size_grown (s : BitSet) (count : Nat) :
    (s.grown count).words.size = max s.words.size count := by
  simp only [grown, Array.size_append, Array.size_replicate]
  omega

theorem word_insert (s : BitSet) (e i : Nat) :
    (s.insert e).1.word i = if i = e / 64 then s.word i ||| mask e else s.word i := by
  have stored : e / 64 < (s.grown (e / 64 + 1)).words.size := by
    rw [size_grown]
    omega
  have others := word_grown s (e / 64 + 1) i
  simp only [word] at others
  by_cases same : i = e / 64
  · subst same
    simp only [insert, word, Array.getElem?_setIfInBounds_self, stored, ↓reduceIte, Option.getD_some]
  · simp only [insert, word, same, ↓reduceIte]
    rw [Array.getElem?_setIfInBounds_ne (Ne.symm same)]
    exact others

theorem contains_insert (s : BitSet) (e x : Nat) :
    (s.insert e).1.contains x = (s.contains x || decide (x = e)) := by
  simp only [contains, word_insert]
  have inWord : x % 64 < 64 := Nat.mod_lt x (by decide)
  by_cases same : x / 64 = e / 64
  · have element : e % 64 = x % 64 ↔ x = e := by omega
    simp [same, mask, inWord, ← element, eq_comm]
  · have different : x ≠ e := fun h => same (by rw [h])
    simp [same, different]

theorem word_union (s t : BitSet) (i : Nat) :
    (s.union t).1.word i = s.word i ||| t.word i := by
  have read := word_grown s t.words.size i
  simp only [word] at read
  simp only [union, word, Array.getElem?_mapIdx]
  by_cases stored : i < (s.grown t.words.size).words.size
  · simp only [Array.getElem?_eq_getElem stored, Option.map_some, Option.getD_some] at read ⊢
    rw [read]
  · have outsideS : s.words.size ≤ i := by
      rw [size_grown] at stored
      omega
    have outsideT : t.words.size ≤ i := by
      rw [size_grown] at stored
      omega
    simp [Array.getElem?_eq_none (Nat.not_lt.mp stored), Array.getElem?_eq_none outsideS,
      Array.getElem?_eq_none outsideT]

theorem contains_union (s t : BitSet) (x : Nat) :
    (s.union t).1.contains x = (s.contains x || t.contains x) := by
  simp [contains, word_union, BitVec.getLsbD_or]

theorem word_missingFrom (s t : BitSet) (i : Nat) :
    (s.missingFrom t).word i = t.word i &&& ~~~ s.word i := by
  simp only [missingFrom, word, Array.getElem?_mapIdx]
  by_cases stored : i < t.words.size
  · simp [Array.getElem?_eq_getElem stored]
  · simp [Array.getElem?_eq_none (Nat.not_lt.mp stored)]

theorem contains_missingFrom (s t : BitSet) (x : Nat) :
    (s.missingFrom t).contains x = (t.contains x && !s.contains x) := by
  have inWord : x % 64 < 64 := Nat.mod_lt x (by decide)
  simp [contains, word_missingFrom, inWord]

theorem mem_wordBits (w : BitVec 64) (i : Nat) : i ∈ wordBits w ↔ w.getLsbD i = true := by
  unfold wordBits
  split
  · rename_i zero
    simp [zero]
  · simp only [List.mem_filter, List.mem_range, and_iff_right_iff_imp]
    exact BitVec.lt_of_getLsbD

theorem mem_elementsBelow (s : BitSet) (count : Nat) (others : List Nat) (x : Nat) :
    x ∈ s.elementsBelow count others ↔ (x / 64 < count ∧ s.contains x = true) ∨ x ∈ others := by
  induction count generalizing others with
  | zero => simp [elementsBelow]
  | succ count ih =>
    rw [elementsBelow, ih]
    simp only [List.mem_append, List.mem_map, mem_wordBits, contains]
    constructor
    · rintro (⟨below, set⟩ | ⟨i, set, rfl⟩ | other)
      · exact .inl ⟨by omega, set⟩
      · have inWord : i < 64 := BitVec.lt_of_getLsbD set
        have quotient : (64 * count + i) / 64 = count := by omega
        have rest : (64 * count + i) % 64 = i := by omega
        exact .inl ⟨by omega, by rw [quotient, rest]; exact set⟩
      · exact .inr other
    · rintro (⟨below, set⟩ | other)
      · by_cases less : x / 64 < count
        · exact .inl ⟨less, set⟩
        · have last : x / 64 = count := by omega
          exact .inr (.inl ⟨x % 64, last ▸ set, by omega⟩)
      · exact .inr (.inr other)

theorem mem_toList (s : BitSet) (x : Nat) : x ∈ s.toList ↔ s.contains x = true := by
  rw [toList, mem_elementsBelow]
  simp only [List.not_mem_nil, or_false, and_iff_right_iff_imp]
  intro set
  refine Nat.lt_of_not_le fun outside => ?_
  simp [contains, word, Array.getElem?_eq_none outside] at set

theorem contains_of_isEmpty {s : BitSet} (nothing : s.isEmpty = true) (x : Nat) :
    s.contains x = false := by
  have zero : s.word (x / 64) = 0 := by
    simp only [isEmpty, Array.all_eq_true, beq_iff_eq] at nothing
    unfold word
    by_cases inside : x / 64 < s.words.size
    · simp [inside, nothing _ inside]
    · simp [inside]
  simp [contains, zero]

theorem contains_insertAll (s : BitSet) (elements : List Nat) (x : Nat) :
    (s.insertAll elements).contains x = (s.contains x || decide (x ∈ elements)) := by
  induction elements generalizing s with
  | nil => simp [insertAll]
  | cons e rest ih =>
    have step := ih (s.insert e).1
    simp only [insertAll, List.foldl_cons] at step ⊢
    rw [step, contains_insert]
    simp [Bool.or_assoc]

end BitSet

end PointsTo
