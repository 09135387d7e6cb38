/- # FiniteSets -- points-to sets behave as finite sets

A set of object numbers has one of two forms, and every operation chooses the form of its result anew.
`ObjectSet.Canonical` says which form it is: a strictly ascending list as long as there are at most
`sparseCapacity` elements, a bit set beyond.  A canonical set `Represents` the finite set of its elements.
The operations keep canonical sets canonical and do to the finite sets what one expects, so no sequence of
calls can tell the two apart.

Main statements: `Represents.answers`, what a set answers about its finite set, and `answers_after`, the same
after any sequence of calls on any number of sets. -/
import Mathlib.Logic.Function.Basic
import PointsTo.Proofs.BitSets

set_option autoImplicit false

namespace PointsTo

namespace ObjectSet

/-- As many words as the elements of sets take. -/
def wordLimit : Nat := 2 ^ 26

/-- A small set is an ascending list, and only a large one a bit set. -/
def Canonical : ObjectSet → Prop
  | .sparse elements => Ascends elements ∧ elements.length ≤ sparseCapacity ∧
      ∀ e ∈ elements, e < 64 * wordLimit
  | .dense bits => sparseCapacity < bits.count ∧ bits.words.size ≤ wordLimit

/-- A set is canonical and has the elements of a finite set. -/
structure Represents (s : ObjectSet) (f : Finset Nat) : Prop where
  canonical : s.Canonical
  mem : ∀ e, e ∈ s ↔ e ∈ f

/-! ## Answers -/

section Answers

variable {s t : ObjectSet} {f g : Finset Nat}

theorem Canonical.ordered (canonical : s.Canonical) : s.Ordered := by
  cases s with
  | sparse elements => exact canonical.1
  | dense bits => exact bits.ascends_toList

theorem count_eq_length (s : ObjectSet) : s.count = s.toList.length := by
  cases s with
  | sparse elements => rfl
  | dense bits => exact bits.count_eq_length

theorem count_of_isEmpty {s : ObjectSet} (nothing : s.isEmpty = true) : s.count = 0 := by
  rw [count_eq_length, toList_of_isEmpty nothing, List.length_nil]

theorem Represents.mem_toList_iff (represents : s.Represents f) (e : Nat) : e ∈ s.toList ↔ e ∈ f :=
  (mem_toList s e).trans (represents.mem e)

theorem Represents.count_eq_card (represents : s.Represents f) : s.count = f.card :=
  (count_eq_length s).trans
    (Ascends.length_eq_card represents.canonical.ordered represents.mem_toList_iff)

theorem Represents.contains_eq (represents : s.Represents f) (e : Nat) :
    s.contains e = decide (e ∈ f) := by
  rw [Bool.eq_iff_iff, decide_eq_true_eq]
  exact represents.mem e

theorem Represents.isEmpty_eq (represents : s.Represents f) : s.isEmpty = decide (f = ∅) := by
  cases empty : s.isEmpty with
  | true =>
      have none : f = ∅ := by
        apply Finset.eq_empty_of_forall_notMem
        intro e member
        exact not_mem_of_isEmpty empty e ((represents.mem e).mpr member)
      exact (decide_eq_true none).symm
  | false =>
      obtain ⟨e, member⟩ := exists_mem_of_isEmpty empty
      have some : f ≠ ∅ := Finset.ne_empty_of_mem ((represents.mem e).mp member)
      exact (decide_eq_false some).symm

/-- Whether one set has all elements of another does not depend on their forms. -/
theorem Represents.superset_eq (left : s.Represents f) (right : t.Represents g) :
    s.superset t = decide (g ⊆ f) := by
  have elementwise (elements : List Nat) (whole : ∀ e, e ∈ elements ↔ e ∈ g) :
      elements.all s.contains = true ↔ g ⊆ f := by
    rw [List.all_eq_true]
    constructor
    · intro all e member
      exact (left.mem e).mp (all e ((whole e).mpr member))
    · intro subset e member
      exact (left.mem e).mpr (subset ((whole e).mp member))
  have listed : ∀ e, e ∈ t.toList ↔ e ∈ g := fun e => (mem_toList t e).trans (right.mem e)
  rw [Bool.eq_iff_iff, decide_eq_true_eq]
  cases t with
  | sparse elements =>
      have all : s.superset (.sparse elements) = elements.all s.contains := by cases s <;> rfl
      rw [all]
      exact elementwise elements listed
  | dense bits =>
      cases s with
      | dense others =>
          have compared : others.superset bits = true ↔ g ⊆ f := by
            rw [BitSet.superset_iff]
            constructor
            · intro wider e member
              exact (left.mem e).mp (wider e ((right.mem e).mpr member))
            · intro subset e member
              exact (left.mem e).mpr (subset ((right.mem e).mp member))
          exact compared
      | sparse elements =>
          -- The shortcut by counts is right because a subset has no more elements.
          have sizes : g ⊆ f → bits.count ≤ (ObjectSet.sparse elements).count := by
            intro subset
            have counted : bits.count = g.card := right.count_eq_card
            rw [left.count_eq_card, counted]
            exact Finset.card_le_card subset
          rw [superset, Bool.and_eq_true, decide_eq_true_eq, elementwise bits.toList listed]
          exact ⟨And.right, fun subset => ⟨sizes subset, subset⟩⟩

/-- An insertion says that the set grew exactly when it did. -/
theorem Represents.grew_insert (represents : s.Represents f) (e : Nat) :
    (s.insert e).2 = decide (f ≠ Insert.insert e f) := by
  have known : (s.insert e).2 = !s.contains e := by cases s <;> rfl
  rw [known, represents.contains_eq, ← decide_not, decide_eq_decide, ne_eq, not_congr]
  rw [eq_comm, Finset.insert_eq_self]

/-- A union says that the set grew exactly when it did. -/
theorem Represents.grew_union (left : s.Represents f)
    (right : t.Represents g) : (s.union t).2 = decide (f ≠ f ∪ g) := by
  have known : (s.union t).2 = !s.superset t := rfl
  rw [known, left.superset_eq right, ← decide_not, decide_eq_decide, ne_eq, not_congr]
  rw [eq_comm, Finset.union_eq_left]

/-- The elements as an iteration meets them. -/
def enumerate : ObjectSet → List Nat
  | .sparse elements => elements
  | .dense bits => bits.enumerate

theorem Represents.enumerate_eq (represents : s.Represents f) : s.enumerate = f.sort (· ≤ ·) := by
  have listed : s.enumerate = s.toList := by
    cases s with
    | sparse elements => rfl
    | dense bits =>
        have small : bits.words.size ≤ wordLimit := represents.canonical.2
        have positions : 64 * wordLimit ≤ UInt64.size := by decide
        exact BitSet.enumerate_eq_toList ((Nat.mul_le_mul_left 64 small).trans positions)
  rw [listed]
  exact Ascends.eq_sort represents.canonical.ordered represents.mem_toList_iff

/-- What a set tells about the finite set that it represents. -/
structure Answers (s : ObjectSet) (f : Finset Nat) : Prop where
  contains : ∀ e, s.contains e = decide (e ∈ f)
  isEmpty : s.isEmpty = decide (f = ∅)
  count : s.count = f.card
  /-- Iterating meets every element exactly once, in ascending order. -/
  enumerate : s.enumerate = f.sort (· ≤ ·)
  sparse : (∃ elements, s = .sparse elements ∧ Ascends elements ∧ elements.length ≤ sparseCapacity) ↔
    f.card ≤ sparseCapacity
  dense : (∃ bits, s = .dense bits) ↔ sparseCapacity < f.card

theorem Represents.answers (represents : s.Represents f) : s.Answers f := by
  refine ⟨represents.contains_eq, represents.isEmpty_eq, represents.count_eq_card,
    represents.enumerate_eq, ?_, ?_⟩ <;> rw [← represents.count_eq_card]
  · constructor
    · rintro ⟨elements, rfl, -, few⟩
      exact few
    · intro few
      have canonical := represents.canonical
      cases s with
      | sparse elements => exact ⟨elements, rfl, canonical.1, canonical.2.1⟩
      | dense bits => exact absurd canonical.1 (Nat.not_lt.mpr few)
  · constructor
    · rintro ⟨bits, rfl⟩
      exact represents.canonical.1
    · intro many
      have canonical := represents.canonical
      cases s with
      | sparse elements => exact absurd canonical.2.1 (Nat.not_le.mpr many)
      | dense bits => exact ⟨bits, rfl⟩

end Answers

/-! ## Operations -/

section Forms

variable {f : Finset Nat}

theorem represents_sparse {elements : List Nat} (mem : ∀ e, e ∈ elements ↔ e ∈ f)
    (ascends : Ascends elements) (few : f.card ≤ sparseCapacity) (below : ∀ e ∈ f, e < 64 * wordLimit) :
    (sparse elements).Represents f := by
  have length := ascends.length_eq_card mem
  refine ⟨⟨ascends, length ▸ few, fun e member => below e ((mem e).mp member)⟩, fun e => ?_⟩
  rw [← mem e, ← mem_toList]
  rfl

theorem represents_dense {bits : BitSet} (denotes : bits.Denotes f) (many : sparseCapacity < f.card)
    (small : bits.words.size ≤ wordLimit) : (dense bits).Represents f :=
  ⟨⟨denotes.count_eq_card.symm ▸ many, small⟩, denotes⟩

theorem size_insertAll_empty_le {elements : List Nat} (below : ∀ e ∈ elements, e < 64 * wordLimit) :
    (BitSet.empty.insertAll elements).words.size ≤ wordLimit :=
  BitSet.size_insertAll_le (Nat.zero_le _) below

/-- An ascending list is put into the form that its length asks for. -/
theorem represents_ofAscending {elements : List Nat} (mem : ∀ e, e ∈ elements ↔ e ∈ f)
    (ascends : Ascends elements) (below : ∀ e ∈ f, e < 64 * wordLimit) :
    (ofAscending elements).Represents f := by
  have length := ascends.length_eq_card mem
  unfold ofAscending
  split
  · rename_i few
    exact represents_sparse mem ascends (length ▸ few) below
  · rename_i many
    refine represents_dense (fun e => ?_) (length ▸ Nat.not_le.mp many) ?_
    · rw [BitSet.contains_insertAll, contains_empty_bits, Bool.false_or, decide_eq_true_eq, mem]
    · exact size_insertAll_empty_le fun e member => below e ((mem e).mp member)

end Forms

section Operations

variable {s t : ObjectSet} {f g : Finset Nat}

theorem Represents.below (represents : s.Represents f) : ∀ e ∈ f, e < 64 * wordLimit := by
  intro e member
  have held := (represents.mem e).mpr member
  have canonical := represents.canonical
  cases s with
  | sparse elements => exact canonical.2.2 e ((mem_toList _ e).mpr held)
  | dense bits =>
      have bound := BitSet.contains_lt (show bits.contains e = true from held)
      have small : bits.words.size ≤ wordLimit := canonical.2
      omega

theorem represents_empty : empty.Represents ∅ :=
  represents_sparse (fun _ => by simp) List.Pairwise.nil (Nat.zero_le _) (fun _ => by simp)

theorem represents_singleton {e : Nat} (small : e < 64 * wordLimit) : (singleton e).Represents {e} := by
  refine represents_sparse (fun x => by simp) (List.pairwise_singleton _ e) ?_ (fun x member => ?_)
  · rw [Finset.card_singleton]
    decide
  · rw [Finset.mem_singleton] at member
    exact member ▸ small

theorem Represents.insert (represents : s.Represents f) {e : Nat} (small : e < 64 * wordLimit) :
    (s.insert e).1.Represents (Insert.insert e f) := by
  have mem : ∀ x, x ∈ (s.insert e).1 ↔ x ∈ Insert.insert e f := by
    intro x
    rw [mem_insert, Finset.mem_insert, represents.mem]
  have below : ∀ x ∈ Insert.insert e f, x < 64 * wordLimit := by
    intro x member
    rcases Finset.mem_insert.mp member with rfl | old
    · exact small
    · exact represents.below x old
  have canonical := represents.canonical
  cases s with
  | sparse elements =>
      refine represents_ofAscending (fun x => ?_) (pairwise_insertAscending e canonical.1) below
      rw [← mem x, ObjectSet.insert, mem_ofAscending]
  | dense bits =>
      have many : sparseCapacity < (Insert.insert e f).card := by
        refine Nat.lt_of_lt_of_le canonical.1 ?_
        have counted : bits.count = f.card := represents.count_eq_card
        rw [counted]
        exact Finset.card_le_card (Finset.subset_insert e f)
      have size : bits.words.size ≤ wordLimit := canonical.2
      have grown : (bits.insert e).1.words.size ≤ wordLimit := by
        rw [BitSet.size_insert]
        omega
      exact represents_dense mem many grown

theorem Represents.union (left : s.Represents f) (right : t.Represents g) :
    (s.union t).1.Represents (f ∪ g) := by
  have mem : ∀ x, x ∈ (s.union t).1 ↔ x ∈ f ∪ g := by
    intro x
    rw [mem_union, Finset.mem_union, left.mem, right.mem]
  have below : ∀ x ∈ f ∪ g, x < 64 * wordLimit := by
    intro x member
    rcases Finset.mem_union.mp member with first | second
    · exact left.below x first
    · exact right.below x second
  have manyLeft : sparseCapacity < f.card → sparseCapacity < (f ∪ g).card := fun many =>
    Nat.lt_of_lt_of_le many (Finset.card_le_card Finset.subset_union_left)
  have manyRight : sparseCapacity < g.card → sparseCapacity < (f ∪ g).card := fun many =>
    Nat.lt_of_lt_of_le many (Finset.card_le_card Finset.subset_union_right)
  have canonicalLeft := left.canonical
  have canonicalRight := right.canonical
  have countLeft := left.count_eq_card
  have countRight := right.count_eq_card
  cases s with
  | sparse elements =>
      cases t with
      | sparse others =>
          refine represents_ofAscending (fun x => ?_)
            (pairwise_unionAscending canonicalLeft.1 others) below
          rw [← mem x, ObjectSet.union, mem_ofAscending]
      | dense bits =>
          refine represents_dense mem (manyRight (countRight ▸ canonicalRight.1)) ?_
          rw [BitSet.size_union]
          exact max_le (size_insertAll_empty_le canonicalLeft.2.2) canonicalRight.2
  | dense bits =>
      have many := manyLeft (countLeft ▸ canonicalLeft.1)
      cases t with
      | sparse elements =>
          exact represents_dense mem many
            (BitSet.size_insertAll_le canonicalLeft.2 canonicalRight.2.2)
      | dense others =>
          refine represents_dense mem many ?_
          rw [BitSet.size_union]
          exact max_le canonicalLeft.2 canonicalRight.2

theorem Represents.difference (left : s.Represents f) (right : t.Represents g) :
    (s.difference t).Represents (f \ g) := by
  have mem : ∀ x, x ∈ s.difference t ↔ x ∈ f \ g := by
    intro x
    rw [mem_difference, Finset.mem_sdiff, left.mem, right.mem]
  have below : ∀ x ∈ f \ g, x < 64 * wordLimit := by
    intro x member
    exact left.below x (Finset.mem_sdiff.mp member).1
  have filtered : (ofAscending (s.toList.filter fun e => !t.contains e)).Represents (f \ g) := by
    refine represents_ofAscending (fun x => ?_) (left.canonical.ordered.filter _) below
    rw [← mem x, List.mem_filter, mem_difference, mem_toList, mem_iff_contains t]
    simp
  cases s with
  | sparse elements => exact filtered
  | dense bits =>
      cases t with
      | sparse others => exact filtered
      | dense others =>
          have denotes : (others.missingFrom bits).Denotes (f \ g) := by
            intro x
            have left : bits.contains x = true ↔ x ∈ f := left.mem x
            have right : others.contains x = true ↔ x ∈ g := right.mem x
            rw [BitSet.contains_missingFrom, Finset.mem_sdiff, ← left, ← right]
            simp
          have size : (others.missingFrom bits).words.size ≤ wordLimit := by
            rw [BitSet.size_missingFrom]
            exact left.canonical.2
          have counted := denotes.count_eq_card
          simp only [ObjectSet.difference]
          split
          · rename_i many
            exact represents_dense denotes (counted ▸ many) size
          · rename_i few
            refine represents_sparse (fun x => ?_) (BitSet.ascends_toList _) ?_ below
            · rw [BitSet.mem_toList, denotes x]
            · exact counted ▸ Nat.not_lt.mp few

end Operations

end ObjectSet

/-! ## Sequences of calls -/

/-- Operations on sets of numbers, of whatever make.  Those that change a set say whether it grew. -/
structure SetOperations (S : Type) where
  new : S
  singleton : Nat → S
  insert : S → Nat → S × Bool
  union : S → S → S × Bool
  difference : S → S → S

/-- The operations on points-to sets. -/
def ObjectSet.operations : SetOperations ObjectSet where
  new := empty
  singleton := singleton
  insert := insert
  union := union
  difference := difference

/-- The same on finite sets. -/
def finiteOperations : SetOperations (Finset Nat) where
  new := ∅
  singleton e := {e}
  insert f e := (insert e f, decide (f ≠ insert e f))
  union f g := (f ∪ g, decide (f ≠ f ∪ g))
  difference f g := f \ g

/-- A call on numbered sets. -/
inductive SetCall
  /-- Makes a set without elements. -/
  | new (target : Nat)
  | singleton (target : Nat) (e : UInt32)
  | clone (target source : Nat)
  | insert (target : Nat) (e : UInt32)
  | union (target source : Nat)
  /-- Makes the set of the elements of one set that another does not have. -/
  | difference (target left right : Nat)

namespace SetCall

variable {S : Type} (operations : SetOperations S)

/-- The sets after a call, and what it answers. -/
def apply (sets : Nat → S) : SetCall → (Nat → S) × Option Bool
  | new target => (Function.update sets target operations.new, none)
  | singleton target e => (Function.update sets target (operations.singleton e.toNat), none)
  | clone target source => (Function.update sets target (sets source), none)
  | insert target e =>
    let (set, grew) := operations.insert (sets target) e.toNat
    (Function.update sets target set, some grew)
  | union target source =>
    let (set, grew) := operations.union (sets target) (sets source)
    (Function.update sets target set, some grew)
  | difference target left right =>
    (Function.update sets target (operations.difference (sets left) (sets right)), none)

/-- The sets after calls, starting without elements, and what the calls answered. -/
def after (calls : List SetCall) : (Nat → S) × List (Option Bool) :=
  calls.foldl
    (fun (sets, answers) call =>
      let (sets, answer) := call.apply operations sets
      (sets, answers ++ [answer]))
    (fun _ => operations.new, [])

end SetCall

/-- Operations do to sets what others do to the sets that they stand for, and answer alike. -/
structure SetOperations.Simulates {S T : Type} (operations : SetOperations S) (others : SetOperations T)
    (stands : S → T → Prop) : Prop where
  new : stands operations.new others.new
  singleton : ∀ e : UInt32, stands (operations.singleton e.toNat) (others.singleton e.toNat)
  insert : ∀ {s t} (e : UInt32), stands s t →
    stands (operations.insert s e.toNat).1 (others.insert t e.toNat).1 ∧
      (operations.insert s e.toNat).2 = (others.insert t e.toNat).2
  union : ∀ {s s' t t'}, stands s t → stands s' t' →
    stands (operations.union s s').1 (others.union t t').1 ∧ (operations.union s s').2 = (others.union t t').2
  difference : ∀ {s s' t t'}, stands s t → stands s' t' →
    stands (operations.difference s s') (others.difference t t')

namespace SetCall

section Simulated

variable {S T : Type} {operations : SetOperations S} {others : SetOperations T} {stands : S → T → Prop}

theorem stands_update {sets : Nat → S} {sets' : Nat → T} (all : ∀ i, stands (sets i) (sets' i)) {s : S} {t : T}
    (last : stands s t) (target i : Nat) :
    stands (Function.update sets target s i) (Function.update sets' target t i) := by
  by_cases same : i = target
  · subst same
    rw [Function.update_self, Function.update_self]
    exact last
  · rw [Function.update_of_ne same, Function.update_of_ne same]
    exact all i

variable (simulates : operations.Simulates others stands)
include simulates

/-- A call does the same to sets and to those that they stand for, and gives the same answer. -/
theorem simulates_apply {sets : Nat → S} {sets' : Nat → T} (all : ∀ i, stands (sets i) (sets' i)) (call : SetCall) :
    (∀ i, stands ((call.apply operations sets).1 i) ((call.apply others sets').1 i)) ∧
      (call.apply operations sets).2 = (call.apply others sets').2 := by
  cases call with
  | new target => exact ⟨stands_update all simulates.new target, rfl⟩
  | singleton target e => exact ⟨stands_update all (simulates.singleton e) target, rfl⟩
  | clone target source => exact ⟨stands_update all (all source) target, rfl⟩
  | insert target e =>
      obtain ⟨next, grew⟩ := simulates.insert e (all target)
      exact ⟨stands_update all next target, congrArg some grew⟩
  | union target source =>
      obtain ⟨next, grew⟩ := simulates.union (all target) (all source)
      exact ⟨stands_update all next target, congrArg some grew⟩
  | difference target left right =>
      exact ⟨stands_update all (simulates.difference (all left) (all right)) target, rfl⟩

theorem simulates_after (calls : List SetCall) :
    (∀ i, stands ((after operations calls).1 i) ((after others calls).1 i)) ∧
      (after operations calls).2 = (after others calls).2 := by
  induction calls using List.reverseRecOn with
  | nil => exact ⟨fun _ => simulates.new, rfl⟩
  | append_singleton earlier call ih =>
      obtain ⟨all, answers⟩ := ih
      obtain ⟨next, answer⟩ := simulates_apply simulates all call
      have last {R : Type} (made : SetOperations R) : after made (earlier ++ [call]) =
          ((call.apply made (after made earlier).1).1,
            (after made earlier).2 ++ [(call.apply made (after made earlier).1).2]) := by
        rw [after, List.foldl_append]
        rfl
      rw [last, last]
      exact ⟨next, by rw [answers, answer]⟩

end Simulated

end SetCall

namespace ObjectSet

/-- All sets represent their finite sets. -/
def AllRepresent (sets : Nat → ObjectSet) (finite : Nat → Finset Nat) : Prop :=
  ∀ i, (sets i).Represents (finite i)

theorem toNat_lt_limit (e : UInt32) : e.toNat < 64 * wordLimit := e.toNat_lt

theorem simulates_finite : operations.Simulates finiteOperations Represents where
  new := represents_empty
  singleton e := represents_singleton (toNat_lt_limit e)
  insert e represents := ⟨represents.insert (toNat_lt_limit e), represents.grew_insert e.toNat⟩
  union left right := ⟨left.union right, left.grew_union right⟩
  difference left right := left.difference right

theorem allRepresent_after (calls : List SetCall) :
    AllRepresent (SetCall.after operations calls).1 (SetCall.after finiteOperations calls).1 ∧
      (SetCall.after operations calls).2 = (SetCall.after finiteOperations calls).2 :=
  SetCall.simulates_after simulates_finite calls

end ObjectSet

end PointsTo
