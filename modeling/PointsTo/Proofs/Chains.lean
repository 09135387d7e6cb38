/- # Chains -- the first answer on a superclass chain

A lookup on a superclass chain asks a class, then its superclass and so on, and ends with the first answer or at
the top (`Climbs`).  A whole chain is climbed this way.  When no class is its own superclass, the first answer is
the one of the nearest class (`NearestAnswer`), and there is none exactly when no class of the chain has one.

Main statements: `IsChain.findSome?_eq_some_iff` and `IsChain.findSome?_eq_none_iff`. -/
import Mathlib.Logic.Relator
import PointsTo.Proofs.Naming

set_option autoImplicit false

namespace PointsTo.Program

open Relation (ReflTransGen TransGen)

variable {p : Program} {β : Type} {look : ClassId → Option β} {c d : ClassId} {b : β}

/-- The walk up from a class ends with the first answer, or at the top without one. -/
inductive Climbs (p : Program) {β : Type} (look : ClassId → Option β) : ClassId → Option β → Prop
  | found {c : ClassId} {b : β} (here : look c = some b) : Climbs p look c (some b)
  | above {c d : ClassId} {answer : Option β} (absent : look c = none) (super : p.superOf c = some d)
      (rest : Climbs p look d answer) : Climbs p look c answer
  | top {c : ClassId} (absent : look c = none) (last : p.superOf c = none) : Climbs p look c none

/-- A class of a superclass chain has an answer, and no class below it on the chain has one. -/
def NearestAnswer (p : Program) (look : ClassId → Option β) (c : ClassId) (b : β) : Prop :=
  ∃ d, Reaches p.superLinks c d ∧ look d = some b ∧
    ∀ e, Reaches p.superLinks c e → Passes p.superLinks e d → look e = none

theorem superOf_of_superLinks (link : d ∈ p.superLinks c) : p.superOf c = some d :=
  Option.mem_toList.mp link

/-- Of two classes on one superclass chain one is above the other. -/
theorem reaches_total {e : ClassId} (one : Reaches p.superLinks c d) (other : Reaches p.superLinks c e) :
    Reaches p.superLinks d e ∨ Reaches p.superLinks e d :=
  ReflTransGen.total_of_right_unique (fun _ _ _ link link' =>
    Option.mem_unique (superOf_of_superLinks link) (superOf_of_superLinks link')) one other

/-- A whole chain is climbed to the first answer. -/
theorem IsChain.climbs {chain : List ClassId} (whole : p.IsChain c chain) (look : ClassId → Option β) :
    p.Climbs look c (chain.findSome? look) := by
  induction whole with
  | @top c last =>
      rw [List.findSome?_cons]
      cases here : look c with
      | none => exact .top here last
      | some b => exact .found here
  | @up c d rest super _ ih =>
      rw [List.findSome?_cons]
      cases here : look c with
      | none => exact .above here super ih
      | some b => exact .found here

/-- A climb without an answer has met the whole chain. -/
theorem Climbs.absent (climb : p.Climbs look c none) (reaches : Reaches p.superLinks c d) : look d = none := by
  generalize same : none = answer at climb
  induction climb with
  | found here => cases same
  | @above c super _ absent link _ ih =>
      rcases reaches.cases_head with rfl | ⟨next, step, rest⟩
      · exact absent.trans same
      · have next : next = super := Option.some.inj ((superOf_of_superLinks step).symm.trans link)
        exact ih (next ▸ rest) same
  | @top c absent last =>
      rcases reaches.cases_head with rfl | ⟨next, step, -⟩
      · exact absent
      · cases (superOf_of_superLinks step).symm.trans last

/-- A climb along a chain without answers ends without one. -/
theorem Climbs.eq_none {answer : Option β} (climb : p.Climbs look c answer)
    (absent : ∀ d, Reaches p.superLinks c d → look d = none) : answer = none := by
  induction climb with
  | found here => cases here.symm.trans (absent _ .refl)
  | above _ super _ ih => exact ih fun d reaches => absent d (.head (Option.mem_toList.mpr super) reaches)
  | top _ _ => rfl

/-- There is one nearest answer at most. -/
theorem NearestAnswer.unique {b' : β} (nearest : p.NearestAnswer look c b)
    (nearest' : p.NearestAnswer look c b') : b = b' := by
  obtain ⟨d, chain, answers, first⟩ := nearest
  obtain ⟨e, chain', answers', first'⟩ := nearest'
  -- Of two different classes the lower one hides the answer of the other.
  rcases reaches_total chain chain' with up | up
  · rcases Relation.reflTransGen_iff_eq_or_transGen.mp up with rfl | passes
    · exact Option.some.inj (answers.symm.trans answers')
    · cases answers.symm.trans (first' d chain passes)
  · rcases Relation.reflTransGen_iff_eq_or_transGen.mp up with rfl | passes
    · exact Option.some.inj (answers.symm.trans answers')
    · cases answers'.symm.trans (first e chain' passes)

theorem IsChain.findSome?_eq_none_iff {chain : List ClassId} (whole : p.IsChain c chain) :
    chain.findSome? look = none ↔ ∀ d, Reaches p.superLinks c d → look d = none := by
  constructor
  · intro nothing d reaches
    exact Climbs.absent (nothing ▸ whole.climbs look) reaches
  · exact (whole.climbs look).eq_none

section Acyclic

variable (acyclic : ∀ c, ¬ Passes p.superLinks c c)
include acyclic

/-- The answer of a climb is the nearest one. -/
theorem Climbs.nearest (climb : p.Climbs look c (some b)) : p.NearestAnswer look c b := by
  generalize same : some b = answer at climb
  induction climb with
  | @found c found here =>
      cases same
      refine ⟨c, .refl, here, fun e above back => ?_⟩
      exact absurd (TransGen.trans_right above back) (acyclic c)
  | @above c super _ absent link _ ih =>
      obtain ⟨d, chain, answers, first⟩ := ih same
      have here : super ∈ p.superLinks c := Option.mem_toList.mpr link
      refine ⟨d, .head here chain, answers, fun e reaches below => ?_⟩
      rcases reaches.cases_head with rfl | ⟨next, step, rest⟩
      · exact absent
      · have next : next = super := Option.some.inj ((superOf_of_superLinks step).symm.trans link)
        exact first e (next ▸ rest) below
  | top absent last => cases same

theorem IsChain.findSome?_eq_some_iff {chain : List ClassId} (whole : p.IsChain c chain) :
    chain.findSome? look = some b ↔ p.NearestAnswer look c b := by
  constructor
  · intro found
    exact Climbs.nearest acyclic (found ▸ whole.climbs look)
  · intro nearest
    cases found : chain.findSome? look with
    | none =>
        obtain ⟨d, reaches, answers, -⟩ := nearest
        cases answers.symm.trans (whole.findSome?_eq_none_iff.mp found d reaches)
    | some b' =>
        have first : p.NearestAnswer look c b' := Climbs.nearest acyclic (found ▸ whole.climbs look)
        rw [first.unique nearest]

end Acyclic

end PointsTo.Program
