/- # Morphisms -- analyses that forget

A map of contexts and a map of objects can carry one reading of the rules to another: the empty context to
the empty context, what a site allocates to what it allocates, the context of a callee to the context of a
callee, and objects to objects of the same type (`Domain.Morphism`).  It is an embedding of the program in
itself that renames nothing (`Domain.Morphism.embedding`), so whatever follows by the rules on the one side
follows, mapped, on the other.

Two runs on one program need no comparison step by step, then, though they number contexts and objects in
different orders: what a finished run has recorded is the least solution, so a morphism of the readings
carries it into every solution on the other side.

Main statement: `recorded_map`, a morphism between the readings of two settings carries what the one analysis
finds to what the other finds. -/
import PointsTo.Proofs.Renamings

set_option autoImplicit false

namespace PointsTo

/-! ## Maps between readings of the rules -/

/-- Contexts and objects of one reading of the rules stand for contexts and objects of another. -/
structure Domain.Morphism {C O C' O' : Type} (D : Domain C O) (D' : Domain C' O') (f : C → C')
    (g : O → O') : Prop where
  initial : f D.initial = D'.initial
  object : ∀ c site, g (D.object c site) = D'.object (f c) site
  type : ∀ o, D'.type (g o) = D.type o
  callStatic : ∀ c site, f (D.callStatic c site) = D'.callStatic (f c) site
  callInstance : ∀ c site o, f (D.callInstance c site o) = D'.callInstance (f c) site (g o)

/-- A morphism renames nothing, and all objects are good. -/
theorem Domain.Morphism.embedding {C O C' O' : Type} {D : Domain C O} {D' : Domain C' O'} {f : C → C'}
    {g : O → O'} (morphism : D.Morphism D' f g) (p : Program) :
    D.Embedding p .identity D' f g fun _ => True where
  initial := morphism.initial
  object _ := morphism.object _ _
  made _ := trivial
  type _ := morphism.type _
  callStatic := morphism.callStatic
  callInstance _ c site := morphism.callInstance c site _

/-! ## Two analyses of one program -/

namespace State

/-- A morphism between the readings of two settings of one program carries what is found with the first to
what is found with the second. -/
theorem recorded_map {fine coarse : Setting} (program : coarse.program = fine.program)
    (entry : coarse.entry = fine.entry) (wellFormed : fine.program.WellFormed)
    {f : ContextOf Origin → ContextOf Origin} {g : QualifiedOrigin → QualifiedOrigin}
    (morphism : fine.domain.Morphism coarse.domain f g) {fact : Fact (ContextOf Origin) QualifiedOrigin}
    (recorded : Recorded fine (State.run fine) fact) :
    Recorded coarse (State.run coarse) (fact.map f g) := by
  have embeds : fine.program.Embeds .identity coarse.program := program ▸ .refl _
  have coarseWellFormed : coarse.program.WellFormed := program ▸ wellFormed
  have carried := recorded_embedded embeds entry wellFormed coarseWellFormed (morphism.embedding _)
    (reached_run wellFormed).1 (reached_run coarseWellFormed).1 (reached_run coarseWellFormed).2 recorded
  rwa [Renaming.rename_identity] at carried

end State

end PointsTo
