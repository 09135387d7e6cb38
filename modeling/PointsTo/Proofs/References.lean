/- # References -- subtypes, and the declaration that a reference means

Subtypes and references are decided by walking up.  The subtype test searches the supertypes of a class for
another one; in a loaded program no class is its own supertype, so the test decides a partial order
(`DecidesSubtypes`).  A reference is looked up on the superclass chain first and then among all supertypes, which
the search meets superclass first (`LooksUp`).  So it means the nearest declaration of the chain when there is one,
any declaration above otherwise, and nothing when there is none (`MeansDeclaration`).

Main statement: `decides_references`. -/
import Mathlib.Order.Defs.Unbundled
import PointsTo.Proofs.PossibleTargets

set_option autoImplicit false

namespace PointsTo.Program

open Relation (ReflTransGen TransGen)

variable {p : Program} {c d : ClassId} {s : String} {m : MethodId}

/-! ## Subtypes -/

/-- The subtype test of a program. -/
structure DecidesSubtypes (p : Program) : Prop where
  /-- The search for a class among the supertypes of another comes to its end, with the answer. -/
  ends : ∀ c d, Seeks p.upward (fun new pending => new ++ pending) (fun e => if e = d then some e else none)
    [c] [] (if p.isSubclass c d then some d else none)
  subtypes : ∀ c d, p.isSubclass c d = true ↔
    ReflTransGen (fun c d => p.superOf c = some d ∨ d ∈ p.interfacesOf c) c d
  order : IsPartialOrder ClassId fun c d => p.isSubclass c d = true

theorem mem_supertypesOf_iff : d ∈ p.supertypesOf c ↔ p.superOf c = some d ∨ d ∈ p.interfacesOf c := by
  rw [supertypesOf, List.mem_append, Option.mem_toList]

/-- The first supertype that is a class is the class. -/
theorem findSome?_supertypes (p : Program) (c d : ClassId) :
    (p.supertypes c).findSome? (fun e => if e = d then some e else none) =
      if p.isSubclass c d then some d else none := by
  cases found : (p.supertypes c).findSome? fun e => if e = d then some e else none with
  | none =>
      have absent : p.isSubclass c d = false := by
        rw [← Bool.not_eq_true, isSubclass, List.contains_iff_mem]
        intro member
        simpa using List.findSome?_eq_none_iff.mp found d member
      simp [absent]
  | some e =>
      obtain ⟨e', member, same⟩ := List.exists_of_findSome?_eq_some found
      split at same
      · rename_i here
        cases same
        subst here
        have present : p.isSubclass c e = true := List.contains_iff_mem.mpr member
        simp [present]
      · cases same

theorem seeks_supertype (p : Program) (c d : ClassId) :
    Seeks p.upward (fun new pending => new ++ pending) (fun e => if e = d then some e else none)
      [c] [] (if p.isSubclass c d then some d else none) := by
  rw [← p.findSome?_supertypes c d]
  exact (p.visits_supertypes c).seeks fun _ impossible => absurd impossible List.not_mem_nil

/-- Classes that lie above each other are equal, since no class lies above itself. -/
theorem Loaded.isSubclass_antisymm (loaded : p.Loaded) (below : p.isSubclass c d = true)
    (above : p.isSubclass d c = true) : c = d := by
  rcases Relation.reflTransGen_iff_eq_or_transGen.mp (isSubclass_iff.mp below) with same | passes
  · exact same.symm
  · exact absurd (TransGen.trans_left passes (isSubclass_iff.mp above)) (loaded.not_passes c)

theorem Loaded.isPartialOrder_isSubclass (loaded : p.Loaded) :
    IsPartialOrder ClassId fun c d => p.isSubclass c d = true where
  refl _ := isSubclass_iff.mpr .refl
  trans _ _ _ below above :=
    isSubclass_iff.mpr ((isSubclass_iff.mp below).trans (isSubclass_iff.mp above))
  antisymm _ _ := loaded.isSubclass_antisymm

theorem Loaded.decidesSubtypes (loaded : p.Loaded) : p.DecidesSubtypes where
  ends := p.seeks_supertype
  subtypes c d := by
    rw [isSubclass_iff]
    simp only [Reaches, mem_supertypesOf_iff]
  order := loaded.isPartialOrder_isSubclass

/-! ## References -/

/-- A method is a declaration on the superclass chain of a class, abstract or not, and no class below it on the
chain has one. -/
def NearestDeclaration (p : Program) (c : ClassId) (subsignature : String) (m : MethodId) : Prop :=
  ∃ d, Reaches p.superLinks c d ∧ p.DeclaresMethod d subsignature m ∧
    ∀ e, Reaches p.superLinks c e → Passes p.superLinks e d → ∀ other, ¬ p.DeclaresMethod e subsignature other

/-- Looking a reference up ends on the superclass chain, or else in a search through all supertypes. -/
inductive LooksUp (p : Program) (ref : MethodRef) : Option MethodId → Prop
  | chain {m : MethodId}
      (found : p.Climbs (fun d => p.declaredMethod? d ref.subsignature) ref.owner (some m)) :
      LooksUp p ref (some m)
  | search {answer : Option MethodId}
      (absent : p.Climbs (fun d => p.declaredMethod? d ref.subsignature) ref.owner none)
      (rest : Seeks p.upward (fun new pending => new ++ pending)
        (fun d => p.declaredMethod? d ref.subsignature) [ref.owner] [] answer) :
      LooksUp p ref answer

/-- What a reference means. -/
structure MeansDeclaration (p : Program) (ref : MethodRef) : Prop where
  /-- The lookup comes to its end, with the answer. -/
  ends : p.LooksUp ref (p.resolveRef ref)
  /-- When the superclass chain has a declaration, the reference means the nearest. -/
  nearest : ∀ d m, Reaches p.superLinks ref.owner d → p.DeclaresMethod d ref.subsignature m →
    ∃ n, p.resolveRef ref = some n ∧ p.NearestDeclaration ref.owner ref.subsignature n
  unique : ∀ m, p.NearestDeclaration ref.owner ref.subsignature m → p.resolveRef ref = some m
  inherited : ∀ m, p.resolveRef ref = some m →
    ∃ d, Reaches p.supertypesOf ref.owner d ∧ p.DeclaresMethod d ref.subsignature m
  undeclared : p.resolveRef ref = none ↔
    ∀ d, Reaches p.supertypesOf ref.owner d → ∀ m, ¬ p.DeclaresMethod d ref.subsignature m
  dispatched : (p.dispatch ref.owner ref.subsignature).isSome = true → (p.resolveRef ref).isSome = true

theorem Loaded.declaredMethod?_eq_none_iff (loaded : p.Loaded) :
    p.declaredMethod? c s = none ↔ ∀ m, ¬ p.DeclaresMethod c s m := by
  simp only [Option.eq_none_iff_forall_ne_some, ne_eq, loaded.declaredMethod?_eq_some_iff]

theorem Loaded.nearestDeclaration_iff (loaded : p.Loaded) :
    p.NearestAnswer (fun d => p.declaredMethod? d s) c m ↔ p.NearestDeclaration c s m := by
  simp only [NearestAnswer, NearestDeclaration, loaded.declaredMethod?_eq_some_iff,
    loaded.declaredMethod?_eq_none_iff]

/-- A reference means a declaration of one of the supertypes of the class it names. -/
theorem Loaded.exists_declared_of_resolveRef (loaded : p.Loaded) {ref : MethodRef}
    (meant : p.resolveRef ref = some m) :
    ∃ d, Reaches p.supertypesOf ref.owner d ∧ p.DeclaresMethod d ref.subsignature m := by
  rcases Option.or_eq_some_iff.mp meant with onChain | ⟨-, above⟩
  · obtain ⟨d, member, declares⟩ := List.exists_of_findSome?_eq_some onChain
    exact ⟨d, reaches_supertypesOf (reaches_of_mem_chainUpTo member),
      loaded.declaredMethod?_eq_some_iff.mp declares⟩
  · obtain ⟨d, member, declares⟩ := List.exists_of_findSome?_eq_some above
    exact ⟨d, mem_supertypes_iff.mp member, loaded.declaredMethod?_eq_some_iff.mp declares⟩

section References

variable (loaded : p.Loaded) {ref : MethodRef} (inUse : ref.owner < p.classes.size)
include loaded inUse

theorem Loaded.looksUp_resolveRef : p.LooksUp ref (p.resolveRef ref) := by
  have climb := (loaded.isChain_superChain inUse).climbs fun d => p.declaredMethod? d ref.subsignature
  simp only [resolveRef]
  generalize (p.superChain ref.owner).findSome? _ = onChain at climb ⊢
  cases onChain with
  | some m => exact .chain climb
  | none =>
      rw [Option.none_or]
      exact .search climb
        ((p.visits_supertypes ref.owner).seeks fun _ impossible => absurd impossible List.not_mem_nil)

/-- The nearest declaration of the superclass chain comes before all others. -/
theorem Loaded.resolveRef_of_nearest (nearest : p.NearestDeclaration ref.owner ref.subsignature m) :
    p.resolveRef ref = some m := by
  have onChain := ((loaded.isChain_superChain inUse).findSome?_eq_some_iff loaded.not_passes_superLinks).mpr
    (loaded.nearestDeclaration_iff.mpr nearest)
  simp only [resolveRef, onChain, Option.some_or]

theorem Loaded.exists_nearestDeclaration (reaches : Reaches p.superLinks ref.owner d)
    (declares : p.DeclaresMethod d ref.subsignature m) :
    ∃ n, p.NearestDeclaration ref.owner ref.subsignature n := by
  have whole := loaded.isChain_superChain inUse
  cases onChain : (p.superChain ref.owner).findSome? fun d => p.declaredMethod? d ref.subsignature with
  | none =>
      have absent := whole.findSome?_eq_none_iff.mp onChain d reaches
      exact absurd declares (loaded.declaredMethod?_eq_none_iff.mp absent m)
  | some n =>
      have nearest := (whole.findSome?_eq_some_iff loaded.not_passes_superLinks).mp onChain
      exact ⟨n, loaded.nearestDeclaration_iff.mp nearest⟩

theorem Loaded.meansDeclaration : p.MeansDeclaration ref where
  ends := loaded.looksUp_resolveRef inUse
  nearest d m reaches declares := by
    obtain ⟨n, nearest⟩ := loaded.exists_nearestDeclaration inUse reaches declares
    exact ⟨n, loaded.resolveRef_of_nearest inUse nearest, nearest⟩
  unique _ := loaded.resolveRef_of_nearest inUse
  inherited _ := loaded.exists_declared_of_resolveRef
  undeclared := by
    rw [← Option.not_isSome_iff_eq_none, loaded.isSome_resolveRef_iff, DeclaredAbove]
    push Not
    rfl
  dispatched found := by
    obtain ⟨m, runs⟩ := Option.isSome_iff_exists.mp found
    exact isSome_resolveRef_of_dispatch runs

end References

/-- The walks up of a loaded program end: the subtype test decides a partial order, and a reference means the
nearest declaration of its superclass chain, or else a declaration above. -/
theorem decides_references (loaded : p.Loaded) :
    p.DecidesSubtypes ∧ ∀ ref : MethodRef, ref.owner < p.classes.size → p.MeansDeclaration ref :=
  ⟨loaded.decidesSubtypes, fun _ => loaded.meansDeclaration⟩

end PointsTo.Program

namespace PointsTo.Description

/-- A class that inherits an interface along several ways, below a class that declares a method again. -/
def instruments : Description where
  classes := [
    { name := "Tuned", isInterface := true, methods := [{ name := "tune", isAbstract := true }] },
    { name := "Bowed", isInterface := true, interfaces := ["Tuned"]
      methods := [{ name := "play", isAbstract := true }] },
    { name := "Stringed", isInterface := true, interfaces := ["Tuned"] },
    { name := "Instrument", methods := [{ name := "play" }] },
    { name := "Fiddle", super := some "Instrument", isAbstract := true, interfaces := ["Bowed"]
      methods := [{ name := "play", isAbstract := true }] },
    { name := "Violin", super := some "Fiddle", interfaces := ["Stringed", "Bowed", "Stringed"] },
    { name := "Main", methods := [{ name := "main", isStatic := true }] }]
  entry := ⟨"Main", "main/0"⟩

end PointsTo.Description

namespace PointsTo.Program

open Description (instruments)

/-- `Violin` means the declaration of `Fiddle` by `play/0`, although the implementation is further up, and that of
an interface by `tune/0`, which nothing implements. -/
theorem decides_references_instruments :
    instruments.load = .ok instruments.program ∧ 5 < instruments.program.classes.size ∧
      instruments.program.DecidesSubtypes ∧
      instruments.program.isSubclass 5 0 = true ∧ instruments.program.isSubclass 0 5 = false ∧
      instruments.program.MeansDeclaration ⟨5, "play/0"⟩ ∧ instruments.program.MeansDeclaration ⟨5, "tune/0"⟩ ∧
      instruments.program.resolveRef ⟨5, "play/0"⟩ = some 3 ∧ instruments.program.dispatch 5 "play/0" = some 2 ∧
      instruments.program.resolveRef ⟨5, "tune/0"⟩ = some 0 ∧ instruments.program.dispatch 5 "tune/0" = none := by
  have loads : instruments.load = .ok instruments.program := by decide +kernel
  have inUse : 5 < instruments.program.classes.size := by decide +kernel
  obtain ⟨subtypes, means⟩ := decides_references ⟨instruments, loads⟩
  exact ⟨loads, inUse, subtypes, by decide +kernel, by decide +kernel, means ⟨5, "play/0"⟩ inUse,
    means ⟨5, "tune/0"⟩ inUse, by decide +kernel, by decide +kernel, by decide +kernel, by decide +kernel⟩

end PointsTo.Program
