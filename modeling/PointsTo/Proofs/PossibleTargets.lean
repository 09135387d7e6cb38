/- # Possible targets -- what declared types foresee, class by class

A static or special call has the target it resolves to.  That its reference has to mean a declaration hides
nothing, since what is dispatched to is declared (`possibleTargets_of_static`).

A virtual or interface call runs what dispatch finds for the classes that links downwards lead to from the
named class (`LinksDown`), once its reference means a declaration.  Those classes are subtypes of the named
class, so each target is what the call resolves to for one of them.  They are all of its subtypes when links
are of the right kind (`KindedLinks`), and the targets then have what the call resolves to for any class.

Main statement: `exact_possibleTargets`. -/
import PointsTo.Proofs.Dispatch
import PointsTo.Proofs.Lookups

set_option autoImplicit false

namespace PointsTo.Program

open Relation (ReflTransGen)

variable {p : Program} {c d : ClassId} {s : String} {m : MethodId}

/-- A class or one of its supertypes declares a method with a subsignature, abstract or not. -/
def DeclaredAbove (p : Program) (c : ClassId) (subsignature : String) : Prop :=
  ∃ d, Reaches p.supertypesOf c d ∧ ∃ m, p.DeclaresMethod d subsignature m

/-! ## References -/

namespace Loaded

theorem isSome_declaredMethod?_iff (loaded : p.Loaded) :
    (p.declaredMethod? c s).isSome = true ↔ ∃ m, p.DeclaresMethod c s m := by
  simp only [Option.isSome_iff_exists, loaded.declaredMethod?_eq_some_iff]

/-- A reference means a declaration exactly when there is one above the class it names.  The superclass chain
comes first, but all supertypes are searched after it. -/
theorem isSome_resolveRef_iff (loaded : p.Loaded) {ref : MethodRef} :
    (p.resolveRef ref).isSome = true ↔ p.DeclaredAbove ref.owner ref.subsignature := by
  simp only [resolveRef, Option.isSome_or, Bool.or_eq_true, List.findSome?_isSome_iff,
    loaded.isSome_declaredMethod?_iff, mem_supertypes_iff]
  constructor
  · rintro (⟨d, inChain, declares⟩ | above)
    · exact ⟨d, reaches_supertypesOf (reaches_of_mem_chainUpTo inChain), declares⟩
    · exact above
  · exact .inr

end Loaded

/-! ## Static and special calls -/

section Targets

variable {V : Type} {call : Invocation V}

theorem possibleTargets_eq_nil (undeclared : p.resolveRef call.target = none) :
    p.possibleTargets call = [] := by
  simp [possibleTargets, possibleTargets?, undeclared]

/-- A call that needs no receiver has the target it resolves to, whatever the receiver. -/
theorem possibleTargets_of_static (static : call.kind.isDynamic = false) (receiver : Option TypeRef) :
    p.possibleTargets call = (p.resolveCall receiver call).target?.toList := by
  have resolved : (p.resolveCall receiver call).target? =
      p.dispatch call.target.owner call.target.subsignature := by
    simp [resolveCall, static]
  rw [resolved]
  cases meant : p.resolveRef call.target with
  | some declaration => simp [possibleTargets, possibleTargets?, meant, static]
  | none =>
      rw [possibleTargets_eq_nil meant]
      cases found : p.dispatch call.target.owner call.target.subsignature with
      | none => rfl
      | some m =>
          have declared := isSome_resolveRef_of_dispatch found
          rw [meant] at declared
          cases declared

/-! ## Virtual and interface calls -/

theorem possibleTargets_of_dynamic (dynamic : call.kind.isDynamic = true)
    (declared : (p.resolveRef call.target).isSome = true) :
    p.possibleTargets call = ((p.subtypes call.target.owner).filterMap fun c =>
      p.dispatch c call.target.subsignature).eraseDups := by
  obtain ⟨declaration, meant⟩ := Option.isSome_iff_exists.mp declared
  simp [possibleTargets, possibleTargets?, meant, dynamic]

/-- The targets are what dispatch finds below the named class. -/
theorem mem_possibleTargets_iff (dynamic : call.kind.isDynamic = true)
    (declared : (p.resolveRef call.target).isSome = true) :
    m ∈ p.possibleTargets call ↔ ∃ c, ReflTransGen p.LinksDown call.target.owner c ∧
      p.dispatch c call.target.subsignature = some m := by
  simp only [possibleTargets_of_dynamic dynamic declared, List.mem_eraseDups, List.mem_filterMap,
    mem_subtypes_iff]

theorem declared_of_mem_possibleTargets (target : m ∈ p.possibleTargets call) :
    (p.resolveRef call.target).isSome = true := by
  rw [Option.isSome_iff_ne_none]
  intro undeclared
  rw [possibleTargets_eq_nil undeclared] at target
  cases target

/-- A target is found for a class below the named one, and that class is a subtype of it. -/
theorem exists_receiver (inUse : call.target.owner < p.classes.size) (dynamic : call.kind.isDynamic = true)
    (target : m ∈ p.possibleTargets call) :
    ∃ c < p.classes.size, (p.resolveCall (some (.ofClass c)) call).target? = some m := by
  have declared := declared_of_mem_possibleTargets target
  obtain ⟨c, down, found⟩ := (mem_possibleTargets_iff dynamic declared).mp target
  have below := isSubclass_iff.mp (isSubclass_of_linksDown down)
  refine ⟨c, Program.InRange.subtypes_lt inUse (mem_subtypes_iff.mpr down), ?_⟩
  rw [target?_of_isSubclass dynamic below, found]

theorem nodup_possibleTargets (p : Program) (call : Invocation V) : (p.possibleTargets call).Nodup := by
  cases dynamic : call.kind.isDynamic with
  | false =>
      rw [possibleTargets_of_static dynamic none]
      cases (p.resolveCall none call).target? <;> simp
  | true =>
      by_cases declared : (p.resolveRef call.target).isSome = true
      · rw [possibleTargets_of_dynamic dynamic declared]
        exact nodup_eraseDups _
      · rw [possibleTargets_eq_nil (Option.not_isSome_iff_eq_none.mp declared)]
        exact List.nodup_nil

end Targets

/-- Every walk along links that resolving a call by declared types makes comes to its end: up from the named
class for a declaration, down from it for the classes below, and up the superclass chain of each of these. -/
structure TargetWalks (p : Program) (call : Invocation VarId) : Prop where
  chain : p.IsChain call.target.owner (p.superChain call.target.owner)
  above : Visits p.upward (fun new pending => new ++ pending) [call.target.owner] []
    (p.supertypes call.target.owner)
  below : Visits p.directSubtypes (fun new pending => pending ++ new) [call.target.owner] []
    (p.subtypes call.target.owner)
  dispatched : ∀ c ∈ p.subtypes call.target.owner,
    p.WalksUp call.target.subsignature c (p.dispatch c call.target.subsignature)

theorem Loaded.targetWalks (loaded : p.Loaded) {call : Invocation VarId}
    (inUse : call.target.owner < p.classes.size) : p.TargetWalks call where
  chain := loaded.isChain_superChain inUse
  above := p.visits_supertypes _
  below := p.visits_subtypes _
  dispatched _ member := loaded.walksUp_dispatch (Program.InRange.subtypes_lt inUse member) _

/-- The targets of a call by declared types against what it resolves to. -/
structure ExactTargets (p : Program) (call : Invocation VarId) : Prop where
  static : call.kind.isDynamic = false → ∀ receiver,
    p.possibleTargets call = (p.resolveCall receiver call).target?.toList
  undeclared : ¬ p.DeclaredAbove call.target.owner call.target.subsignature → p.possibleTargets call = []
  distinct : (p.possibleTargets call).Nodup
  targets : call.kind.isDynamic = true → p.DeclaredAbove call.target.owner call.target.subsignature →
    ∀ m, m ∈ p.possibleTargets call ↔ ∃ c, ReflTransGen p.LinksDown call.target.owner c ∧
      p.dispatch c call.target.subsignature = some m
  below : ∀ c, ReflTransGen p.LinksDown call.target.owner c → p.isSubclass c call.target.owner = true
  /-- Each target is what the call resolves to for some class. -/
  resolved : call.kind.isDynamic = true → ∀ m ∈ p.possibleTargets call,
    ∃ c < p.classes.size, (p.resolveCall (some (.ofClass c)) call).target? = some m
  allSubtypes : p.KindedLinks → ∀ c,
    ReflTransGen p.LinksDown call.target.owner c ↔ Reaches p.supertypesOf c call.target.owner
  /-- What the call resolves to for any class is a target, once a declaration is above the named class. -/
  allReceivers : p.KindedLinks → call.kind.isDynamic = true →
    p.DeclaredAbove call.target.owner call.target.subsignature →
      ∀ c m, (p.resolveCall (some (.ofClass c)) call).target? = some m → m ∈ p.possibleTargets call

/-- Resolving a call by declared types ends, with exactly the targets that the call resolves to for the classes
below the one it names. -/
theorem exact_possibleTargets (loaded : p.Loaded) {site : CallSite} {call : Invocation VarId}
    (statement : p.callAt? site = some call) : p.TargetWalks call ∧ p.ExactTargets call := by
  have inUse := loaded.inRange.target_lt statement
  refine ⟨loaded.targetWalks inUse, ?_⟩
  constructor
  case static => exact possibleTargets_of_static
  case undeclared =>
    intro undeclared
    rw [← loaded.isSome_resolveRef_iff, Option.not_isSome_iff_eq_none] at undeclared
    exact possibleTargets_eq_nil undeclared
  case distinct => exact p.nodup_possibleTargets call
  case targets =>
    intro dynamic declared m
    exact mem_possibleTargets_iff dynamic (loaded.isSome_resolveRef_iff.mpr declared)
  case below => exact fun c => isSubclass_of_linksDown
  case resolved => exact fun dynamic m => exists_receiver inUse dynamic
  case allSubtypes =>
    intro kinded c
    rw [← isSubclass_iff]
    exact ⟨isSubclass_of_linksDown, linksDown_of_isSubclass kinded⟩
  case allReceivers =>
    intro kinded _ declared c m resolved
    refine mem_possibleTargets_of_resolveCall kinded resolved fun _ type same => ?_
    exact ⟨loaded.isSome_resolveRef_iff.mpr declared, fun text _ array _ => by simp [array] at same⟩

end PointsTo.Program

namespace PointsTo.Description

/-- An interface that is reached from a class along several ways, and a class that inherits its
implementation. -/
def solids : Description where
  classes := [
    { name := "Shape", isInterface := true, methods := [{ name := "area", isAbstract := true }] },
    { name := "Solid", isInterface := true, interfaces := ["Shape"] },
    { name := "Cube", interfaces := ["Solid", "Shape", "Solid"], methods := [{ name := "area" }] },
    { name := "Round", isAbstract := true, interfaces := ["Shape"], methods := [{ name := "area" }] },
    { name := "Ball", super := some "Round", interfaces := ["Solid"] },
    { name := "Main", methods := [
        { name := "main", isStatic := true, body := [
          .new "b" "Ball", .invoke .interface "Shape" "area/0" (some "b") [] none] }] }]
  entry := ⟨"Main", "main/0"⟩

end PointsTo.Description

namespace PointsTo.Program

open Description (solids)

/-- The call of `Main.main` may run both implementations, and `Ball` inherits the second. -/
theorem exact_possibleTargets_solids :
    solids.load = .ok solids.program ∧ solids.program.KindedLinks ∧
    ∃ call : Invocation VarId, solids.program.callAt? ⟨3, 1⟩ = some call ∧
      solids.program.TargetWalks call ∧ solids.program.ExactTargets call ∧
      solids.program.DeclaredAbove call.target.owner call.target.subsignature ∧
      solids.program.subtypes call.target.owner = [0, 1, 2, 3, 4] ∧
      solids.program.possibleTargets call = [1, 2] ∧
      (solids.program.resolveCall (some (.ofClass 4)) call).target? = some 2 := by
  have loads : solids.load = .ok solids.program := by decide +kernel
  have statement : solids.program.callAt? ⟨3, 1⟩ = some ⟨.interface, ⟨0, "area/0"⟩, some 3, [], none⟩ := by
    decide +kernel
  obtain ⟨walks, exact⟩ := exact_possibleTargets ⟨solids, loads⟩ statement
  exact ⟨loads, by decide +kernel, _, statement, walks, exact,
    ⟨0, .refl, 0, by decide +kernel, by decide +kernel⟩,
    by decide +kernel, by decide +kernel, by decide +kernel⟩

end PointsTo.Program
