/- # Dispatch -- the nearest implementation on the superclass chain

A class of a loaded program declares one method at most with a subsignature (`Loaded.unique`), and no class is
its own supertype (`Loaded.not_passes`).  So the walk up the superclass chain comes to its end (`WalksUp`),
and what it finds is the nearest implementation (`Nearest`), of which there is one at most.

A call on an object finds no method exactly when its class lies outside the named class or no class of its
superclass chain implements the method.  Implementations in superinterfaces count for neither: a method that
only an interface implements is not found (`unresolved_greeting`).

Main statements: `dispatches_nearest` and `isSome_resolveCall_iff`. -/
import PointsTo.Proofs.Chains
import PointsTo.Proofs.Coherence
import PointsTo.Proofs.Subtypes

set_option autoImplicit false

namespace PointsTo.Program

open Relation (TransGen)

/-! ## Declarations and implementations -/

/-- A class itself declares a method with a subsignature, abstract or not. -/
def DeclaresMethod (p : Program) (c : ClassId) (subsignature : String) (m : MethodId) : Prop :=
  m ∈ p.methodsOf c ∧ p.methods[m]?.map (·.subsignature) = some subsignature

/-- A class itself declares a method with a subsignature and a body. -/
def Implements (p : Program) (c : ClassId) (subsignature : String) (m : MethodId) : Prop :=
  p.DeclaresMethod c subsignature m ∧ p.isAbstract m = false

/-- A method is an implementation on the superclass chain of a class, and no class below it on the chain has
one. -/
def Nearest (p : Program) (c : ClassId) (subsignature : String) (m : MethodId) : Prop :=
  ∃ d, Reaches p.superLinks c d ∧ p.Implements d subsignature m ∧
    ∀ e, Reaches p.superLinks c e → Passes p.superLinks e d → ∀ other, ¬ p.Implements e subsignature other

/-- The walk up from a class ends with the first implementation, or at the top without one. -/
inductive WalksUp (p : Program) (subsignature : String) : ClassId → Option MethodId → Prop
  | found {c : ClassId} {m : MethodId} (here : p.implementation? c subsignature = some m) :
      WalksUp p subsignature c (some m)
  | above {c d : ClassId} {answer : Option MethodId} (absent : p.implementation? c subsignature = none)
      (super : p.superOf c = some d) (rest : WalksUp p subsignature d answer) :
      WalksUp p subsignature c answer
  | top {c : ClassId} (absent : p.implementation? c subsignature = none) (last : p.superOf c = none) :
      WalksUp p subsignature c none

variable {p : Program} {c d : ClassId} {s : String} {m : MethodId}

/-- A climb to the first implementation is a walk up to it. -/
theorem walksUp_of_climbs {answer : Option MethodId} (climb : p.Climbs (fun d => p.implementation? d s) c answer) :
    p.WalksUp s c answer := by
  induction climb with
  | found here => exact .found here
  | above absent super _ ih => exact .above absent super ih
  | top absent last => exact .top absent last

/-! ## Loaded programs -/

namespace Loaded

theorem exists_declared (loaded : p.Loaded) : ∃ d : Description, d.Declared p ∧
    cycleAt? p.classes.size p.supertypesOf = none ∧ ∀ c ∈ d.classes, (c.methods.map (·.key)).Nodup := by
  obtain ⟨d, loads⟩ := loaded
  have declared := Description.declared_of_load loads
  have wellFormed := Description.wellFormed_of_load loads
  exact ⟨d, declared, (declared.cycleAt?_eq_none_iff wellFormed.names).mpr wellFormed.acyclic,
    wellFormed.methods⟩

theorem lt_of_mem_supertypesOf (loaded : p.Loaded) (link : d ∈ p.supertypesOf c) : d < p.classes.size := by
  obtain ⟨_, declared, -⟩ := loaded.exists_declared
  exact declared.lt_of_mem_supertypesOf link

/-- No class is its own supertype. -/
theorem not_passes (loaded : p.Loaded) (c : ClassId) : ¬ Passes p.supertypesOf c c := by
  obtain ⟨_, declared, acyclic, -⟩ := loaded.exists_declared
  exact declared.not_passes acyclic c

theorem not_passes_superLinks (loaded : p.Loaded) (c : ClassId) : ¬ Passes p.superLinks c c := fun cycle =>
  loaded.not_passes c (TransGen.mono (fun _ _ => mem_supertypesOf_of_superLinks) c c cycle)

/-- The superclass chain of a class is complete. -/
theorem isChain_superChain (loaded : p.Loaded) (inUse : c < p.classes.size) :
    p.IsChain c (p.superChain c) :=
  Program.isChain_superChain
    (fun _ _ link => loaded.lt_of_mem_supertypesOf (mem_supertypesOf_of_superLinks link))
    loaded.not_passes_superLinks inUse

/-- A class declares one method at most with a subsignature. -/
theorem unique (loaded : p.Loaded) {other : MethodId} (declares : p.DeclaresMethod c s m)
    (declares' : p.DeclaresMethod c s other) : m = other := by
  obtain ⟨d, declared, -, distinct⟩ := loaded.exists_declared
  obtain ⟨member, named⟩ := declares
  obtain ⟨member', named'⟩ := declares'
  cases there : p.classes[c]? with
  | none => simp [methodsOf, there] at member
  | some made =>
      have methodsOf : p.methodsOf c = made.methods := by simp [Program.methodsOf, there]
      obtain ⟨described, here, at'⟩ := declared.exists_described there
      have keys : made.methods.map (fun m => p.methods[m]?.map (·.subsignature)) =
          (described.methods.map (·.key)).map some := by
        have reads := congrArg (List.map (Option.map Method.subsignature)) at'.methods
        simpa [Function.comp_def, Method.bare, MethodDescription.declared] using reads
      have once : (made.methods.map fun m => p.methods[m]?.map (·.subsignature)).Nodup := by
        rw [keys]
        exact (distinct described (List.mem_of_getElem? here)).map fun _ _ => Option.some.inj
      rw [methodsOf] at member member'
      exact List.inj_on_of_nodup_map once member member' (named.trans named'.symm)

theorem declaredMethod?_eq_some_iff (loaded : p.Loaded) :
    p.declaredMethod? c s = some m ↔ p.DeclaresMethod c s m := by
  constructor
  · intro found
    exact ⟨List.mem_of_find?_eq_some found, by simpa using List.find?_some found⟩
  · intro declares
    cases search : p.declaredMethod? c s with
    | none => simpa [declares.2] using List.find?_eq_none.mp search m declares.1
    | some other =>
        have first : p.DeclaresMethod c s other :=
          ⟨List.mem_of_find?_eq_some search, by simpa using List.find?_some search⟩
        rw [loaded.unique first declares]

theorem implementation?_eq_some_iff (loaded : p.Loaded) :
    p.implementation? c s = some m ↔ p.Implements c s m := by
  rw [implementation?, Option.filter_eq_some_iff, loaded.declaredMethod?_eq_some_iff, Bool.not_eq_true',
    Implements]

theorem implementation?_eq_none_iff (loaded : p.Loaded) :
    p.implementation? c s = none ↔ ∀ m, ¬ p.Implements c s m := by
  simp only [Option.eq_none_iff_forall_ne_some, ne_eq, loaded.implementation?_eq_some_iff]

/-- A method belongs to the class that declares it. -/
theorem ownerOf_of_declares (loaded : p.Loaded) (declares : p.DeclaresMethod c s m) : p.ownerOf m = c :=
  loaded.ownerOf_of_mem_methodsOf declares.1

/-! ## The walk up -/

theorem nearestAnswer_iff (loaded : p.Loaded) :
    p.NearestAnswer (fun d => p.implementation? d s) c m ↔ p.Nearest c s m := by
  simp only [NearestAnswer, Nearest, loaded.implementation?_eq_some_iff, loaded.implementation?_eq_none_iff]

section Dispatch

variable (loaded : p.Loaded) (inUse : c < p.classes.size)
include loaded inUse

theorem walksUp_dispatch (s : String) : p.WalksUp s c (p.dispatch c s) :=
  walksUp_of_climbs ((loaded.isChain_superChain inUse).climbs _)

theorem dispatch_eq_none_iff :
    p.dispatch c s = none ↔ ∀ d, Reaches p.superLinks c d → ∀ m, ¬ p.Implements d s m := by
  simp only [dispatch, (loaded.isChain_superChain inUse).findSome?_eq_none_iff,
    loaded.implementation?_eq_none_iff]

theorem dispatch_eq_some_iff : p.dispatch c s = some m ↔ p.Nearest c s m := by
  rw [dispatch, (loaded.isChain_superChain inUse).findSome?_eq_some_iff loaded.not_passes_superLinks,
    loaded.nearestAnswer_iff]

end Dispatch

end Loaded

/-! ## Calls on objects -/

variable {V : Type} {call : Invocation V}

theorem target?_of_isSubclass (dynamic : call.kind.isDynamic = true)
    (below : Reaches p.supertypesOf c call.target.owner) :
    (p.resolveCall (some (.ofClass c)) call).target? = p.dispatch c call.target.subsignature := by
  simp [resolveCall, dynamic, isSubclass_iff.mpr below]

theorem target?_of_not_isSubclass (dynamic : call.kind.isDynamic = true)
    (outside : ¬ Reaches p.supertypesOf c call.target.owner) :
    (p.resolveCall (some (.ofClass c)) call).target? = none := by
  have no : p.isSubclass c call.target.owner = false := by
    rw [← Bool.not_eq_true, isSubclass_iff]
    exact outside
  simp [resolveCall, dynamic, no, Resolution.target?]

/-- What runs when a method is called on an object of a class. -/
structure DispatchesNearest (p : Program) (c : ClassId) : Prop where
  /-- The walk up comes to its end, with the answer. -/
  walk : ∀ s, p.WalksUp s c (p.dispatch c s)
  found : ∀ s m, p.dispatch c s = some m ↔ p.Nearest c s m
  absent : ∀ s, p.dispatch c s = none ↔ ∀ d, Reaches p.superLinks c d → ∀ m, ¬ p.Implements d s m
  outside : ∀ call : Invocation VarId, call.kind.isDynamic = true →
    ¬ Reaches p.supertypesOf c call.target.owner → (p.resolveCall (some (.ofClass c)) call).target? = none
  inside : ∀ call : Invocation VarId, call.kind.isDynamic = true →
    Reaches p.supertypesOf c call.target.owner →
      (p.resolveCall (some (.ofClass c)) call).target? = p.dispatch c call.target.subsignature
  /-- A method that a call finds is declared in a supertype of the receiver. -/
  declared : ∀ (call : Invocation VarId) m, call.kind.isDynamic = true →
    (p.resolveCall (some (.ofClass c)) call).target? = some m →
      ∃ d, Reaches p.supertypesOf c d ∧ p.Implements d call.target.subsignature m ∧ p.ownerOf m = d

/-- Dispatch ends, with the nearest implementation on the superclass chain. -/
theorem dispatches_nearest (loaded : p.Loaded) (inUse : c < p.classes.size) : p.DispatchesNearest c where
  walk := loaded.walksUp_dispatch inUse
  found _ _ := loaded.dispatch_eq_some_iff inUse
  absent _ := loaded.dispatch_eq_none_iff inUse
  outside _ := target?_of_not_isSubclass
  inside _ := target?_of_isSubclass
  declared call m dynamic resolved := by
    by_cases below : Reaches p.supertypesOf c call.target.owner
    · rw [target?_of_isSubclass dynamic below, loaded.dispatch_eq_some_iff inUse] at resolved
      obtain ⟨d, chain, implements, -⟩ := resolved
      exact ⟨d, reaches_supertypesOf chain, implements, loaded.ownerOf_of_declares implements.1⟩
    · rw [target?_of_not_isSubclass dynamic below] at resolved
      cases resolved

end PointsTo.Program

namespace PointsTo.Description

/-- A method that is declared again without a body half way up a superclass chain. -/
def redeclared : Description where
  classes := [
    { name := "Speaker", isInterface := true, methods := [{ name := "speak", isAbstract := true }] },
    { name := "Animal", methods := [{ name := "speak" }] },
    { name := "Dog", super := some "Animal", isAbstract := true
      methods := [{ name := "speak", isAbstract := true }] },
    { name := "Puppy", super := some "Dog", interfaces := ["Speaker"] },
    { name := "Main", methods := [
        { name := "main", isStatic := true, body := [
          .new "p" "Puppy", .invoke .interface "Speaker" "speak/0" (some "p") [] none] }] }]
  entry := ⟨"Main", "main/0"⟩

/-- A method that only an interface implements. -/
def greeting : Description where
  classes := [
    { name := "Greeter", isInterface := true, methods := [{ name := "greet" }] },
    { name := "Person", interfaces := ["Greeter"] },
    { name := "Main", methods := [
        { name := "main", isStatic := true, body := [
          .new "p" "Person", .invoke .interface "Greeter" "greet/0" (some "p") [] none] }] }]
  entry := ⟨"Main", "main/0"⟩

end PointsTo.Description

namespace PointsTo.Program

open Description (redeclared greeting)

/-- The call of `Main.main` runs the method of the topmost class. -/
theorem dispatches_nearest_redeclared :
    redeclared.load = .ok redeclared.program ∧ 3 < redeclared.program.classes.size ∧
      redeclared.program.DispatchesNearest 3 ∧ redeclared.program.dispatch 3 "speak/0" = some 1 ∧
      (redeclared.program.callAt? ⟨3, 1⟩).map (fun call =>
        (redeclared.program.resolveCall (some (.ofClass 3)) call).target?) = some (some 1) := by
  have loads : redeclared.load = .ok redeclared.program := by decide +kernel
  have inUse : 3 < redeclared.program.classes.size := by decide +kernel
  exact ⟨loads, inUse, dispatches_nearest ⟨redeclared, loads⟩ inUse, by decide +kernel, by decide +kernel⟩

/-- A call on an object of a subtype of the named class finds a method exactly when a class of the superclass
chain implements it. -/
theorem isSome_resolveCall_iff {V : Type} {p : Program} (loaded : p.Loaded) {c : ClassId}
    (inUse : c < p.classes.size) {call : Invocation V} (dynamic : call.kind.isDynamic = true)
    (below : Reaches p.supertypesOf c call.target.owner) :
    (p.resolveCall (some (.ofClass c)) call).target?.isSome = true ↔
      ∃ d, Reaches p.superLinks c d ∧ ∃ m, p.Implements d call.target.subsignature m := by
  rw [target?_of_isSubclass dynamic below, Option.isSome_iff_ne_none, ne_eq,
    loaded.dispatch_eq_none_iff inUse]
  push Not
  rfl

/-- The call of `Main.main` finds the implementation two classes up. -/
theorem isSome_resolveCall_redeclared :
    ∃ call : Invocation VarId, redeclared.program.callAt? ⟨3, 1⟩ = some call ∧
      call.kind.isDynamic = true ∧ Reaches redeclared.program.supertypesOf 3 call.target.owner ∧
      ((redeclared.program.resolveCall (some (.ofClass 3)) call).target?.isSome = true ↔
        ∃ d, Reaches redeclared.program.superLinks 3 d ∧
          ∃ m, redeclared.program.Implements d call.target.subsignature m) ∧
      (redeclared.program.resolveCall (some (.ofClass 3)) call).target?.isSome = true := by
  have loaded : redeclared.program.Loaded := ⟨redeclared, by decide +kernel⟩
  have below : Reaches redeclared.program.supertypesOf 3 0 := .single (by decide +kernel)
  refine ⟨⟨.interface, ⟨0, "speak/0"⟩, some 3, [], none⟩, by decide +kernel, rfl, below, ?_, ?_⟩
  · exact isSome_resolveCall_iff loaded (by decide +kernel) rfl below
  · decide +kernel

/-- The class of the receiver inherits an implementation from its interface, and the reference of the call means
that method, which is also its target by declared types; but the call finds nothing, since the superclass chain
does not have the interface. -/
theorem unresolved_greeting :
    greeting.load = .ok greeting.program ∧
    ∃ call : Invocation VarId, greeting.program.callAt? ⟨1, 1⟩ = some call ∧
      call.kind.isDynamic = true ∧ Reaches greeting.program.supertypesOf 1 call.target.owner ∧
      (∃ d m, Reaches greeting.program.supertypesOf 1 d ∧
        greeting.program.Implements d call.target.subsignature m) ∧
      greeting.program.resolveRef ⟨1, call.target.subsignature⟩ = some 0 ∧
      greeting.program.possibleTargets call = [0] ∧
      (greeting.program.resolveCall (some (.ofClass 1)) call).target? = none := by
  have below : Reaches greeting.program.supertypesOf 1 0 := .single (by decide +kernel)
  have implemented : greeting.program.Implements 0 "greet/0" 0 :=
    ⟨⟨by decide +kernel, by decide +kernel⟩, by decide +kernel⟩
  exact ⟨by decide +kernel, ⟨.interface, ⟨0, "greet/0"⟩, some 1, [], none⟩, by decide +kernel, rfl, below,
    ⟨0, 0, below, implemented⟩, by decide +kernel, by decide +kernel, by decide +kernel⟩

end PointsTo.Program
