/- # Lookup -- supertypes, subtypes and method lookup

`dispatch` finds the method that runs for an object of a class: the nearest implementation on the
superclass chain.  `resolveRef` finds the declaration that a method reference means, which may be abstract.
`isSubclass` decides the subtype relation by walking up. -/
import PointsTo.Number.Total
import PointsTo.Hierarchy.Chain
import PointsTo.Hierarchy.Search

set_option autoImplicit false

namespace PointsTo.Program

/-! ## Links -/

/-- The numbers of the classes. -/
def classIds (p : Program) : List ClassId := List.range p.classes.size

/-- The classes and interfaces whose superclass is `c`. -/
def directSubclasses (p : Program) (c : ClassId) : List ClassId :=
  p.classIds.filter fun d => p.superOf d = some c

/-- For each link to the interface `c`, the class or interface it comes from. -/
def interfaceLinks (p : Program) (c : ClassId) : List ClassId :=
  p.classIds.flatMap fun d => ((p.interfacesOf d).filter (· = c)).map fun _ => d

/-- The interfaces that name `c` as an interface, once for each time they do. -/
def directSubinterfaces (p : Program) (c : ClassId) : List ClassId :=
  (p.interfaceLinks c).filter p.isInterface

/-- The classes that name `c` as an interface, once for each time they do. -/
def directImplementors (p : Program) (c : ClassId) : List ClassId :=
  (p.interfaceLinks c).filter fun d => !p.isInterface d

/-- A bound for the rounds of a search along links in one direction. -/
def searchRounds (p : Program) : Nat :=
  1 + total (p.classIds.map fun c => 1 + (p.supertypesOf c).length)

/-! ## Walking up -/

/-- The class and its supertypes: the superclass before the interfaces, and the last interface first. -/
def supertypes (p : Program) (c : ClassId) : List ClassId :=
  depthFirst (fun c => (p.superOf c).toList ++ (p.interfacesOf c).reverse) p.searchRounds c

/-- Whether `sub` is `sup` or inherits from it. -/
def isSubclass (p : Program) (sub sup : ClassId) : Bool := (p.supertypes sub).contains sup

/-- The class whose methods arrays have. -/
def rootClass? (p : Program) : Option ClassId :=
  ["java.lang.Object", "Object"].findSome? p.classNamed?

/-! ## Method lookup -/

/-- The method with a body that a class itself declares with a subsignature. -/
def implementation? (p : Program) (c : ClassId) (subsignature : String) : Option MethodId :=
  (p.declaredMethod? c subsignature).filter fun m => !p.isAbstract m

/-- The method that runs when a subsignature is called on an object of a class. -/
def dispatch (p : Program) (c : ClassId) (subsignature : String) : Option MethodId :=
  (p.superChain c).findSome? fun d => p.implementation? d subsignature

/-- The method that runs when a subsignature is called on an object of a type. -/
def dispatchOn (p : Program) (type : TypeRef) (subsignature : String) : Option MethodId :=
  match type with
  | .ofClass c => p.dispatch c subsignature
  | .array _ => p.rootClass?.bind fun c => p.dispatch c subsignature

/-- The declaration that a method reference means: the nearest on the superclass chain, else the first on
the way up through all supertypes. -/
def resolveRef (p : Program) (ref : MethodRef) : Option MethodId :=
  let declared := fun c => p.declaredMethod? c ref.subsignature
  ((p.superChain ref.owner).findSome? declared).or ((p.supertypes ref.owner).findSome? declared)

end PointsTo.Program
