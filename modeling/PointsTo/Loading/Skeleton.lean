/- # Skeleton -- declarations of a described program

The declarations of a description become a program whose methods have no variables and no bodies yet.
Class names are known before any class is looked at, so classes may refer to later ones. -/
import PointsTo.Description.Basic
import PointsTo.Loading.Acyclic
import PointsTo.Loading.Blocks
import PointsTo.Loading.Fault
import PointsTo.Program.Basic

set_option autoImplicit false

namespace PointsTo

/-- The first element that occurs earlier in the list. -/
def firstRepeat? {α : Type} [DecidableEq α] (seen : List α) : List α → Option α
  | [] => none
  | a :: rest => if a ∈ seen then some a else firstRepeat? (a :: seen) rest

/-- The class links of a described class. -/
structure ClassLinks where
  super : Option ClassId
  interfaces : List ClassId
  deriving DecidableEq, Repr

namespace Description

/-- The number of the class with a name. -/
def classNamed? (d : Description) (name : String) : Option ClassId :=
  d.classes.findIdx? fun c => c.name = name

/-- The number of the class with a name, which must be declared. -/
def resolveClass (d : Description) (name : String) : Except LoadFault ClassId :=
  match d.classNamed? name with
  | some id => .ok id
  | none => .error (.unknownClass name)

/-- The methods of a class have distinct subsignatures, and abstract ones no body. -/
def checkMethods (owner : String) (seen : List String) :
    List MethodDescription → Except LoadFault Unit
  | [] => .ok ()
  | m :: rest =>
    if m.key ∈ seen then .error (.duplicateMethod m.key owner)
    else if m.isAbstract && !m.body.isEmpty then .error (.abstractBody owner m.key)
    else checkMethods owner (m.key :: seen) rest

/-- Resolves the links of a class and checks its methods. -/
def resolveLinks (d : Description) (c : ClassDescription) : Except LoadFault ClassLinks := do
  let super ← match c.super with
    | some name => (d.resolveClass name).map some
    | none => pure none
  let interfaces ← c.interfaces.mapM d.resolveClass
  checkMethods c.name [] c.methods
  return ⟨super, interfaces⟩

/-! ## The declarations -/

/-- The declared fields, class by class. -/
def declaredFields (d : Description) : List Field :=
  d.classes.zipIdx.flatMap fun (c, owner) => c.fields.map fun f => ⟨f.name, owner, f.isStatic⟩

/-- The declared methods without variables and bodies, class by class. -/
def declaredMethods (d : Description) : List Method :=
  d.classes.zipIdx.flatMap fun (c, owner) => c.methods.map fun m =>
    { name := m.name, subsignature := m.key, owner, isStatic := m.isStatic,
      isAbstract := m.isAbstract, params := [], this := none, returns := [], locals := [], body := [] }

/-- The declared classes with the given links. -/
def declaredClasses (d : Description) (links : List ClassLinks) : List Class :=
  let fields := blocks 0 (d.classes.map fun c => c.fields.length)
  let methods := blocks 0 (d.classes.map fun c => c.methods.length)
  (d.classes.zip (links.zip (fields.zip methods))).map fun (c, links, fields, methods) =>
    { name := c.name, super := links.super, interfaces := links.interfaces,
      isInterface := c.isInterface, isAbstract := c.isAbstract || c.isInterface, fields, methods }

/-- The declarations as a program, after the checks that concern them alone. -/
def skeleton (d : Description) : Except LoadFault Program := do
  match firstRepeat? [] (d.classes.map (·.name)) with
  | some name => throw (.duplicateClass name)
  | none => pure ()
  let links ← d.classes.mapM d.resolveLinks
  let p : Program :=
    { classes := (d.declaredClasses links).toArray, fields := d.declaredFields.toArray,
      methods := d.declaredMethods.toArray }
  match cycleAt? p.classes.size p.supertypesOf with
  | some c => throw (.cycle ((d.classes[c]?.map (·.name)).getD ""))
  | none => return p

end Description

end PointsTo
