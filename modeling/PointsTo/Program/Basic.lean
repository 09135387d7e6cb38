/- # Program -- a loaded program

Classes, fields, methods, variables and allocation sites are numbered; each refers to the others by
number.  The part functions (`superOf`, `methodsOf`, `bodyOf`, ...) read one part of what a number stands
for; a number that the program does not use has no parts. -/
import PointsTo.Program.Statement

set_option autoImplicit false

namespace PointsTo

/-- A type that can be allocated. -/
inductive TypeRef
  | ofClass (id : ClassId)
  /-- An array type, known by its text. -/
  | array (text : String)
  deriving DecidableEq, Repr

/-- A class or interface. -/
structure Class where
  name : String
  super : Option ClassId
  interfaces : List ClassId
  isInterface : Bool
  isAbstract : Bool
  fields : List FieldId
  methods : List MethodId
  deriving DecidableEq, Repr

/-- A declared field. -/
structure Field where
  name : String
  owner : ClassId
  isStatic : Bool
  deriving DecidableEq, Repr

/-- A statement of a loaded program. -/
abbrev Stmt := Statement VarId SiteId

/-- A declared method.  Its subsignature identifies it within its class. -/
structure Method where
  name : String
  subsignature : String
  owner : ClassId
  isStatic : Bool
  isAbstract : Bool
  params : List VarId
  /-- The receiver variable of an instance method. -/
  this : Option VarId
  /-- The variables it returns, each once. -/
  returns : List VarId
  /-- Its variables in the order in which they are met. -/
  locals : List VarId
  body : List Stmt
  deriving DecidableEq, Repr

/-- A local variable. -/
structure Var where
  name : String
  method : MethodId
  deriving DecidableEq, Repr

/-- An allocation statement: its method, its position in the body and what it allocates. -/
structure Site where
  method : MethodId
  index : Nat
  type : TypeRef
  deriving DecidableEq, Repr

/-- A program. -/
structure Program where
  classes : Array Class := #[]
  fields : Array Field := #[]
  methods : Array Method := #[]
  vars : Array Var := #[]
  sites : Array Site := #[]
  entry : MethodId := 0
  deriving DecidableEq, Repr

/-- A call statement, by its method and its position in the body. -/
structure CallSite where
  method : MethodId
  index : Nat
  deriving DecidableEq, Repr

namespace Program

/-! ## Parts of classes -/

def superOf (p : Program) (c : ClassId) : Option ClassId := p.classes[c]?.bind (·.super)

def interfacesOf (p : Program) (c : ClassId) : List ClassId :=
  (p.classes[c]?.map (·.interfaces)).getD []

def isInterface (p : Program) (c : ClassId) : Bool := p.classes[c]?.any (·.isInterface)

def fieldsOf (p : Program) (c : ClassId) : List FieldId := (p.classes[c]?.map (·.fields)).getD []

def methodsOf (p : Program) (c : ClassId) : List MethodId :=
  (p.classes[c]?.map (·.methods)).getD []

/-- The direct supertypes: the superclass, then the interfaces. -/
def supertypesOf (p : Program) (c : ClassId) : List ClassId :=
  (p.superOf c).toList ++ p.interfacesOf c

/-- The class with a name. -/
def classNamed? (p : Program) (name : String) : Option ClassId :=
  p.classes.toList.findIdx? fun c => c.name = name

/-! ## Parts of methods -/

def isAbstract (p : Program) (m : MethodId) : Bool := p.methods[m]?.any (·.isAbstract)

def ownerOf (p : Program) (m : MethodId) : ClassId := (p.methods[m]?.map (·.owner)).getD 0

def paramsOf (p : Program) (m : MethodId) : List VarId := (p.methods[m]?.map (·.params)).getD []

def thisOf (p : Program) (m : MethodId) : Option VarId := p.methods[m]?.bind (·.this)

def returnsOf (p : Program) (m : MethodId) : List VarId := (p.methods[m]?.map (·.returns)).getD []

def localsOf (p : Program) (m : MethodId) : List VarId := (p.methods[m]?.map (·.locals)).getD []

def bodyOf (p : Program) (m : MethodId) : List Stmt := (p.methods[m]?.map (·.body)).getD []

/-- The method that a variable belongs to. -/
def methodOfVar (p : Program) (v : VarId) : MethodId := (p.vars[v]?.map (·.method)).getD 0

/-- The call at a call site. -/
def callAt? (p : Program) (site : CallSite) : Option (Invocation VarId) :=
  (p.bodyOf site.method)[site.index]?.bind (·.call?)

/-! ## Looking parts up -/

/-- The method that a class itself declares with a subsignature, abstract or not. -/
def declaredMethod? (p : Program) (c : ClassId) (subsignature : String) : Option MethodId :=
  (p.methodsOf c).find? fun m => (p.methods[m]?.map (·.subsignature)) = some subsignature

/-- The method that the class with a name declares with a subsignature. -/
def findMethod? (p : Program) (className subsignature : String) : Option MethodId := do
  let c ← p.classNamed? className
  p.declaredMethod? c subsignature

/-- The variable of a method with a name. -/
def findVar? (p : Program) (m : MethodId) (name : String) : Option VarId :=
  (p.localsOf m).find? fun v => (p.vars[v]?.map (·.name)) = some name

/-- The field that a class itself declares with a name. -/
def declaredField? (p : Program) (c : ClassId) (name : String) : Option FieldId :=
  (p.fieldsOf c).find? fun f => (p.fields[f]?.map (·.name)) = some name

end Program

end PointsTo
