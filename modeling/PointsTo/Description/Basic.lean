/- # Description -- a program as its author writes it

Everything is named: classes, fields, variables, methods by class and subsignature.  Nothing is checked
here; a description may name what it does not declare. -/
import PointsTo.Program.Statement

set_option autoImplicit false

namespace PointsTo

/-- A described statement. -/
inductive StatementDescription
  | new (lhs type : String)
  | copy (lhs rhs : String)
  /-- Reads a field; of the class itself when there is no base. -/
  | load (lhs : String) (base : Option String) (field : String)
  /-- Writes a field; of the class itself when there is no base. -/
  | store (base : Option String) (field rhs : String)
  | loadArray (lhs base : String)
  | storeArray (base rhs : String)
  | invoke (kind : CallKind) (owner method : String) (receiver : Option String)
      (args : List String) (result : Option String)
  | ret (value : Option String)
  | nop
  deriving DecidableEq, Repr

/-- A described field. -/
structure FieldDescription where
  name : String := ""
  isStatic : Bool := false
  deriving DecidableEq, Repr

/-- A described method. -/
structure MethodDescription where
  name : String := ""
  subsignature : Option String := none
  params : List String := []
  isStatic : Bool := false
  isAbstract : Bool := false
  body : List StatementDescription := []
  deriving DecidableEq, Repr

/-- A described class or interface. -/
structure ClassDescription where
  name : String := ""
  super : Option String := none
  interfaces : List String := []
  isInterface : Bool := false
  isAbstract : Bool := false
  fields : List FieldDescription := []
  methods : List MethodDescription := []
  deriving DecidableEq, Repr

/-- The method in which the program starts. -/
structure EntryDescription where
  owner : String := ""
  method : String := ""
  deriving DecidableEq, Repr

/-- A described program. -/
structure Description where
  classes : List ClassDescription := []
  entry : EntryDescription := {}
  deriving DecidableEq, Repr

namespace MethodDescription

/-- The subsignature: the given one, else the name, a slash and the count of parameters. -/
def key (d : MethodDescription) : String :=
  d.subsignature.getD (d.name ++ "/" ++ toString d.params.length)

end MethodDescription

end PointsTo
