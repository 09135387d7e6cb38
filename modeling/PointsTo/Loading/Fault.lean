/- # Fault -- why a program cannot be loaded

Each way in which a description fails to be a program is a cause of its own; `chain` words it, outermost
message first. -/
import PointsTo.Description.Record

set_option autoImplicit false

namespace PointsTo

/-- Why a method body cannot be resolved. -/
inductive BodyFault
  | unknownClass (name : String)
  | malformedField (reference : String)
  | unknownField (reference : String)
  | staticReceiver (owner method : String)
  | missingReceiver (owner method : String)
  deriving DecidableEq, Repr

/-- The wording of a body fault. -/
def BodyFault.message : BodyFault → String
  | .unknownClass name => "unknown class " ++ name
  | .malformedField reference => "malformed field reference " ++ reference
  | .unknownField reference => "unknown field " ++ reference
  | .staticReceiver owner method =>
    "static invocation of " ++ owner ++ "." ++ method ++ " has a receiver"
  | .missingReceiver owner method =>
    "instance invocation of " ++ owner ++ "." ++ method ++ " has no receiver"

/-- Why a description is not a program. -/
inductive LoadFault
  | duplicateClass (name : String)
  | unknownClass (name : String)
  | duplicateMethod (subsignature owner : String)
  | abstractBody (owner subsignature : String)
  | cycle (name : String)
  | body (owner method : String) (cause : BodyFault)
  | entryUndeclared (owner method : String)
  | entryAbstract (owner method : String)
  deriving DecidableEq, Repr

/-- The wording of a fault, outermost message first. -/
def LoadFault.chain : LoadFault → List String
  | .duplicateClass name => ["class " ++ name ++ " is declared twice"]
  | .unknownClass name => ["unknown class " ++ name]
  | .duplicateMethod subsignature owner =>
    ["method " ++ subsignature ++ " is declared twice in class " ++ owner]
  | .abstractBody owner subsignature =>
    ["abstract method " ++ owner ++ "." ++ subsignature ++ " has a body"]
  | .cycle name => ["cyclic superclass chain at " ++ name]
  | .body owner method cause => ["in method " ++ owner ++ "." ++ method, cause.message]
  | .entryUndeclared owner method =>
    ["entry method " ++ owner ++ "::" ++ method ++ " is not declared"]
  | .entryAbstract owner method => ["entry method " ++ owner ++ "::" ++ method ++ " is abstract"]

/-- Why a text is not a program. -/
inductive ProgramFault
  | shape (cause : ShapeFault)
  | load (cause : LoadFault)
  deriving DecidableEq, Repr

/-- The wording of a fault, outermost message first. -/
def ProgramFault.chain : ProgramFault → List String
  | .shape cause => ["malformed program description", cause.message]
  | .load cause => cause.chain

end PointsTo
