/- # Setting -- what an analysis is asked to do

A setting is a program with an entry method, a context policy and a heap model.  The entry is the one that
the program records, unless another is named as `Class::subsignature`; it has to have a body. -/
import PointsTo.Context.Policy
import PointsTo.Text.Split

set_option autoImplicit false

namespace PointsTo

/-- Why a method cannot be the entry. -/
inductive EntryFault
  /-- The text does not name a class and a subsignature. -/
  | malformed (text : String)
  | undeclared (owner subsignature : String)
  | withoutBody (method : String)
  deriving DecidableEq, Repr

/-- The wording of an entry fault. -/
def EntryFault.message : EntryFault → String
  | .malformed text => "malformed entry method " ++ text ++ ", expected `Class::subsignature`"
  | .undeclared owner subsignature =>
    "entry method " ++ owner ++ "::" ++ subsignature ++ " is not declared"
  | .withoutBody method => "entry method " ++ method ++ " is abstract"

/-- The class and the subsignature of an entry text; the class ends at the last double colon. -/
def splitEntry (text : String) : Except EntryFault (String × String) :=
  match splitLastText "::" text with
  | some parts => .ok parts
  | none => .error (.malformed text)

/-- The method that is meant by an entry text, or the recorded entry without one. -/
def Program.entryMethod (p : Program) (text : Option String) : Except EntryFault MethodId := do
  let m ← match text with
    | none => pure p.entry
    | some text =>
      let (owner, subsignature) ← splitEntry text
      match p.findMethod? owner subsignature with
      | some m => pure m
      | none => throw (.undeclared owner subsignature)
  if p.isAbstract m then throw (.withoutBody (p.methodName m)) else return m

/-- What an analysis is asked to do. -/
structure Setting where
  program : Program
  entry : MethodId
  policy : Policy
  heapModel : HeapModel

/-- The setting for a program with an entry text. -/
def Setting.make (p : Program) (entry : Option String) (policy : Policy) (model : HeapModel) :
    Except EntryFault Setting := do
  return ⟨p, ← p.entryMethod entry, policy, model⟩

end PointsTo
