/- # Basic -- calling contexts

A context is a list of elements, the most recent first.  `extend` puts an element in front and keeps the
first `depth` elements, and `truncate` keeps the first `depth`. -/
import PointsTo.Heap
import PointsTo.Text.Quoted

set_option autoImplicit false

namespace PointsTo

/-- The number of a context. -/
abbrev ContextId := Nat

/-- What contexts over objects `O` are made of. -/
inductive ElementOf (O : Type)
  | site (value : CallSite)
  | object (value : O)
  | type (value : ClassId)
  deriving DecidableEq, Repr

/-- A context over objects `O`, the most recent element first. -/
abbrev ContextOf (O : Type) := List (ElementOf O)

/-- An element that gives its object by number. -/
abbrev ContextElement := ElementOf ObjectId

/-- A context that gives its objects by number. -/
abbrev Context := ContextOf ObjectId

namespace Context

/-- The context with an element in front, cut to `depth` elements. -/
def extend {α : Type} (context : List α) (element : α) (depth : Nat) : List α :=
  (element :: context).take depth

/-- The context cut to `depth` elements. -/
def truncate {α : Type} (context : List α) (depth : Nat) : List α := context.take depth

end Context

/-! ## Printable forms -/

/-- The name of a call site by its numbers. -/
def CallSite.numbers (site : CallSite) : String :=
  "CallSite \x7b method: " ++ numbered "MethodId" site.method ++ ", stmt_index: " ++
    toString site.index ++ " \x7d"

namespace ElementOf

/-- The name of an element by its numbers. -/
def numbers : ContextElement → String
  | .site value => value.numbers
  | .object value => numbered "ObjId" value
  | .type value => numbered "ClassId" value

/-- The name of an element. -/
def name (h : Heap) (model : HeapModel) (p : Program) : ContextElement → String
  | .site value => p.callSiteName value
  | .object value => h.name model p value
  | .type value => p.className value

end ElementOf

namespace Context

/-- The name of a context by its numbers. -/
def numbers (context : Context) : String := listed (context.map (·.numbers))

/-- The name of a context. -/
def name (h : Heap) (model : HeapModel) (p : Program) (context : Context) : String :=
  listed (context.map fun e => e.name h model p)

end Context

end PointsTo
