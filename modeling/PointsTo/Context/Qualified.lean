/- # Qualified -- program parts in their contexts

A method in a context, a call site in a context of its method, and an object in the heap context it was
allocated in. -/
import PointsTo.Context.Basic

set_option autoImplicit false

namespace PointsTo

/-- A method in a context. -/
structure QualifiedMethod where
  context : ContextId
  method : MethodId
  deriving DecidableEq, Repr

/-- A call site in a context of its method. -/
structure QualifiedSite where
  context : ContextId
  site : CallSite
  deriving DecidableEq, Repr

/-- An abstract object in a heap context. -/
structure QualifiedObject where
  context : ContextId
  object : ObjectId
  deriving DecidableEq, Repr

/-- The number of an abstract object in a heap context. -/
abbrev QualifiedObjectId := Nat

/-- The method that a call site stands in. -/
def QualifiedSite.caller (s : QualifiedSite) : QualifiedMethod := ⟨s.context, s.site.method⟩

/-! ## Orders -/

/-- What call sites are ordered by: the method, then the position. -/
def CallSite.order (site : CallSite) : List Nat := [site.method, site.index]

/-- What call sites in contexts are ordered by: the context first. -/
def QualifiedSite.order (s : QualifiedSite) : List Nat := s.context :: s.site.order

end PointsTo
