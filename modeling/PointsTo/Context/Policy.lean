/- # Policy -- which contexts a method and an object are analysed in

A policy chooses the elements of contexts and their greatest depth.  Contexts are numbered by a table in
which the empty context has number 0; method contexts and heap contexts share it, so the context of an
object can be extended into that of a method called on it.

The policy functions on contexts (`staticContext`, `instanceContext`, `heapContext`) are the definition,
whatever stands for objects in the contexts; the functions on numbers read the context of a number, apply
them and number the result.  A number that is not in use stands for the empty context. -/
import PointsTo.Context.Basic
import PointsTo.Table

set_option autoImplicit false

namespace PointsTo

/-- What distinguishes the contexts of a method. -/
inductive Sensitivity
  /-- Nothing: there is only the empty context. -/
  | insensitive
  /-- The call sites on the way to the method. -/
  | callSite
  /-- The receiver object and the context it was allocated in. -/
  | object
  /-- The class in whose code the receiver object was allocated, and its context. -/
  | type
  deriving DecidableEq, Repr

/-- The name of a sensitivity. -/
def Sensitivity.name : Sensitivity → String
  | .insensitive => "Andersen"
  | .callSite => "CallSiteSensitive"
  | .object => "ObjectSensitive"
  | .type => "TypeSensitive"

/-- A sensitivity with the greatest depth of method contexts and of heap contexts. -/
structure Policy where
  sensitivity : Sensitivity
  depth : Nat
  heapDepth : Nat
  deriving DecidableEq, Repr

/-- The policy of a depth; heap contexts are one element shorter unless their depth is given. -/
def Policy.ofDepths (sensitivity : Sensitivity) (depth : Nat) (heapDepth : Option Nat) : Policy :=
  ⟨sensitivity, depth, heapDepth.getD (depth - 1)⟩

/-- Numbered contexts. -/
abbrev ContextTable := Table Context

namespace ContextTable

/-- The table with only the empty context. -/
def initial : ContextTable := ((Table.empty : ContextTable).intern []).1

/-- The number of the empty context. -/
def emptyId : ContextId := 0

/-- The context of a number. -/
def context (t : ContextTable) (c : ContextId) : Context := (t.key? c).getD []

end ContextTable

/-- A receiver object as a call sees it: its number, its heap context and the class that allocates it. -/
structure Receiver where
  context : ContextId
  object : ObjectId
  container : ClassId
  deriving DecidableEq, Repr

namespace Policy

/-! ## Contexts -/

variable {O : Type}

/-- The context of a method called without a receiver. -/
def staticContext (policy : Policy) (caller : ContextOf O) (site : CallSite) : ContextOf O :=
  match policy.sensitivity with
  | .insensitive => []
  | .callSite => Context.extend caller (.site site) policy.depth
  | .object | .type => caller

/-- The context of a method called on an object with a heap context. -/
def instanceContext (policy : Policy) (caller : ContextOf O) (site : CallSite) (heap : ContextOf O)
    (object : O) (container : ClassId) : ContextOf O :=
  match policy.sensitivity with
  | .insensitive => []
  | .callSite => Context.extend caller (.site site) policy.depth
  | .object => Context.extend heap (.object object) policy.depth
  | .type => Context.extend heap (.type container) policy.depth

/-- The heap context of an object allocated by a method in a context. -/
def heapContext (policy : Policy) (context : ContextOf O) : ContextOf O :=
  match policy.sensitivity with
  | .insensitive => []
  | _ => Context.truncate context policy.heapDepth

/-! ## Numbered contexts -/

/-- Numbers a context; without contexts all are the empty one. -/
def intern (policy : Policy) (t : ContextTable) (context : Context) : ContextTable × ContextId :=
  match policy.sensitivity with
  | .insensitive => (t, ContextTable.emptyId)
  | _ => Table.intern t context

/-- The context of a number; without contexts it is always the empty one. -/
def contextOf (policy : Policy) (t : ContextTable) (c : ContextId) : Context :=
  match policy.sensitivity with
  | .insensitive => []
  | _ => t.context c

/-- The number of the context of a method called without a receiver.  Object and type contexts stay as they
are. -/
def internStatic (policy : Policy) (t : ContextTable) (caller : ContextId) (site : CallSite) :
    ContextTable × ContextId :=
  match policy.sensitivity with
  | .object | .type => (t, caller)
  | _ => policy.intern t (policy.staticContext (policy.contextOf t caller) site)

/-- The number of the context of a method called on an object. -/
def internInstance (policy : Policy) (t : ContextTable) (caller : ContextId) (site : CallSite)
    (receiver : Receiver) : ContextTable × ContextId :=
  policy.intern t
    (policy.instanceContext (policy.contextOf t caller) site (policy.contextOf t receiver.context)
      receiver.object receiver.container)

/-- The number of the heap context of an object allocated by a method. -/
def internHeap (policy : Policy) (t : ContextTable) (method : ContextId) :
    ContextTable × ContextId :=
  policy.intern t (policy.heapContext (policy.contextOf t method))

end Policy

end PointsTo
