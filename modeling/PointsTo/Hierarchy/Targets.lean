/- # Targets -- the methods that a call may run

`resolveCall` finds the one target of a call for a receiver type, or says why there is none.
`possibleTargets` finds the targets of a call over all classes that the declared class has below it,
without knowing any object. -/
import PointsTo.Hierarchy.Lookup

set_option autoImplicit false

namespace PointsTo

/-- The target of a call for a receiver type. -/
inductive Resolution
  | target (method : MethodId)
  /-- No class on the chain implements the method. -/
  | unimplemented
  /-- The receiver class is no subtype of the named class. -/
  | notSubtype (receiver named : ClassId)
  /-- A dynamic call needs a receiver type. -/
  | noReceiver (ref : MethodRef)
  deriving DecidableEq, Repr

namespace Resolution

/-- The target, if there is one. -/
def target? : Resolution → Option MethodId
  | .target m => some m
  | _ => none

/-- The resolution of a lookup. -/
def ofLookup : Option MethodId → Resolution
  | some m => .target m
  | none => .unimplemented

@[simp] theorem target?_ofLookup (lookup : Option MethodId) : (ofLookup lookup).target? = lookup := by
  cases lookup <;> rfl

end Resolution

namespace Program

variable {V : Type}

/-- Resolves a call.  Static and special calls are looked up from the named class, virtual and interface
calls from the class of the receiver, which must be a subtype of the named class. -/
def resolveCall (p : Program) (receiver : Option TypeRef) (call : Invocation V) : Resolution :=
  if call.kind.isDynamic then
    match receiver with
    | none => .noReceiver call.target
    | some (.ofClass c) =>
      if p.isSubclass c call.target.owner then
        .ofLookup (p.dispatch c call.target.subsignature)
      else .notSubtype c call.target.owner
    | some (.array text) => .ofLookup (p.dispatchOn (.array text) call.target.subsignature)
  else .ofLookup (p.dispatch call.target.owner call.target.subsignature)

/-! ## Walking down -/

/-- The direct subtypes of a class: below an interface its subinterfaces and implementors, below a class its
subclasses. -/
def directSubtypes (p : Program) (c : ClassId) : List ClassId :=
  if p.isInterface c then p.directSubinterfaces c ++ p.directImplementors c
  else p.directSubclasses c

/-- The class and what lies below it, level by level. -/
def subtypes (p : Program) (c : ClassId) : List ClassId :=
  breadthFirst p.directSubtypes p.searchRounds c

/-- The targets of a call by declared types alone, or nothing when its reference means no declaration. -/
def possibleTargets? (p : Program) (call : Invocation V) : Option (List MethodId) :=
  (p.resolveRef call.target).map fun _ =>
    if call.kind.isDynamic then
      ((p.subtypes call.target.owner).filterMap fun c =>
        p.dispatch c call.target.subsignature).eraseDups
    else (p.dispatch call.target.owner call.target.subsignature).toList

/-- The targets of a call by declared types alone. -/
def possibleTargets (p : Program) (call : Invocation V) : List MethodId :=
  (p.possibleTargets? call).getD []

end Program

end PointsTo
