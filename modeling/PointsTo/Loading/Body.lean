/- # Body -- resolving and numbering method bodies

A body is resolved in two steps.  First every class and field it names is looked up, while its variables
keep their names and its allocations record their types (`resolveStatement`).  That step can fail.  Then
the variables of all methods and the allocation sites are numbered, which cannot. -/
import PointsTo.Hierarchy.Chain
import PointsTo.Loading.Skeleton
import PointsTo.Text.Split

set_option autoImplicit false

namespace PointsTo

/-- A statement whose variables are named and whose allocations record their types. -/
abbrev ResolvedStatement := Statement String TypeRef

/-- The name of the receiver variable. -/
def receiverName : String := "this"

/-! ## Looking names up -/

namespace Program

/-- The class with a name, which must be declared. -/
def resolveClass (p : Program) (name : String) : Except BodyFault ClassId :=
  match p.classNamed? name with
  | some id => .ok id
  | none => .error (.unknownClass name)

/-- The type of a text: an array when the text ends in brackets, else the class of that name. -/
def resolveType (p : Program) (text : String) : Except BodyFault TypeRef :=
  if "[]".toList.isSuffixOf text.toList then .ok (.array text)
  else (p.resolveClass text).map .ofClass

/-- The field of a reference: what stands before its last point is a class, and the rest the name of a field
of that class or of its nearest superclass that has one. -/
def resolveField (p : Program) (reference : String) : Except BodyFault FieldId := do
  match splitLastText "." reference with
  | none => throw (.malformedField reference)
  | some (owner, name) =>
    let c ← p.resolveClass owner
    match p.inheritedField? c name with
    | some field => return field
    | none => throw (.unknownField reference)

/-- Resolves what a statement names, except its variables. -/
def resolveStatement (p : Program) : StatementDescription → Except BodyFault ResolvedStatement
  | .new lhs type => (p.resolveType type).map (.new lhs)
  | .copy lhs rhs => .ok (.copy lhs rhs)
  | .load lhs base field => do
    let field ← p.resolveField field
    match base with
    | some base => return .loadField lhs base field
    | none => return .loadStatic lhs field
  | .store base field rhs => do
    let field ← p.resolveField field
    match base with
    | some base => return .storeField base field rhs
    | none => return .storeStatic field rhs
  | .loadArray lhs base => .ok (.loadArray lhs base)
  | .storeArray base rhs => .ok (.storeArray base rhs)
  | .invoke kind owner method receiver args result => do
    match decide (kind = .static), receiver.isSome with
    | true, true => throw (.staticReceiver owner method)
    | false, false => throw (.missingReceiver owner method)
    | _, _ =>
      let c ← p.resolveClass owner
      return .invoke ⟨kind, ⟨c, method⟩, receiver, args, result⟩
  | .ret value => .ok (.ret value)
  | .nop => .ok .nop

/-- Resolves the bodies of the methods of a class. -/
def resolveBodies (p : Program) (c : ClassDescription) :
    Except LoadFault (List (MethodDescription × List ResolvedStatement)) :=
  c.methods.mapM fun m =>
    match m.body.mapM p.resolveStatement with
    | .ok body => .ok (m, body)
    | .error cause => .error (.body c.name m.name cause)

end Program

/-! ## Numbering -/

/-- The names of the variables of a method, in the order in which they are met: the receiver of an instance
method, the parameters, then the variables of the body. -/
def localNames (m : MethodDescription) (body : List ResolvedStatement) : List String :=
  ((if m.isStatic then [] else [receiverName]) ++ m.params ++ body.flatMap (·.mentions)).eraseDups

/-- The number of a name in a list of names that are numbered from `start` on. -/
def numberFrom (start : Nat) (names : List String) (name : String) : Nat := start + names.idxOf name

/-- Numbers the allocations of a body from `start` on. -/
def numberSites {V : Type} (start : Nat) : List (Statement V TypeRef) → List (Statement V SiteId)
  | [] => []
  | s :: rest =>
    s.withAllocation start ::
      numberSites (if s.allocation?.isSome then start + 1 else start) rest

/-- The allocation sites of a body. -/
def sitesOf (m : MethodId) (body : List ResolvedStatement) : List Site :=
  body.zipIdx.filterMap fun (s, index) => s.allocation?.map fun type => ⟨m, index, type⟩

/-- A declared method with its variables and its body; its variables are numbered from `firstVar` on and its
allocation sites from `firstSite` on. -/
def completeMethod (declared : Method) (m : MethodDescription) (body : List ResolvedStatement)
    (firstVar firstSite : Nat) : Method :=
  let names := localNames m body
  let number := numberFrom firstVar names
  { declared with
    params := m.params.map number
    this := if m.isStatic then none else some (number receiverName)
    returns := ((body.filterMap (·.returned?)).map number).eraseDups
    locals := List.range' firstVar names.length
    body := numberSites firstSite (body.map (·.mapVars number)) }

/-- Completes methods in order; variables and sites are numbered in one row. -/
def completeMethods (firstVar firstSite : Nat) :
    List (Method × MethodDescription × List ResolvedStatement) → List Method
  | [] => []
  | (declared, m, body) :: rest =>
    completeMethod declared m body firstVar firstSite ::
      completeMethods (firstVar + (localNames m body).length)
        (firstSite + (body.filterMap (·.allocation?)).length) rest

end PointsTo
