/- # Summary -- what a method body contributes to the flow of objects

A summary sorts the statements of a body by when they take effect.  Allocations, copies, static fields and
calls without receiver take effect as soon as the method is reached; a statement that goes through a base or
receiver variable waits for the objects of that variable (`Summary.accessesOf`).  Every list keeps the order
of the body. -/
import PointsTo.Context.Basic

set_option autoImplicit false

namespace PointsTo

/-- The statements that go through one variable. -/
structure Accesses where
  /-- `var.f = rhs`, as `(f, rhs)` -/
  storeFields : List (FieldId × VarId) := []
  /-- `lhs = var.f`, as `(f, lhs)` -/
  loadFields : List (FieldId × VarId) := []
  /-- `var[*] = rhs` -/
  storeArrays : List VarId := []
  /-- `lhs = var[*]` -/
  loadArrays : List VarId := []
  /-- The calls on the variable. -/
  calls : List CallSite := []
  deriving DecidableEq, Repr

/-- Whether no statement goes through the variable. -/
def Accesses.isEmpty (a : Accesses) : Bool :=
  a.storeFields.isEmpty && a.loadFields.isEmpty && a.storeArrays.isEmpty && a.loadArrays.isEmpty &&
    a.calls.isEmpty

/-- The summary of a method body. -/
structure Summary where
  method : MethodId
  /-- `lhs = new T`, as `(lhs, site)` -/
  allocations : List (VarId × SiteId)
  /-- `lhs = rhs`, as `(rhs, lhs)` -/
  copies : List (VarId × VarId)
  /-- `lhs = C.f`, as `(f, lhs)` -/
  staticLoads : List (FieldId × VarId)
  /-- `C.f = rhs`, as `(rhs, f)` -/
  staticStores : List (VarId × FieldId)
  /-- The calls without receiver. -/
  staticCalls : List CallSite
  /-- The body, for the statements that go through a variable. -/
  body : List Stmt
  deriving DecidableEq, Repr

/-- The call sites of a body whose receiver is as given. -/
def callSitesOf (m : MethodId) (body : List Stmt) (receiver : Option VarId) : List CallSite :=
  body.zipIdx.filterMap fun (s, index) =>
    match s with
    | .invoke call => if call.receiver = receiver then some ⟨m, index⟩ else none
    | _ => none

namespace Summary

/-- The summary of a body. -/
def ofBody (m : MethodId) (body : List Stmt) : Summary where
  method := m
  allocations := body.filterMap fun
    | .new lhs site => some (lhs, site)
    | _ => none
  copies := body.filterMap fun
    | .copy lhs rhs => some (rhs, lhs)
    | _ => none
  staticLoads := body.filterMap fun
    | .loadStatic lhs field => some (field, lhs)
    | _ => none
  staticStores := body.filterMap fun
    | .storeStatic field rhs => some (rhs, field)
    | _ => none
  staticCalls := callSitesOf m body none
  body := body

/-- The statements that go through a variable. -/
def accessesOf (s : Summary) (v : VarId) : Accesses where
  storeFields := s.body.filterMap fun
    | .storeField base field rhs => if base = v then some (field, rhs) else none
    | _ => none
  loadFields := s.body.filterMap fun
    | .loadField lhs base field => if base = v then some (field, lhs) else none
    | _ => none
  storeArrays := s.body.filterMap fun
    | .storeArray base rhs => if base = v then some rhs else none
    | _ => none
  loadArrays := s.body.filterMap fun
    | .loadArray lhs base => if base = v then some lhs else none
    | _ => none
  calls := callSitesOf s.method s.body (some v)

end Summary

/-- The summary of a method; an abstract method has no body to summarise. -/
def Program.summary? (p : Program) (m : MethodId) : Option Summary :=
  if p.isAbstract m then none else some (Summary.ofBody m (p.bodyOf m))

/-! ## Printable forms -/

/-- A pair of names. -/
def pairName (first second : String) : String := "(" ++ first ++ ", " ++ second ++ ")"

/-- A field and a variable by their numbers. -/
def fieldVarNumbers (pair : FieldId × VarId) : String :=
  pairName (numbered "FieldId" pair.1) (numbered "VarId" pair.2)

/-- A record of labelled lists. -/
def labelledLists (title : String) (parts : List (String × List String)) : String :=
  title ++ " \x7b " ++
    ", ".intercalate (parts.map fun (label, elements) => label ++ ": " ++ listed elements) ++ " \x7d"

/-- The statements through a variable by their numbers. -/
def Accesses.numbers (a : Accesses) : String :=
  labelledLists "VarAccesses"
    [("store_fields", a.storeFields.map fieldVarNumbers),
     ("load_fields", a.loadFields.map fieldVarNumbers),
     ("store_arrays", a.storeArrays.map (numbered "VarId")),
     ("load_arrays", a.loadArrays.map (numbered "VarId")),
     ("invokes", a.calls.map (·.numbers))]

/-- The immediate part of a summary by its numbers. -/
def Summary.numbers (s : Summary) : String :=
  "MethodPAG \x7b method: " ++ numbered "MethodId" s.method ++
    ", allocations: " ++ listed (s.allocations.map fun (lhs, site) =>
      pairName (numbered "VarId" lhs) (numbered "AllocSiteId" site)) ++
    ", copies: " ++ listed (s.copies.map fun (source, target) =>
      pairName (numbered "VarId" source) (numbered "VarId" target)) ++
    ", static_loads: " ++ listed (s.staticLoads.map fieldVarNumbers) ++
    ", static_stores: " ++ listed (s.staticStores.map fun (rhs, field) =>
      pairName (numbered "VarId" rhs) (numbered "FieldId" field)) ++
    ", static_callsites: " ++ listed (s.staticCalls.map (·.numbers))

end PointsTo
