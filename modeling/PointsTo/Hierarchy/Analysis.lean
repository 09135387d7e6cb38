/- # Analysis -- a call graph from declared types alone

Every call in a reachable method may run all of its possible targets.  The methods are visited in the order
in which they are met; a method is queued for every new edge that leads to it, and visited once. -/
import PointsTo.Number.Total
import PointsTo.CallGraph.Basic
import PointsTo.Event
import PointsTo.Setting
import PointsTo.Worklist

set_option autoImplicit false

namespace PointsTo

/-- A call graph in the making. -/
structure HierarchyAnalysis where
  calls : PlainCallGraph := {}
  pending : Worklist MethodId := {}
  /-- The count of statements of the visited methods. -/
  statements : Nat := 0
  log : Array Event := #[]

namespace HierarchyAnalysis

/-- The state in which only the entry method is pending. -/
def start (entry : MethodId) : HierarchyAnalysis :=
  { calls := (CallGraph.empty : PlainCallGraph).addEntry entry
    pending := Worklist.empty.push entry }

/-- Reports an event. -/
def report (a : HierarchyAnalysis) (event : Event) : HierarchyAnalysis :=
  { a with log := a.log.push event }

/-- Adds an edge to a target, which is queued when the edge is new. -/
def addTarget (a : HierarchyAnalysis) (site : CallSite) (kind : CallKind) (target : MethodId) :
    HierarchyAnalysis :=
  let (calls, isNew) := a.calls.connect ⟨site, kind, site.method, target⟩
  if isNew then { a with calls, pending := a.pending.push target } else a

/-- Adds edges to all possible targets of a call. -/
def addCall (p : Program) (a : HierarchyAnalysis) (site : CallSite) (call : Invocation VarId) :
    HierarchyAnalysis :=
  let a := if (p.possibleTargets? call).isNone then a.report (.undeclared call.target) else a
  match p.possibleTargets call with
  | [] => a.report (.untargeted call.kind call.target site.method)
  | targets => targets.foldl (fun a target => a.addTarget site call.kind target) a

/-- The calls of a method, with their sites. -/
def callsOf (p : Program) (m : MethodId) : List (CallSite × Invocation VarId) :=
  (p.bodyOf m).zipIdx.filterMap fun (s, index) => s.call?.map fun call => (⟨m, index⟩, call)

/-- Visits a method; nothing happens when it was visited. -/
def visit (p : Program) (a : HierarchyAnalysis) (m : MethodId) : HierarchyAnalysis :=
  let (calls, isNew) := a.calls.reach m
  if !isNew then a
  else
    let a := { a with calls, statements := a.statements + (p.bodyOf m).length }.report (.visiting m)
    (callsOf p m).foldl (fun a (site, call) => addCall p a site call) a

/-- Visits the oldest pending method, if there is one. -/
def step (p : Program) (a : HierarchyAnalysis) : Option HierarchyAnalysis :=
  a.pending.pop?.map fun (m, pending) => visit p { a with pending } m

/-- At most `count` steps. -/
def steps (p : Program) : Nat → HierarchyAnalysis → HierarchyAnalysis
  | 0, a => a
  | count + 1, a =>
    match step p a with
    | none => a
    | some next => steps p count next

/-- A bound for the steps: the entry, and one for every call and target. -/
def bound (p : Program) : Nat :=
  1 + total (p.methods.toList.map fun m => m.body.length) * p.methods.size

/-- The analysis from an entry method to its end. -/
def run (p : Program) (entry : MethodId) : HierarchyAnalysis := steps p (bound p) (start entry)

/-- The methods with a body that are not reachable, by number. -/
def deadMethods (p : Program) (a : HierarchyAnalysis) : List MethodId := a.calls.deadMethods p

/-- All that is reported up to the end of the analysis. -/
def events (a : HierarchyAnalysis) : List Event :=
  a.log.toList ++
    [.hierarchyCompleted, .hierarchyTotals a.calls.reachable.size a.calls.edges.size]

end HierarchyAnalysis

end PointsTo
