/- # Summary -- results as values

A summary names the reachable methods, the call edges, the methods that are never reached and, for the
pointer analysis, what each local variable of a reachable method points to, together with the statistics.
Methods are in the order of their numbers, edges in the order of their call sites, variables in the order of
their names. -/
import PointsTo.Hierarchy.Analysis
import PointsTo.Report.Statistics

set_option autoImplicit false

namespace PointsTo

/-- The reachable methods by number. -/
def PlainCallGraph.reachableMethods (g : PlainCallGraph) : List MethodId :=
  ascending g.reachable.toList

/-- The edges by call site and callee. -/
def PlainCallGraph.sortedEdges (g : PlainCallGraph) : List (CallEdge CallSite MethodId) :=
  sortOn (fun e => e.site.order ++ [e.callee]) g.edges.toList

/-- A call edge as a value. -/
def CallEdge.value (p : Program) (e : CallEdge CallSite MethodId) : Json.Value :=
  .object
    [("caller", .text (p.methodName e.caller)),
     ("stmt_index", .natural e.site.index),
     ("kind", .text e.kind.name),
     ("callee", .text (p.methodName e.callee))]

/-- The entries of a summary that a call graph gives. -/
def PlainCallGraph.summaryEntries (g : PlainCallGraph) (p : Program) : List (String × Json.Value) :=
  [("reachable_methods", .texts (g.reachableMethods.map p.methodName)),
   ("call_edges", .ofList (CallEdge.value p) g.sortedEdges),
   ("dead_methods", .texts ((g.deadMethods p).map p.methodName))]

/-- The summary of a call graph. -/
def PlainCallGraph.summary (g : PlainCallGraph) (p : Program) : Json.Value :=
  .object (g.summaryEntries p)

namespace Result

/-- The reachable methods by number. -/
def reachableMethods (r : Result) : List MethodId := r.plainCalls.reachableMethods

/-- The local variables of the reachable methods. -/
def reachableLocals (r : Result) : List VarId :=
  r.reachableMethods.flatMap r.setting.program.localsOf

/-- The objects of the local variables of the reachable methods, by the names of both; variables without
objects are left out. -/
def pointsToNames (r : Result) : List (String × List String) :=
  entered (r.reachableLocals.filterMap fun v =>
    match r.pointsTo v with
    | [] => none
    | objects => some (r.setting.program.varName v, objects.map r.objectName))

/-- The summary of an outcome of the pointer analysis. -/
def summary (r : Result) : Json.Value :=
  let sets := r.pointsToNames.map fun (name, objects) => (name, Json.Value.texts objects)
  .object (r.plainCalls.summaryEntries r.setting.program ++
    (if sets.isEmpty then [] else [("points_to", .object sets)]) ++
    [("statistics", r.statistics.value)])

end Result

/-- A summary as a text. -/
def summaryText (summary : Json.Value) : String := summary.pretty ++ "\n"

end PointsTo
