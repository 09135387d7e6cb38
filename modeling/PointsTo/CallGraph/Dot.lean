/- # Dot -- call graphs as drawings

A call graph is written in the DOT language: its methods as nodes numbered in the order in which the graph
met them, its edges labelled with the position and the kind of the call. -/
import PointsTo.CallGraph.Basic

set_option autoImplicit false

namespace PointsTo

namespace CallGraph

variable {S M : Type} [DecidableEq M]

/-- The line of a node. -/
def dotNode (label : String) (id : Nat) : String :=
  "    " ++ toString id ++ " [ label = " ++ quoted label ++ "]\n"

/-- The line of an edge. -/
def dotEdge (index : S → Nat) (nodes : Table M) (e : CallEdge S M) : String :=
  "    " ++ toString ((nodes.number? e.caller).getD 0) ++ " -> " ++
    toString ((nodes.number? e.callee).getD 0) ++ " [ label = " ++
    quoted (toString (index e.site) ++ ":" ++ e.kind.title) ++ "]\n"

/-- The drawing of a graph whose methods have labels and whose sites have positions. -/
def dot (label : M → String) (index : S → Nat) (g : CallGraph S M) : String :=
  "digraph \x7b\n" ++
    String.join (g.nodes.toList.zipIdx.map fun (m, id) => dotNode (label m) id) ++
    String.join (g.edges.toList.map (dotEdge index g.nodes)) ++ "\x7d\n"

end CallGraph

/-- The drawing of a call graph without contexts. -/
def PlainCallGraph.drawing (g : PlainCallGraph) (p : Program) : String :=
  CallGraph.dot p.methodName (·.index) g

/-- The drawing of a call graph with contexts, which are shown by number. -/
def ContextCallGraph.drawing (g : ContextCallGraph) (p : Program) : String :=
  CallGraph.dot (fun m => p.methodName m.method ++ " " ++ numbered "ContextId" m.context)
    (·.site.index) g

end PointsTo
