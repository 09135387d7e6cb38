/- # Basic -- call graphs

A call graph records which methods are reachable and which method each call site may call.  It is written
over a type of call sites and a type of methods, so the same graph serves with contexts
(`QualifiedSite`, `QualifiedMethod`) and without.  `connect` adds an edge unless the call site already calls
the callee, `reach` marks a method once, and `rename` renames sites and methods and merges what becomes
equal; `project` drops contexts in this way. -/
import PointsTo.Context.Qualified
import PointsTo.Sets.Sorted
import PointsTo.Table

set_option autoImplicit false

namespace PointsTo

/-- A call site with one of its callees. -/
structure CallEdge (S M : Type) where
  site : S
  kind : CallKind
  caller : M
  callee : M
  deriving DecidableEq, Repr

/-- The edge with renamed ends. -/
def CallEdge.rename {S M T N : Type} (site : S → T) (method : M → N) (e : CallEdge S M) :
    CallEdge T N :=
  ⟨site e.site, e.kind, method e.caller, method e.callee⟩

/-- A call graph; all parts are in the order in which they were added. -/
structure CallGraph (S M : Type) where
  entries : Array M := #[]
  reachable : Array M := #[]
  nodes : Table M := {}
  edges : Array (CallEdge S M) := #[]

/-- A call graph whose methods are distinguished by their contexts. -/
abbrev ContextCallGraph := CallGraph QualifiedSite QualifiedMethod

/-- A call graph without contexts. -/
abbrev PlainCallGraph := CallGraph CallSite MethodId

namespace CallGraph

variable {S M T N : Type} [DecidableEq S] [DecidableEq M] [DecidableEq T] [DecidableEq N]

/-- The graph without methods. -/
def empty : CallGraph S M := {}

/-- Marks a method as an entry. -/
def addEntry (g : CallGraph S M) (m : M) : CallGraph S M :=
  if m ∈ g.entries then g else { g with entries := g.entries.push m }

/-- Whether a method is marked as reachable. -/
def isReachable (g : CallGraph S M) (m : M) : Bool := g.reachable.contains m

/-- Marks a method as reachable; says whether it was new. -/
def reach (g : CallGraph S M) (m : M) : CallGraph S M × Bool :=
  if g.isReachable m then (g, false)
  else ({ g with nodes := (g.nodes.intern m).1, reachable := g.reachable.push m }, true)

/-- Whether a call site calls a method. -/
def hasEdge (g : CallGraph S M) (site : S) (callee : M) : Bool :=
  g.edges.any fun e => e.site = site && e.callee = callee

/-- Adds an edge unless its call site already calls its callee; says whether it was new. -/
def connect (g : CallGraph S M) (e : CallEdge S M) : CallGraph S M × Bool :=
  if g.hasEdge e.site e.callee then (g, false)
  else
    let nodes := (g.nodes.intern e.caller).1
    ({ g with nodes := (nodes.intern e.callee).1, edges := g.edges.push e }, true)

/-- What a call site calls, in the order of the edges. -/
def callees (g : CallGraph S M) (site : S) : List M :=
  (g.edges.toList.filter fun e => e.site = site).map (·.callee)

/-- The call sites with edges out of a method, each once, in their order. -/
def sitesIn (order : S → List Nat) (g : CallGraph S M) (caller : M) : List S :=
  sortOn order ((g.edges.toList.filter fun e => e.caller = caller).map (·.site)).eraseDups

/-- The graph with renamed sites and methods. -/
def rename (site : S → T) (method : M → N) (g : CallGraph S M) : CallGraph T N :=
  let entered := g.entries.toList.foldl (fun h m => h.addEntry (method m)) (empty : CallGraph T N)
  let reached := g.reachable.toList.foldl (fun h m => (h.reach (method m)).1) entered
  g.edges.toList.foldl (fun h e => (h.connect (e.rename site method)).1) reached

end CallGraph

/-- The graph with contexts dropped. -/
def ContextCallGraph.project (g : ContextCallGraph) : PlainCallGraph :=
  g.rename (·.site) (·.method)

/-- The methods with a body that are not reachable, by number. -/
def PlainCallGraph.deadMethods (g : PlainCallGraph) (p : Program) : List MethodId :=
  (List.range p.methods.size).filter fun m => !p.isAbstract m && !g.isReachable m

end PointsTo
