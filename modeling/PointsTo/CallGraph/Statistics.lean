/- # Statistics -- counts over a call graph

The counts are of methods and call sites without their contexts: two edges of one call site in different
contexts belong to one site, and count once when they lead to one method.  The kind of a site is that of its
first edge. -/
import PointsTo.Number.Total
import PointsTo.CallGraph.Basic

set_option autoImplicit false

namespace PointsTo

/-- Counts over a call graph. -/
structure CallStatistics where
  reachableMethods : Nat
  callEdges : Nat
  /-- The call sites with a callee, for each kind that has one. -/
  sitesByKind : List (CallKind × Nat)
  /-- The pairs of a call site and a callee, for each kind that has one. -/
  edgesByKind : List (CallKind × Nat)
  /-- The virtual and interface call sites with one callee. -/
  monomorphic : Nat
  /-- The virtual and interface call sites with more callees. -/
  polymorphic : Nat
  deriving DecidableEq, Repr

/-- A call site with its kind and its callees. -/
structure CalledSite where
  site : CallSite
  kind : CallKind
  callees : List MethodId
  deriving DecidableEq, Repr

namespace CallGraph

variable {S M : Type}

/-- The call sites that call something, each once, in the order of their first edges. -/
def calledSites (site : S → CallSite) (method : M → MethodId) (g : CallGraph S M) : List CalledSite :=
  let edges := g.edges.toList.map fun e => e.rename site method
  ((edges.map (·.site)).eraseDups).filterMap fun s =>
    match edges.filter fun e => e.site = s with
    | [] => none
    | first :: others => some ⟨s, first.kind, ((first :: others).map (·.callee)).eraseDups⟩

/-- The statistics of a call graph. -/
def statistics (site : S → CallSite) (method : M → MethodId) (g : CallGraph S M) : CallStatistics :=
  let sites := g.calledSites site method
  let ofKind := fun kind => sites.filter fun s => s.kind = kind
  let kinds := CallKind.all.filter fun kind => !(ofKind kind).isEmpty
  let dynamic := sites.filter fun s => s.kind.isDynamic
  { reachableMethods := (g.reachable.toList.map method).eraseDups.length
    callEdges := total (sites.map fun s => s.callees.length)
    sitesByKind := kinds.map fun kind => (kind, (ofKind kind).length)
    edgesByKind := kinds.map fun kind => (kind, total ((ofKind kind).map fun s => s.callees.length))
    monomorphic := (dynamic.filter fun s => s.callees.length = 1).length
    polymorphic := (dynamic.filter fun s => s.callees.length ≠ 1).length }

end CallGraph

/-- The statistics of a call graph with contexts. -/
def ContextCallGraph.statistics (g : ContextCallGraph) : CallStatistics :=
  CallGraph.statistics (·.site) (·.method) g

/-- The statistics of a call graph without contexts. -/
def PlainCallGraph.statistics (g : PlainCallGraph) : CallStatistics :=
  CallGraph.statistics id id g

end PointsTo
