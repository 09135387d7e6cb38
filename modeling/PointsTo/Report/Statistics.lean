/- # Statistics -- counts over the outcome of the pointer analysis

The counts cover the call graph, the state of the solver and the sizes of the points-to sets.  Only
pointers with objects are counted.  The average size of a set is a binary fraction; it is written with its
shortest decimal in values and with two places in texts. -/
import PointsTo.Number.Total
import PointsTo.CallGraph.Statistics
import PointsTo.Json.Value
import PointsTo.Number.Binary64
import PointsTo.Result

set_option autoImplicit false

namespace PointsTo

/-! ## Counts -/

/-- The count of pointers with objects and of the pairs of a pointer and an object. -/
structure SetStatistics where
  pointers : Nat
  relations : Nat
  deriving DecidableEq, Repr

namespace SetStatistics

/-- The statistics of sets of the given sizes; empty sets do not count. -/
def ofSizes (sizes : List Nat) : SetStatistics :=
  let filled := sizes.filter (· ≠ 0)
  ⟨filled.length, total filled⟩

/-- The average size of a set, zero without sets. -/
def average (s : SetStatistics) : Binary64 :=
  if s.pointers = 0 then .zero else .ofRatio s.relations s.pointers

end SetStatistics

/-- Counts over the outcome of the pointer analysis. -/
structure AnalysisStatistics where
  calls : CallStatistics
  /-- Pairs of a context and a method. -/
  reachable : Nat
  callEdges : Nat
  contexts : Nat
  objects : Nat
  qualifiedObjects : Nat
  nodes : Nat
  flowEdges : Nat
  /-- All pointers. -/
  allSets : SetStatistics
  /-- The variables in their contexts. -/
  variableSets : SetStatistics
  /-- The variables with their contexts merged. -/
  mergedSets : SetStatistics
  iterations : Nat
  deriving DecidableEq, Repr

namespace Result

/-- The variables in their contexts, with their sets. -/
def variableSets (r : Result) : List (VarId × ObjectSet) :=
  r.state.network.points.toList.filterMap fun (id, set) =>
    match r.state.network.graph.pointer? id with
    | some (.var _ v) => some (v, set)
    | _ => none

/-- The objects of a variable among the sets of variables. -/
def objectsAmong (r : Result) (sets : List (VarId × ObjectSet)) (v : VarId) : List ObjectId :=
  ascending (sets.flatMap fun (w, set) => if w = v then r.underlying set else [])

/-- The statistics of an outcome. -/
def statistics (r : Result) : AnalysisStatistics :=
  let sets := r.variableSets
  let vars := (sets.map (·.1)).eraseDups
  { calls := r.plainCalls.statistics
    reachable := r.state.calls.reachable.size
    callEdges := r.state.calls.edges.size
    contexts := r.state.contexts.size
    objects := r.state.heap.size
    qualifiedObjects := r.state.objects.size
    nodes := r.state.network.graph.nodes.size
    flowEdges := r.state.network.graph.edges.size
    allSets := .ofSizes (r.state.network.points.toList.map fun (_, set) => set.count)
    variableSets := .ofSizes (sets.map fun (_, set) => set.count)
    mergedSets := .ofSizes (vars.map fun v => (r.objectsAmong sets v).length)
    iterations := r.state.iterations }

end Result

/-! ## Values -/

/-- Counts by kind as a value. -/
def kindCounts (counts : List (CallKind × Nat)) : Json.Value :=
  .object (counts.map fun (kind, count) => (kind.name, .natural count))

/-- Call statistics as a value. -/
def CallStatistics.value (s : CallStatistics) : Json.Value :=
  .object
    [("reachable_methods", .natural s.reachableMethods),
     ("call_edges", .natural s.callEdges),
     ("call_sites", kindCounts s.sitesByKind),
     ("call_edges_by_kind", kindCounts s.edgesByKind),
     ("mono_call_sites", .natural s.monomorphic),
     ("poly_call_sites", .natural s.polymorphic)]

/-- Set statistics as a value. -/
def SetStatistics.value (s : SetStatistics) : Json.Value :=
  .object
    [("pointers", .natural s.pointers),
     ("relations", .natural s.relations),
     ("avg_pts_size", .decimal s.average.shortest)]

/-- Analysis statistics as a value. -/
def AnalysisStatistics.value (s : AnalysisStatistics) : Json.Value :=
  .object
    [("call_graph", s.calls.value),
     ("cs_reachable_methods", .natural s.reachable),
     ("cs_call_edges", .natural s.callEdges),
     ("contexts", .natural s.contexts),
     ("objects", .natural s.objects),
     ("cs_objects", .natural s.qualifiedObjects),
     ("pfg_nodes", .natural s.nodes),
     ("pfg_edges", .natural s.flowEdges),
     ("cs_pts", s.allSets.value),
     ("cs_var_pts", s.variableSets.value),
     ("ci_var_pts", s.mergedSets.value),
     ("worklist_iterations", .natural s.iterations)]

/-! ## Texts -/

/-- Lines with their ends. -/
def textOfLines (lines : List String) : String := String.join (lines.map fun line => line ++ "\n")

/-- `#label: count`. -/
def countLine (label : String) (count : Nat) : String := "#" ++ label ++ ": " ++ toString count

/-- A line of one character. -/
def ruler (c : Char) : String := String.ofList (List.replicate 58 c)

/-- Call statistics as lines. -/
def CallStatistics.lines (s : CallStatistics) : List String :=
  ["Call Graph Statistics: ",
   countLine "Reachable methods" s.reachableMethods,
   countLine "Call graph edges" s.callEdges] ++
  (s.sitesByKind.map fun (kind, count) =>
    countLine (kind.title ++ " call sites") count ++ " (" ++
      toString ((s.edgesByKind.lookup kind).getD 0) ++ " edges)") ++
  [countLine "Monomorphic dynamic call sites" s.monomorphic,
   countLine "Polymorphic dynamic call sites" s.polymorphic]

/-- Set statistics as lines under a title. -/
def SetStatistics.lines (title : String) (s : SetStatistics) : List String :=
  [title ++ ": ",
   countLine "Pointers" s.pointers,
   countLine "Points-to relations" s.relations,
   "#Avg points-to size: " ++ s.average.fixed 2]

/-- Analysis statistics as a text. -/
def AnalysisStatistics.text (s : AnalysisStatistics) : String :=
  textOfLines <|
    [ruler '#'] ++ s.calls.lines ++
    [countLine "CS reachable methods" s.reachable,
     countLine "CS call graph edges" s.callEdges,
     ruler '-',
     countLine "Contexts" s.contexts,
     countLine "Objects" s.objects,
     countLine "CS objects" s.qualifiedObjects,
     countLine "PFG nodes" s.nodes,
     countLine "PFG edges" s.flowEdges,
     countLine "Worklist iterations" s.iterations,
     ruler '-'] ++
    s.allSets.lines "CS Points-to Statistics" ++
    s.variableSets.lines "CS Variable Points-to Statistics" ++
    s.mergedSets.lines "CI Variable Points-to Statistics" ++
    [ruler '#']

/-- The call statistics of a graph made from declared types, with the count of visited statements, as a
text. -/
def hierarchyStatisticsText (s : CallStatistics) (statements : Nat) : String :=
  textOfLines ([ruler '#'] ++ s.lines ++
    [countLine "Statements in reachable methods" statements, ruler '#'])

end PointsTo
