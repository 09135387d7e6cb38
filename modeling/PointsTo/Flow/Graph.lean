/- # Graph -- pointers and the edges along which objects flow

Every pointer has one node, numbered in the order of the first request.  An edge says that all objects of
its source flow on to its target; there is at most one between two nodes, and it keeps the kind it was first
added with. -/
import PointsTo.Context.Qualified
import PointsTo.Table

set_option autoImplicit false

namespace PointsTo

/-- The number of a node of the flow graph. -/
abbrev NodeId := Nat

/-- What can hold objects `O`, where variables are distinguished by contexts `C`. -/
inductive PointerOf (C O : Type)
  /-- A variable in a context of its method. -/
  | var (context : C) (v : VarId)
  /-- A static field. -/
  | static (field : FieldId)
  /-- A field of an object. -/
  | field (object : O) (field : FieldId)
  /-- All elements of an array object. -/
  | array (object : O)
  deriving DecidableEq, Repr

/-- What can hold objects, by the numbers of contexts and objects. -/
abbrev Pointer := PointerOf ContextId QualifiedObjectId

/-- What made an edge. -/
inductive FlowKind
  | assign
  | store
  | load
  | arrayStore
  | arrayLoad
  | parameter
  | result
  deriving DecidableEq, Repr

namespace FlowKind

/-- All kinds. -/
def all : List FlowKind := [.assign, .store, .load, .arrayStore, .arrayLoad, .parameter, .result]

/-- The name of a kind. -/
def name : FlowKind → String
  | .assign => "assign"
  | .store => "store"
  | .load => "load"
  | .arrayStore => "array_store"
  | .arrayLoad => "array_load"
  | .parameter => "param"
  | .result => "return"

/-- The kind of a name. -/
def ofName? (name : String) : Option FlowKind := all.find? fun kind => kind.name = name

end FlowKind

/-- An edge. -/
structure FlowEdge where
  source : NodeId
  target : NodeId
  kind : FlowKind
  deriving DecidableEq, Repr

/-- A flow graph; nodes and edges are in the order in which they were added. -/
structure FlowGraph where
  nodes : Table Pointer := {}
  edges : Array FlowEdge := #[]

namespace FlowGraph

/-- The graph without nodes. -/
def empty : FlowGraph := {}

/-- The graph with a node for a pointer, and the number of the node. -/
def node (g : FlowGraph) (pointer : Pointer) : FlowGraph × NodeId :=
  let (nodes, id) := g.nodes.intern pointer
  ({ g with nodes }, id)

/-- The node of a pointer. -/
def node? (g : FlowGraph) (pointer : Pointer) : Option NodeId := g.nodes.number? pointer

/-- The pointer of a node. -/
def pointer? (g : FlowGraph) (id : NodeId) : Option Pointer := g.nodes.key? id

/-- Whether there is an edge between two nodes. -/
def hasEdge (g : FlowGraph) (source target : NodeId) : Bool :=
  g.edges.any fun e => e.source = source && e.target = target

/-- Adds an edge unless there is one between its nodes; says whether it was new. -/
def connect (g : FlowGraph) (e : FlowEdge) : FlowGraph × Bool :=
  if g.hasEdge e.source e.target then (g, false) else ({ g with edges := g.edges.push e }, true)

/-- The targets of the edges out of a node, the latest edge first. -/
def successors (g : FlowGraph) (id : NodeId) : List NodeId :=
  ((g.edges.toList.filter fun e => e.source = id).map (·.target)).reverse

theorem mem_successors {g : FlowGraph} {source target : NodeId} :
    target ∈ g.successors source ↔ ∃ e ∈ g.edges, e.source = source ∧ e.target = target := by
  simp [successors, and_assoc]

theorem hasEdge_iff {g : FlowGraph} {source target : NodeId} :
    g.hasEdge source target = true ↔ ∃ e ∈ g.edges, e.source = source ∧ e.target = target := by
  simp only [hasEdge, Array.any_eq_true', Bool.and_eq_true, decide_eq_true_eq]

end FlowGraph

end PointsTo
