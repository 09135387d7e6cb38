/- # Network -- objects on their way through the flow graph

A network is a flow graph, the sets of its pointers and a queue of pending work.  Objects are not passed
along an edge at once: `send` queues them for the target, and `absorb` takes them into its set and sends on
what was new.  `connect` sends the objects of the source along a new edge, so no object is missed whatever
the order of edges and objects.  Methods that are waiting to be analysed share the queue. -/
import PointsTo.Flow.Graph
import PointsTo.Flow.Points
import PointsTo.Worklist

set_option autoImplicit false

namespace PointsTo

/-- A piece of pending work. -/
inductive Pending
  /-- A method that may have become reachable. -/
  | method (m : QualifiedMethod)
  /-- Objects on their way to a node. -/
  | objects (node : NodeId) (set : ObjectSet)
  deriving DecidableEq, Repr

/-- A flow graph with the sets of its pointers and the work that is pending. -/
structure Network where
  graph : FlowGraph := {}
  points : PointsMap := {}
  pending : Worklist Pending := {}

namespace Network

/-- The network without nodes. -/
def empty : Network := {}

/-- The network with a node for a pointer, and the number of the node. -/
def node (n : Network) (pointer : Pointer) : Network × NodeId :=
  let (graph, id) := n.graph.node pointer
  ({ n with graph }, id)

/-- Queues a method. -/
def announce (n : Network) (m : QualifiedMethod) : Network :=
  { n with pending := n.pending.push (.method m) }

/-- Queues objects for a node. -/
def send (n : Network) (id : NodeId) (set : ObjectSet) : Network :=
  { n with pending := n.pending.push (.objects id set) }

/-- Adds an edge and sends the objects of its source along it, unless its nodes have an edge; says whether
it was new. -/
def connect (n : Network) (e : FlowEdge) : Network × Bool :=
  let (graph, isNew) := n.graph.connect e
  if !isNew then (n, false)
  else
    let n := { n with graph }
    let set := n.points.points e.source
    (if set.isEmpty then n else n.send e.target set, true)

/-- Takes objects into the set of a node and sends the new ones on; gives the new ones. -/
def absorb (n : Network) (id : NodeId) (set : ObjectSet) : Network × ObjectSet :=
  let (points, delta) := n.points.absorb id set
  let n := { n with points }
  if delta.isEmpty then (n, delta)
  else ((n.graph.successors id).foldl (fun n target => n.send target delta) n, delta)

/-- Takes the oldest piece of work. -/
def pop? (n : Network) : Option (Pending × Network) :=
  n.pending.pop?.map fun (item, pending) => (item, { n with pending })

/-! ## Pointers -/

/-- Lets the objects of one pointer flow to another. -/
def flow (n : Network) (source target : Pointer) (kind : FlowKind) : Network :=
  let (n, source) := n.node source
  let (n, target) := n.node target
  (n.connect ⟨source, target, kind⟩).1

/-- Sends one object to a pointer. -/
def seed (n : Network) (pointer : Pointer) (object : QualifiedObjectId) : Network :=
  let (n, id) := n.node pointer
  n.send id (.singleton object)

end Network

end PointsTo
