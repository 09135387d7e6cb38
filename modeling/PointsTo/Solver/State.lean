/- # State -- what the solver knows

The state holds the numbered contexts and objects, the network along which objects flow and the call graph
with contexts.  Everything in it only grows: numbers keep their meaning, sets keep their elements, and
lists are only added to.  The functions of this module are the primitive changes. -/
import PointsTo.CallGraph.Basic
import PointsTo.Event
import PointsTo.Flow.Network
import PointsTo.Setting
import PointsTo.Summary

set_option autoImplicit false

namespace PointsTo

/-- The state of the solver. -/
structure State where
  contexts : ContextTable := .initial
  heap : Heap := {}
  objects : Table QualifiedObject := {}
  network : Network := {}
  calls : ContextCallGraph := {}
  /-- How many pieces of work were taken. -/
  iterations : Nat := 0
  log : Array Event := #[]

namespace State

/-- Reports an event. -/
def report (s : State) (event : Event) : State := { s with log := s.log.push event }

/-- Reports events in order. -/
def reportAll (s : State) (events : List Event) : State := events.foldl report s

/-- Lets the objects of one pointer flow to another. -/
def flow (s : State) (source target : Pointer) (kind : FlowKind) : State :=
  { s with network := s.network.flow source target kind }

/-- Sends one object to a pointer. -/
def seed (s : State) (pointer : Pointer) (object : QualifiedObjectId) : State :=
  { s with network := s.network.seed pointer object }

/-- Makes a node for a pointer. -/
def node (s : State) (pointer : Pointer) : State :=
  { s with network := (s.network.node pointer).1 }

/-- Queues a method. -/
def announce (s : State) (m : QualifiedMethod) : State :=
  { s with network := s.network.announce m }

/-- The receiver that an object is for a call, and its type. -/
def receiver? (s : State) (o : QualifiedObjectId) : Option (Receiver × TypeRef) := do
  let held ← s.objects.key? o
  let object ← s.heap.object? held.object
  return (⟨held.context, held.object, object.container⟩, object.type)

/-- The set of a pointer. -/
def points (s : State) (pointer : Pointer) : ObjectSet :=
  match s.network.graph.node? pointer with
  | some id => s.network.points.points id
  | none => .empty

end State

end PointsTo
