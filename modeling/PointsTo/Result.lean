/- # Result -- questions to the outcome of the pointer analysis

Sets are asked for in one context or with all contexts merged.  Merging also drops the heap contexts of the
objects, so a merged set lists object numbers, in ascending order. -/
import PointsTo.Sets.Ascending
import PointsTo.Solver.Run

set_option autoImplicit false

namespace PointsTo

/-- A setting with a state of its analysis. -/
structure Result where
  setting : Setting
  state : State

/-- The outcome of the pointer analysis. -/
def Setting.analyse (setting : Setting) : Result := ⟨setting, .run setting⟩

namespace Result

/-! ## Names -/

/-- The name of a context; a number that is not in use has the name of the empty context. -/
def contextName (r : Result) (c : ContextId) : String :=
  (r.state.contexts.context c).name r.state.heap r.setting.heapModel r.setting.program

/-- The name of an object. -/
def objectName (r : Result) (o : ObjectId) : String :=
  r.state.heap.name r.setting.heapModel r.setting.program o

/-- The name of an object with its heap context in front. -/
def qualifiedObjectName (r : Result) (o : QualifiedObjectId) : String :=
  match r.state.objects.key? o with
  | some object => r.contextName object.context ++ ":" ++ r.objectName object.object
  | none => ""

/-- The wording of an event of this analysis. -/
def eventText (r : Result) (event : Event) : String :=
  event.text r.setting.program r.state.heap r.setting.heapModel

/-! ## Points-to sets -/

/-- The nodes of the flow graph with their numbers. -/
def nodes (r : Result) : List (Pointer × NodeId) := r.state.network.graph.nodes.toList.zipIdx

/-- The object without its heap context. -/
def underlying? (r : Result) (o : QualifiedObjectId) : Option ObjectId :=
  (r.state.objects.key? o).map (·.object)

/-- The objects of a set without their heap contexts. -/
def underlying (r : Result) (set : ObjectSet) : List ObjectId := set.toList.filterMap r.underlying?

/-- The objects of all pointers of a kind, merged. -/
def merged (r : Result) (wanted : Pointer → Bool) : List ObjectId :=
  ascending (r.nodes.flatMap fun (pointer, id) =>
    if wanted pointer then r.underlying (r.state.network.points.points id) else [])

/-- The contexts in which a variable was met. -/
def contextsOf (r : Result) (v : VarId) : List ContextId :=
  ascending (r.nodes.filterMap fun
    | (.var c w, _) => if w = v then some c else none
    | _ => none)

/-- The set of a variable in a context, if it has one. -/
def pointsToIn? (r : Result) (c : ContextId) (v : VarId) : Option ObjectSet := do
  let id ← r.state.network.graph.node? (.var c v)
  r.state.network.points.get? id

/-- The objects of a variable in all contexts. -/
def pointsTo (r : Result) (v : VarId) : List ObjectId :=
  r.merged fun
    | .var _ w => w = v
    | _ => false

/-- The objects of a static field. -/
def staticPointsTo (r : Result) (f : FieldId) : List ObjectId := r.merged fun p => p = .static f

/-- The objects of a field of an object in all heap contexts. -/
def fieldPointsTo (r : Result) (o : ObjectId) (f : FieldId) : List ObjectId :=
  r.merged fun
    | .field base g => g = f && r.underlying? base = some o
    | _ => false

/-- The objects among the elements of an array object in all heap contexts. -/
def arrayPointsTo (r : Result) (o : ObjectId) : List ObjectId :=
  r.merged fun
    | .array base => r.underlying? base = some o
    | _ => false

/-- Whether two variables can point to one object. -/
def mayAlias (r : Result) (v w : VarId) : Bool :=
  (r.pointsTo v).any fun o => (r.pointsTo w).contains o

/-! ## Calls -/

/-- The call graph with contexts merged. -/
def plainCalls (r : Result) : PlainCallGraph := r.state.calls.project

/-- Whether a method is reachable in some context. -/
def isReachable (r : Result) (m : MethodId) : Bool := r.plainCalls.isReachable m

/-- What a call site can run in some context, by number. -/
def calleesOf (r : Result) (site : CallSite) : List MethodId := ascending (r.plainCalls.callees site)

/-- The methods with a body that are not reachable, by number. -/
def deadMethods (r : Result) : List MethodId := r.plainCalls.deadMethods r.setting.program

/-! ## Events -/

/-- All that is reported from the start of the pointer analysis to its end. -/
def events (r : Result) : List Event :=
  .running r.setting.policy r.setting.heapModel :: r.state.log.toList ++
    [.completed,
     .totals r.state.calls.reachable.size r.state.calls.edges.size
       r.state.network.graph.nodes.size r.state.contexts.size]

end Result

end PointsTo
