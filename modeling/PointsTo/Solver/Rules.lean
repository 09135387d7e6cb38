/- # Rules -- how the statements of a program change the state

`enter` treats a method that has become reachable in a context: its allocations, copies, accesses to static
fields and calls without receiver take effect.  `react` treats objects that are new at a variable: the
statements through the variable take effect for each of them.  A call edge that is new connects arguments
with parameters and returned variables with the result. -/
import PointsTo.Solver.State

set_option autoImplicit false

namespace PointsTo.State

variable (setting : Setting)

/-! ## Calls -/

/-- Lets the arguments of a call flow to the parameters, as far as there are both. -/
def passArguments (s : State) (caller callee : ContextId) (arguments parameters : List VarId) :
    State :=
  (arguments.zip parameters).foldl
    (fun s (argument, parameter) => s.flow (.var caller argument) (.var callee parameter) .parameter) s

/-- Lets the returned variables of a callee flow to the result of a call. -/
def returnResult (s : State) (caller callee : ContextId) (returned : List VarId) (result : VarId) :
    State :=
  returned.foldl (fun s v => s.flow (.var callee v) (.var caller result) .result)
    (s.node (.var caller result))

/-- Lets objects flow from a caller to a callee and back. -/
def exchange (s : State) (caller callee : QualifiedMethod) (call : Invocation VarId) : State :=
  let s := s.passArguments caller.context callee.context call.args
    (setting.program.paramsOf callee.method)
  match call.result with
  | some result =>
    s.returnResult caller.context callee.context (setting.program.returnsOf callee.method) result
  | none => s

/-- Connects a caller with a callee that its call did not run before. -/
def bindCall (s : State) (caller callee : QualifiedMethod) (call : Invocation VarId) : State :=
  let parameters := setting.program.paramsOf callee.method
  let s := (s.report (.called caller.method callee.method)).announce callee
  let s :=
    if call.args.length ≠ parameters.length then
      s.report (.arityMismatch callee.method call.args.length parameters.length)
    else s
  exchange setting s caller callee call

/-- Records that a call site runs a callee. -/
def addCall (s : State) (site : QualifiedSite) (callee : QualifiedMethod) (call : Invocation VarId) :
    State :=
  let (calls, isNew) := s.calls.connect ⟨site, call.kind, site.caller, callee⟩
  if isNew then bindCall setting { s with calls } site.caller callee call else s

/-- Resolves a call without receiver in a context of its method. -/
def callStatic (s : State) (c : ContextId) (site : CallSite) : State :=
  match setting.program.callAt? site with
  | none => s
  | some call =>
    let resolution := setting.program.resolveCall none call
    let s := s.reportAll resolution.events
    match resolution.target? with
    | none => s.report (.unresolved call.kind call.target none site.method)
    | some m =>
      let (contexts, d) := setting.policy.internStatic s.contexts c site
      addCall setting { s with contexts } ⟨c, site⟩ ⟨d, m⟩ call

/-- Sends an object to the receiver variable of a callee, if it has one. -/
def receive (s : State) (callee : QualifiedMethod) (o : QualifiedObjectId) : State :=
  match setting.program.thisOf callee.method with
  | some this => s.seed (.var callee.context this) o
  | none => s

/-- Resolves a call in a context of its method for one receiver object, which flows to the receiver variable
of the callee also when the call was known. -/
def callInstance (s : State) (c : ContextId) (site : CallSite) (o : QualifiedObjectId) : State :=
  match setting.program.callAt? site, s.receiver? o with
  | some call, some (receiver, type) =>
    let resolution := setting.program.resolveCall (some type) call
    let s := s.reportAll resolution.events
    match resolution.target? with
    | none => s.report (.unresolved call.kind call.target (some receiver.object) site.method)
    | some m =>
      let (contexts, d) := setting.policy.internInstance s.contexts c site receiver
      receive setting (addCall setting { s with contexts } ⟨c, site⟩ ⟨d, m⟩ call) ⟨d, m⟩ o
  | _, _ => s

/-! ## Methods -/

/-- Sends the object of an allocation to its target. -/
def allocate (s : State) (c : ContextId) (lhs : VarId) (site : SiteId) : State :=
  let (heap, object) := s.heap.request setting.heapModel setting.program site
  let (contexts, heapContext) := setting.policy.internHeap s.contexts c
  let (objects, o) := s.objects.intern ⟨heapContext, object⟩
  { s with heap, contexts, objects }.seed (.var c lhs) o

/-- The immediate statements of a method take effect in a context. -/
def applySummary (s : State) (c : ContextId) (summary : Summary) : State :=
  let s := summary.allocations.foldl (fun s (lhs, site) => allocate setting s c lhs site) s
  let s := summary.copies.foldl
    (fun s (source, target) => s.flow (.var c source) (.var c target) .assign) s
  let s := summary.staticLoads.foldl (fun s (field, lhs) => s.flow (.static field) (.var c lhs) .load) s
  let s := summary.staticStores.foldl
    (fun s (rhs, field) => s.flow (.var c rhs) (.static field) .store) s
  summary.staticCalls.foldl (fun s site => callStatic setting s c site) s

/-- A method becomes reachable in a context; nothing happens when it was. -/
def enter (s : State) (m : QualifiedMethod) : State :=
  let known := s.calls.reachable.any fun other => other.method = m.method
  let (calls, isNew) := s.calls.reach m
  if !isNew then s
  else
    let s := { s with calls }.report
      (.processing m.method (setting.policy.contextOf s.contexts m.context))
    match setting.program.summary? m.method with
    | none => s.report (.bodiless m.method)
    | some summary =>
      applySummary setting (if known then s else s.report (.summarised m.method)) m.context summary

/-! ## Objects -/

/-- The statements through a variable take effect for one object. -/
def applyAccesses (s : State) (c : ContextId) (accesses : Accesses) (o : QualifiedObjectId) : State :=
  let s := accesses.storeFields.foldl
    (fun s (field, rhs) => s.flow (.var c rhs) (.field o field) .store) s
  let s := accesses.loadFields.foldl
    (fun s (field, lhs) => s.flow (.field o field) (.var c lhs) .load) s
  let s := accesses.storeArrays.foldl (fun s rhs => s.flow (.var c rhs) (.array o) .arrayStore) s
  let s := accesses.loadArrays.foldl (fun s lhs => s.flow (.array o) (.var c lhs) .arrayLoad) s
  accesses.calls.foldl (fun s site => callInstance setting s c site o) s

/-- Objects are new at a node; the statements through its variable take effect for each of them. -/
def react (s : State) (id : NodeId) (delta : ObjectSet) : State :=
  match s.network.graph.pointer? id with
  | some (.var c v) =>
    match setting.program.summary? (setting.program.methodOfVar v) with
    | some summary =>
      delta.toList.foldl (fun s o => applyAccesses setting s c (summary.accessesOf v) o) s
    | none => s
  | _ => s

end PointsTo.State
