/- # CheckedSolver -- the solver with all its lookups

The solver of this module reads every part of the program, every node, every object and every call by a lookup
that can fail (`Checked`), where the solver itself falls back on an empty part.  It also fails when the summary
of an abstract method is asked for.

Main statements: `enter_eq_ok` and `react_eq_ok`.  Entering a method with a body, and treating objects that
have numbers at a node that is there, look up only what is there, and do what the solver does. -/
import PointsTo.Proofs.Lookups
import PointsTo.Proofs.Reactions

set_option autoImplicit false

namespace PointsTo

namespace Checked

open Lookup (found)

/-! ## The solver -/

section Solver

/-- The call at a call site: its method, the statement at its position, and the call that this is. -/
def callAt (p : Program) (site : CallSite) : Lookup (Invocation VarId) := do
  let method ← readMethod p site.method
  let statement ← found method.body[site.index]? (.outsideBody site)
  found statement.call? (.notCall site)

/-- The summary of a method, which is named and has to have a body. -/
def summary (p : Program) (m : MethodId) : Lookup Summary := do
  let method ← readMethod p m
  let _ ← methodName p m
  if method.isAbstract then .error (.bodiless m) else return .ofBody m method.body

def readNode (g : FlowGraph) (id : NodeId) : Lookup Pointer := found (g.pointer? id) (.missingNode id)

/-- An edge is added between nodes that are there. -/
def flow (s : State) (source target : Pointer) (kind : FlowKind) : Lookup State := do
  let (graph, first) := s.network.graph.node source
  let (graph, second) := graph.node target
  let _ ← readNode graph first
  let _ ← readNode graph second
  return s.flow source target kind

def receiver (s : State) (o : QualifiedObjectId) : Lookup (Receiver × TypeRef) := do
  let held ← found (s.objects.key? o) (.missingQualifiedObject o)
  let object ← found (s.heap.object? held.object) (.missingObject held.object)
  return (⟨held.context, held.object, object.container⟩, object.type)

variable (setting : Setting)

/-- Words an event before it is noted. -/
def report (s : State) (event : Event) : Lookup State := do
  names setting.program s.heap setting.heapModel event
  return s.report event

def reportAll (s : State) (events : List Event) : Lookup State := events.foldlM (report setting) s

def exchange (s : State) (caller callee : QualifiedMethod) (method : Method) (call : Invocation VarId) :
    Lookup State := do
  let s ← (call.args.zip method.params).foldlM (fun s (argument, parameter) =>
    flow s (.var caller.context argument) (.var callee.context parameter) .parameter) s
  match call.result with
  | some result =>
    method.returns.foldlM (fun s v => flow s (.var callee.context v) (.var caller.context result) .result)
      (s.node (.var caller.context result))
  | none => return s

def bindCall (s : State) (caller callee : QualifiedMethod) (call : Invocation VarId) : Lookup State := do
  let s ← report setting s (.called caller.method callee.method)
  let s := s.announce callee
  let method ← readMethod setting.program callee.method
  let s ← if call.args.length ≠ method.params.length then
      report setting s (.arityMismatch callee.method call.args.length method.params.length)
    else pure s
  exchange s caller callee method call

def addCall (s : State) (site : QualifiedSite) (callee : QualifiedMethod) (call : Invocation VarId) :
    Lookup State :=
  let (calls, isNew) := s.calls.connect ⟨site, call.kind, site.caller, callee⟩
  if isNew then bindCall setting { s with calls } site.caller callee call else return s

def callStatic (s : State) (c : ContextId) (site : CallSite) : Lookup State := do
  let call ← callAt setting.program site
  let resolution ← resolveCall setting.program none call
  let s ← reportAll setting s resolution.events
  match resolution.target? with
  | none => report setting s (.unresolved call.kind call.target none site.method)
  | some m =>
    let (contexts, d) := setting.policy.internStatic s.contexts c site
    addCall setting { s with contexts } ⟨c, site⟩ ⟨d, m⟩ call

def receive (s : State) (callee : QualifiedMethod) (o : QualifiedObjectId) : Lookup State := do
  let method ← readMethod setting.program callee.method
  match method.this with
  | some this => return s.seed (.var callee.context this) o
  | none => return s

def callInstance (s : State) (c : ContextId) (site : CallSite) (o : QualifiedObjectId) : Lookup State := do
  let call ← callAt setting.program site
  let (receiver, type) ← receiver s o
  let resolution ← resolveCall setting.program (some type) call
  let s ← reportAll setting s resolution.events
  match resolution.target? with
  | none => report setting s (.unresolved call.kind call.target (some receiver.object) site.method)
  | some m =>
    let (contexts, d) := setting.policy.internInstance s.contexts c site receiver
    receive setting (← addCall setting { s with contexts } ⟨c, site⟩ ⟨d, m⟩ call) ⟨d, m⟩ o

/-- A site is read with its method when it is requested for the first time. -/
def allocate (s : State) (c : ContextId) (lhs : VarId) (site : SiteId) : Lookup State := do
  if (s.heap.known? site).isNone then
    let allocation ← readSite setting.program site
    let _ ← readMethod setting.program allocation.method
  return State.allocate setting s c lhs site

def applySummary (s : State) (c : ContextId) (summary : Summary) : Lookup State := do
  let s ← summary.allocations.foldlM (fun s (lhs, site) => allocate setting s c lhs site) s
  let s ← summary.copies.foldlM
    (fun s (source, target) => flow s (.var c source) (.var c target) .assign) s
  let s ← summary.staticLoads.foldlM (fun s (field, lhs) => flow s (.static field) (.var c lhs) .load) s
  let s ← summary.staticStores.foldlM (fun s (rhs, field) => flow s (.var c rhs) (.static field) .store) s
  summary.staticCalls.foldlM (fun s site => callStatic setting s c site) s

def enter (s : State) (m : QualifiedMethod) : Lookup State := do
  let known := s.calls.reachable.any fun other => other.method = m.method
  let (calls, isNew) := s.calls.reach m
  if !isNew then return s
  else
    let s ← report setting { s with calls }
      (.processing m.method (setting.policy.contextOf s.contexts m.context))
    let summary ← summary setting.program m.method
    let s ← if known then pure s else report setting s (.summarised m.method)
    applySummary setting s m.context summary

def applyAccesses (s : State) (c : ContextId) (accesses : Accesses) (o : QualifiedObjectId) :
    Lookup State := do
  let s ← accesses.storeFields.foldlM (fun s (field, rhs) => flow s (.var c rhs) (.field o field) .store) s
  let s ← accesses.loadFields.foldlM (fun s (field, lhs) => flow s (.field o field) (.var c lhs) .load) s
  let s ← accesses.storeArrays.foldlM (fun s rhs => flow s (.var c rhs) (.array o) .arrayStore) s
  let s ← accesses.loadArrays.foldlM (fun s lhs => flow s (.array o) (.var c lhs) .arrayLoad) s
  accesses.calls.foldlM (fun s site => callInstance setting s c site o) s

def react (s : State) (id : NodeId) (delta : ObjectSet) : Lookup State := do
  match ← readNode s.network.graph id with
  | .var c v =>
    let var ← readVar setting.program v
    let summary ← summary setting.program var.method
    delta.toList.foldlM (fun s o => applyAccesses setting s c (summary.accessesOf v) o) s
  | _ => return s

def step (s : State) : Lookup (Option State) :=
  match s.network.pop? with
  | none => return none
  | some (item, network) =>
    let s := { s with network, iterations := s.iterations + 1 }
    match item with
    | .method m => do return some (← enter setting s m)
    | .objects id set =>
      let (network, delta) := s.network.absorb id set
      let s := { s with network }
      if delta.isEmpty then return some s else do return some (← react setting s id delta)

def steps : Nat → State → Lookup State
  | 0, s => return s
  | count + 1, s => do
    match ← step setting s with
    | none => return s
    | some next => steps count next

def settle : Nat → Nat → State → Lookup State
  | 0, _, s => return s
  | rounds + 1, length, s => do
    let s ← steps setting length s
    if s.network.pending.isEmpty then return s else settle rounds (2 * length) s

/-- The solver from its start to its end. -/
def run : Lookup State := settle setting setting.rounds 1 (State.start setting)

end Solver

/-! ## Lookups that succeed -/

section Reading

theorem callAt_eq_ok {p : Program} {site : CallSite} {call : Invocation VarId}
    (statement : p.callAt? site = some call) : callAt p site = .ok call := by
  obtain ⟨method, read, inBody⟩ := Program.getElem?_of_bodyOf (Program.getElem?_of_callAt? statement)
  simp [callAt, readMethod, read, inBody, Statement.call?]

theorem summary_eq_ok {p : Program} (inRange : p.InRange) {m : MethodId} (inUse : m < p.methods.size)
    (body : p.isAbstract m = false) : summary p m = .ok (Summary.ofBody m (p.bodyOf m)) := by
  obtain ⟨method, read, found⟩ := exists_readMethod inUse
  have concrete : method.isAbstract = false := by simpa [Program.isAbstract, read] using body
  simp [summary, found, methodName_eq_ok inRange inUse, concrete, Program.bodyOf, read]

theorem readNode_eq_ok {g : FlowGraph} {id : NodeId} {pointer : Pointer}
    (here : g.pointer? id = some pointer) : readNode g id = .ok pointer := by
  simp [readNode, here]

/-- The ends of an edge get their nodes before it is added. -/
@[simp] theorem flow_eq_ok (s : State) (source target : Pointer) (kind : FlowKind) :
    flow s source target kind = .ok (s.flow source target kind) := by
  have first : (s.network.graph.node source).1.pointer? (s.network.graph.node source).2 = some source :=
    Table.key?_intern _ source
  have second : ((s.network.graph.node source).1.node target).1.pointer?
      ((s.network.graph.node source).1.node target).2 = some target := Table.key?_intern _ target
  have still : ((s.network.graph.node source).1.node target).1.pointer?
      (s.network.graph.node source).2 = some source := Table.intern_extends _ target first
  simp [flow, readNode_eq_ok still, readNode_eq_ok second]

/-- Edges along a list. -/
theorem flows_eq_ok {α : Type} (source target : α → Pointer) (kind : FlowKind) (xs : List α) (s : State) :
    xs.foldlM (fun s x => flow s (source x) (target x) kind) s =
      .ok (xs.foldl (fun s x => s.flow (source x) (target x) kind) s) :=
  foldlM_eq_ok (fun _ => True) (fun _ _ s _ => ⟨flow_eq_ok s _ _ kind, trivial⟩) trivial

theorem receiver_eq_ok {s : State} {o : QualifiedObjectId} {answer : Receiver × TypeRef}
    (found : s.receiver? o = some answer) : receiver s o = .ok answer := by
  obtain ⟨held, object, read, made, same, type⟩ := State.receiver?_eq_some found
  simp [receiver, read, made, ← same, ← type]

end Reading

section Rules

variable {setting : Setting} (inRange : setting.program.InRange)
include inRange

theorem report_eq_ok (s : State) (event : Event)
    (methods : ∀ m ∈ event.methods, m < setting.program.methods.size)
    (classes : ∀ c ∈ event.classes, c < setting.program.classes.size)
    (objects : ∀ o ∈ event.objects, objectName setting.program s.heap setting.heapModel o =
      .ok (s.heap.name setting.heapModel setting.program o)) :
    report setting s event = .ok (s.report event) := by
  rw [report, names_eq_ok inRange methods classes objects]
  rfl

/-- Events in which only methods are named. -/
theorem report_methods_eq_ok (s : State) (event : Event)
    (methods : ∀ m ∈ event.methods, m < setting.program.methods.size) (classes : event.classes = [])
    (objects : event.objects = []) : report setting s event = .ok (s.report event) :=
  report_eq_ok inRange s event methods (by simp [classes]) (by simp [objects])

/-! ### Calls -/

variable {site : CallSite} {call : Invocation VarId}

omit inRange in
/-- Resolving a call reports the class of the receiver, or that there is no receiver. -/
theorem mem_events_of_resolveCall {receiver : Option TypeRef} {event : Event}
    (member : event ∈ (setting.program.resolveCall receiver call).events) :
    (∃ c, receiver = some (.ofClass c) ∧ event = .notSubtype c call.target.owner) ∨
      event = .noReceiver call.target := by
  have quiet (lookup : Option MethodId) : (Resolution.ofLookup lookup).events = [] := by
    cases lookup <;> rfl
  unfold Program.resolveCall at member
  split at member
  · split at member
    · exact .inr (List.mem_singleton.mp member)
    · rename_i c
      split at member
      · simp [quiet] at member
      · exact .inl ⟨c, rfl, List.mem_singleton.mp member⟩
    · simp [quiet] at member
  · simp [quiet] at member

theorem reportAll_events_eq_ok (s : State) {receiver : Option TypeRef}
    (owner : call.target.owner < setting.program.classes.size)
    (inUse : ∀ type, receiver = some type → ∀ c, type.class? = some c → c < setting.program.classes.size) :
    reportAll setting s (setting.program.resolveCall receiver call).events =
      .ok (s.reportAll (setting.program.resolveCall receiver call).events) := by
  refine foldlM_eq_ok (fun _ => True) (fun event member t _ => ⟨?_, trivial⟩) trivial
  rcases mem_events_of_resolveCall member with ⟨c, given, rfl⟩ | rfl
  · have here := inUse _ given c rfl
    exact report_eq_ok inRange _ _ (by simp [Event.methods]) (by simp [Event.classes, here, owner])
      (by simp [Event.objects])
  · exact report_methods_eq_ok inRange _ _ (by simp [Event.methods]) rfl rfl

omit inRange in
theorem exchange_eq_ok (s : State) (caller callee : QualifiedMethod) {method : Method}
    (read : setting.program.methods[callee.method]? = some method) (call : Invocation VarId) :
    exchange s caller callee method call = .ok (State.exchange setting s caller callee call) := by
  have parameters : setting.program.paramsOf callee.method = method.params := by
    simp [Program.paramsOf, read]
  have returned : setting.program.returnsOf callee.method = method.returns := by
    simp [Program.returnsOf, read]
  rw [exchange, flows_eq_ok, Lookup.ok_bind, State.exchange, parameters, returned]
  cases call.result with
  | none => rfl
  | some result => exact flows_eq_ok _ _ .result method.returns _

theorem bindCall_eq_ok (s : State) {caller callee : QualifiedMethod}
    (callerInUse : caller.method < setting.program.methods.size)
    (calleeInUse : callee.method < setting.program.methods.size) (call : Invocation VarId) :
    bindCall setting s caller callee call = .ok (State.bindCall setting s caller callee call) := by
  obtain ⟨method, read, found⟩ := exists_readMethod calleeInUse
  have parameters : setting.program.paramsOf callee.method = method.params := by
    simp [Program.paramsOf, read]
  have called := report_methods_eq_ok inRange s (.called caller.method callee.method)
    (by simp [Event.methods, callerInUse, calleeInUse]) rfl rfl
  have mismatch (t : State) := report_methods_eq_ok inRange t
    (.arityMismatch callee.method call.args.length method.params.length)
    (by simp [Event.methods, calleeInUse]) rfl rfl
  simp only [bindCall, called, found, Lookup.ok_bind, State.bindCall, parameters]
  split
  · rw [mismatch]
    exact exchange_eq_ok _ caller callee read call
  · exact exchange_eq_ok _ caller callee read call

theorem addCall_eq_ok (s : State) {site : QualifiedSite} {callee : QualifiedMethod}
    (callerInUse : site.site.method < setting.program.methods.size)
    (calleeInUse : callee.method < setting.program.methods.size) (call : Invocation VarId) :
    addCall setting s site callee call = .ok (State.addCall setting s site callee call) := by
  simp only [addCall, State.addCall]
  split
  · exact bindCall_eq_ok inRange _ callerInUse calleeInUse call
  · rfl

omit inRange in
theorem method_lt (statement : setting.program.callAt? site = some call) :
    site.method < setting.program.methods.size :=
  Program.lt_of_mem_bodyOf (Program.mem_bodyOf_of_callAt? statement)

theorem callStatic_eq_ok (s : State) (c : ContextId) (statement : setting.program.callAt? site = some call) :
    callStatic setting s c site = .ok (State.callStatic setting s c site) := by
  have caller := method_lt statement
  have owner := inRange.target_lt statement
  have resolves : resolveCall setting.program none call = _ := resolveCall_eq_ok inRange owner nofun
  have reports : reportAll setting s (setting.program.resolveCall none call).events = _ :=
    reportAll_events_eq_ok inRange s owner nofun
  simp only [callStatic, callAt_eq_ok statement, resolves, reports, Lookup.ok_bind, State.callStatic,
    statement]
  cases found : (setting.program.resolveCall none call).target? with
  | none =>
      exact report_eq_ok inRange _ _ (by simp [Event.methods, caller]) (by simp [Event.classes, owner])
        (by simp [Event.objects])
  | some m => exact addCall_eq_ok inRange _ caller (Program.lt_of_resolveCall found) call

omit inRange in
theorem receive_eq_ok (s : State) {callee : QualifiedMethod}
    (inUse : callee.method < setting.program.methods.size) (o : QualifiedObjectId) :
    receive setting s callee o = .ok (State.receive setting s callee o) := by
  obtain ⟨method, read, found⟩ := exists_readMethod inUse
  have this : setting.program.thisOf callee.method = method.this := by simp [Program.thisOf, read]
  rw [receive, found, Lookup.ok_bind, State.receive, this]
  cases method.this <;> rfl

theorem callInstance_eq_ok {s : State} (placed : s.heap.Placed setting.program) (c : ContextId)
    (statement : setting.program.callAt? site = some call) {o : QualifiedObjectId}
    (inUse : ∃ answer, s.receiver? o = some answer) :
    callInstance setting s c site o = .ok (State.callInstance setting s c site o) := by
  obtain ⟨⟨r, type⟩, known⟩ := inUse
  obtain ⟨held, object, -, made, rfl, rfl⟩ := State.receiver?_eq_some known
  have caller := method_lt statement
  have owner := inRange.target_lt statement
  have classes : ∀ t, some object.type = some t → ∀ d, t.class? = some d →
      d < setting.program.classes.size := by
    rintro t ⟨⟩ d type
    obtain ⟨allocated, same⟩ := placed made
    exact inRange.type_lt allocated (same ▸ type)
  have resolves := resolveCall_eq_ok inRange owner classes
  have reports := reportAll_events_eq_ok inRange s owner classes
  simp only [callInstance, callAt_eq_ok statement, receiver_eq_ok known, resolves, reports, Lookup.ok_bind,
    State.callInstance, statement, known]
  cases found : (setting.program.resolveCall (some object.type) call).target? with
  | none =>
      refine report_eq_ok inRange _ _ (by simp [Event.methods, caller]) (by simp [Event.classes, owner]) ?_
      have same := (State.sameObjects_reportAll s
        (setting.program.resolveCall (some object.type) call).events).heap
      simpa [Event.objects, same] using
        objectName_eq_ok inRange placed setting.heapModel (Heap.lt_of_object? made)
  | some m =>
      have callee := Program.lt_of_resolveCall found
      have added (t : State) (d e : ContextId) : addCall setting t ⟨d, site⟩ ⟨e, m⟩ call = _ :=
        addCall_eq_ok inRange t caller callee call
      simp only [added, Lookup.ok_bind]
      exact receive_eq_ok _ callee o

/-! ### Methods and objects -/

theorem allocate_eq_ok (s : State) (c : ContextId) (lhs : VarId) {site : SiteId}
    (inUse : site < setting.program.sites.size) :
    allocate setting s c lhs site = .ok (State.allocate setting s c lhs site) := by
  obtain ⟨allocation, read, found⟩ := exists_readSite inUse
  obtain ⟨method, -, container⟩ := exists_readMethod (inRange.siteMethod_lt read)
  unfold allocate
  split
  · simp [found, container]
  · rfl

theorem applySummary_eq_ok (s : State) (c : ContextId) (summary : Summary)
    (allocated : ∀ {lhs site}, (lhs, site) ∈ summary.allocations → site < setting.program.sites.size)
    (called : ∀ site ∈ summary.staticCalls, ∃ call, setting.program.callAt? site = some call) :
    applySummary setting s c summary = .ok (State.applySummary setting s c summary) := by
  have allocations : summary.allocations.foldlM (fun s (lhs, site) => allocate setting s c lhs site) s =
      .ok (summary.allocations.foldl (fun s (lhs, site) => State.allocate setting s c lhs site) s) :=
    foldlM_eq_ok (fun _ => True)
      (fun entry member s _ => ⟨allocate_eq_ok inRange s c entry.1 (allocated member), trivial⟩) trivial
  have calls (t : State) : summary.staticCalls.foldlM (fun s site => callStatic setting s c site) t =
      .ok (summary.staticCalls.foldl (fun s site => State.callStatic setting s c site) t) := by
    refine foldlM_eq_ok (fun _ => True) (fun site member s _ => ⟨?_, trivial⟩) trivial
    obtain ⟨call, statement⟩ := called site member
    exact callStatic_eq_ok inRange s c statement
  unfold applySummary
  rw [allocations, Lookup.ok_bind, flows_eq_ok, Lookup.ok_bind, flows_eq_ok, Lookup.ok_bind, flows_eq_ok,
    Lookup.ok_bind, calls]
  rfl

theorem applyAccesses_eq_ok {s : State} (placed : s.heap.Placed setting.program) (c : ContextId)
    {accesses : Accesses} (called : ∀ site ∈ accesses.calls, ∃ call, setting.program.callAt? site = some call)
    {o : QualifiedObjectId} (inUse : ∃ answer, s.receiver? o = some answer) :
    applyAccesses setting s c accesses o = .ok (State.applyAccesses setting s c accesses o) := by
  -- Neither edges nor calls make objects, so the receiver is known at every call.
  have calls {t : State} (same : s.SameObjects t) :
      accesses.calls.foldlM (fun s site => callInstance setting s c site o) t =
        .ok (accesses.calls.foldl (fun s site => State.callInstance setting s c site o) t) := by
    refine foldlM_eq_ok (fun t => s.SameObjects t) (fun site member t same => ⟨?_, ?_⟩) same
    · obtain ⟨call, statement⟩ := called site member
      exact callInstance_eq_ok inRange (same.heap.symm ▸ placed) c statement
        (by rw [same.receiver?]; exact inUse)
    · exact same.trans (State.sameObjects_callInstance setting t c site o)
  have edges {α : Type} (source target : α → Pointer) (kind : FlowKind) (xs : List α) (t : State) :
      t.SameObjects (xs.foldl (fun s x => s.flow (source x) (target x) kind) t) := by
    refine .foldl (fun t x => ?_) xs t
    exact ⟨rfl, rfl⟩
  unfold applyAccesses
  rw [flows_eq_ok, Lookup.ok_bind, flows_eq_ok, Lookup.ok_bind, flows_eq_ok, Lookup.ok_bind, flows_eq_ok,
    Lookup.ok_bind, calls]
  · rfl
  · exact (((edges _ _ _ _ s).trans (edges _ _ _ _ _)).trans (edges _ _ _ _ _)).trans (edges _ _ _ _ _)

theorem enter_eq_ok (s : State) {m : QualifiedMethod} (inUse : m.method < setting.program.methods.size)
    (body : setting.program.isAbstract m.method = false) :
    enter setting s m = .ok (State.enter setting s m) := by
  have processing (t : State) (context : Context) := report_methods_eq_ok inRange t
    (.processing m.method context) (by simp [Event.methods, inUse]) rfl rfl
  have summarised (t : State) := report_methods_eq_ok inRange t (.summarised m.method)
    (by simp [Event.methods, inUse]) rfl rfl
  have made : setting.program.summary? m.method =
      some (Summary.ofBody m.method (setting.program.bodyOf m.method)) := by
    simp [Program.summary?, body]
  have applied (t : State) := applySummary_eq_ok inRange t m.context
    (.ofBody m.method (setting.program.bodyOf m.method))
    (fun member => inRange.site_lt ⟨_, _, Summary.mem_allocations.mp member⟩)
    (fun site member => (mem_callSitesOf_bodyOf.mp member).2.imp fun _ => And.left)
  simp only [enter, State.enter, made]
  split
  · rfl
  · simp only [processing, summary_eq_ok inRange inUse body, Lookup.ok_bind]
    split
    · exact applied _
    · rw [summarised]
      exact applied _

/-- Objects that were handed out are treated at a variable of a method with a body. -/
theorem react_eq_ok {s : State} (placed : s.heap.Placed setting.program) {id : NodeId} {pointer : Pointer}
    (here : s.network.graph.pointer? id = some pointer)
    (runnable : ∀ c v, pointer = .var c v → ∃ m, setting.program.Owns m v ∧
      m < setting.program.methods.size ∧ setting.program.isAbstract m = false)
    {delta : ObjectSet} (inUse : ∀ o ∈ delta.toList, ∃ answer, s.receiver? o = some answer) :
    react setting s id delta = .ok (State.react setting s id delta) := by
  rw [react, readNode_eq_ok here, Lookup.ok_bind]
  unfold State.react
  rw [here]
  cases pointer with
  | var c v =>
      obtain ⟨m, owned, declared, body⟩ := runnable c v rfl
      obtain ⟨var, read, same⟩ := Option.map_eq_some_iff.mp owned
      have made : setting.program.summary? m = some (Summary.ofBody m (setting.program.bodyOf m)) := by
        simp [Program.summary?, body]
      simp only [readVar, read, Lookup.found_some, Lookup.ok_bind, same, summary_eq_ok inRange declared body,
        owned.methodOfVar, made]
      refine foldlM_eq_ok (fun t => s.SameObjects t) (fun o member t same => ⟨?_, ?_⟩) (.refl s)
      · exact applyAccesses_eq_ok inRange (same.heap.symm ▸ placed) c
          (fun site member => (mem_callSitesOf_bodyOf.mp member).2.imp fun _ => And.left)
          (by rw [same.receiver?]; exact inUse o member)
      · exact same.trans (State.sameObjects_applyAccesses setting t c _ o)
  | _ => rfl

end Rules

end Checked

end PointsTo
