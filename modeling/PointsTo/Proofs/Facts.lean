/- # Facts -- what a state of the solver says

A state is read as a set of facts over the numbers of contexts and objects.  `State.Present` are the facts
that it has recorded, `State.Expected` are these and what is still queued, and `State.domain` says what its
numbers mean to the rules: the number that the tables and the policy of the state give out.  `State.Grows`
says what no step takes back, and in a `State.Valid` state all numbers are in use.

Main statements: a number in use stands for what the rules ask for exactly when the domain gives it
(`allocates_of_lt`, `object_of_allocates` and their like), and it does so in all later states
(`Allocates.mono` and its like). -/
import PointsTo.Proofs.CallGraphs
import PointsTo.Proofs.Constraints
import PointsTo.Proofs.Contexts
import PointsTo.Proofs.Delivery
import PointsTo.Proofs.Origins
import PointsTo.Solver.Run

set_option autoImplicit false

namespace PointsTo

/-- All contexts and objects of a pointer have numbers below the bounds. -/
def PointerOf.Below (contexts objects : Nat) : Pointer → Prop
  | .var c _ => c < contexts
  | .static _ => True
  | .field o _ | .array o => o < objects

/-- All contexts and objects of a fact have numbers below the bounds. -/
def Fact.Below (contexts objects : Nat) : Fact ContextId QualifiedObjectId → Prop
  | .reach c _ => c < contexts
  | .call c _ d _ => c < contexts ∧ d < contexts
  | .flow p q => p.Below contexts objects ∧ q.Below contexts objects
  | .holds p o => p.Below contexts objects ∧ o < objects

theorem PointerOf.Below.mono {contexts objects contexts' objects' : Nat} {p : Pointer}
    (moreContexts : contexts ≤ contexts') (moreObjects : objects ≤ objects')
    (below : p.Below contexts objects) : p.Below contexts' objects' := by
  cases p with
  | var c v => exact Nat.lt_of_lt_of_le below moreContexts
  | static f => trivial
  | field o f => exact Nat.lt_of_lt_of_le below moreObjects
  | array o => exact Nat.lt_of_lt_of_le below moreObjects

theorem Fact.Below.mono {contexts objects contexts' objects' : Nat}
    {fact : Fact ContextId QualifiedObjectId} (moreContexts : contexts ≤ contexts')
    (moreObjects : objects ≤ objects') (below : fact.Below contexts objects) :
    fact.Below contexts' objects' := by
  cases fact with
  | reach c m => exact Nat.lt_of_lt_of_le below moreContexts
  | call c site d m =>
      exact ⟨Nat.lt_of_lt_of_le below.1 moreContexts, Nat.lt_of_lt_of_le below.2 moreContexts⟩
  | flow p q => exact ⟨below.1.mono moreContexts moreObjects, below.2.mono moreContexts moreObjects⟩
  | holds p o =>
      exact ⟨below.1.mono moreContexts moreObjects, Nat.lt_of_lt_of_le below.2 moreObjects⟩

namespace State

/-! ## Facts of a state -/

/-- What a state has recorded. -/
def Present (s : State) : Fact ContextId QualifiedObjectId → Prop
  | .reach c m => ⟨c, m⟩ ∈ s.calls.reachable
  | .call c site d m => ∃ e ∈ s.calls.edges, e.site = ⟨c, site⟩ ∧ e.callee = ⟨d, m⟩
  | .flow p q => ∃ e ∈ s.network.graph.edges,
      s.network.graph.pointer? e.source = some p ∧ s.network.graph.pointer? e.target = some q
  | .holds p o => o ∈ s.points p

/-- What a state has recorded or queued. -/
def Expected (s : State) : Fact ContextId QualifiedObjectId → Prop
  | .reach c m => ⟨c, m⟩ ∈ s.calls.reachable ∨ s.network.Announces ⟨c, m⟩
  | .call c site d m => ∃ e ∈ s.calls.edges, e.site = ⟨c, site⟩ ∧ e.callee = ⟨d, m⟩
  | .flow p q => ∃ e ∈ s.network.graph.edges,
      s.network.graph.pointer? e.source = some p ∧ s.network.graph.pointer? e.target = some q
  | .holds p o => ∃ id, s.network.graph.pointer? id = some p ∧ s.network.Arrives id o

/-- What the numbers of a state mean: the numbers that its tables and the policy give out. -/
def domain (setting : Setting) (s : State) : Domain ContextId QualifiedObjectId where
  initial := ContextTable.emptyId
  object c site :=
    (s.objects.intern ⟨(setting.policy.internHeap s.contexts c).2,
      (s.heap.request setting.heapModel setting.program site).2⟩).2
  type o := ((s.receiver? o).map (·.2)).getD (.array "")
  callStatic c site := (setting.policy.internStatic s.contexts c site).2
  callInstance c site o :=
    match s.receiver? o with
    | some (receiver, _) => (setting.policy.internInstance s.contexts c site receiver).2
    | none => ContextTable.emptyId

/-- The states of a run. -/
inductive Reached (setting : Setting) : State → Prop
  | start : Reached setting (start setting)
  | step {s next : State} (before : Reached setting s) (taken : step setting s = some next) :
      Reached setting next

/-! ## Growth -/

/-- The later state has all that the earlier one has, where queued work may have been done. -/
structure Grows (s t : State) : Prop where
  contexts : s.contexts.Extends t.contexts
  heap : s.heap.Extends t.heap
  objects : s.objects.Extends t.objects
  network : s.network.Grows t.network
  calls : s.calls.edges.toList <+: t.calls.edges.toList
  reachable : s.calls.reachable.toList <+: t.calls.reachable.toList
  reach : ∀ c m, s.Expected (.reach c m) → t.Expected (.reach c m)

theorem Grows.refl (s : State) : s.Grows s :=
  ⟨.refl _, .refl _, .refl _, .refl _, List.prefix_refl _, List.prefix_refl _, fun _ _ => id⟩

theorem Grows.trans {s t u : State} (first : s.Grows t) (second : t.Grows u) : s.Grows u :=
  ⟨first.contexts.trans second.contexts, first.heap.trans second.heap,
    first.objects.trans second.objects, first.network.trans second.network,
    first.calls.trans second.calls, first.reachable.trans second.reachable,
    fun c m expected => second.reach c m (first.reach c m expected)⟩

theorem mem_of_prefix {α : Type} {xs ys : Array α} (grown : xs.toList <+: ys.toList) {a : α}
    (member : a ∈ xs) : a ∈ ys :=
  Array.mem_toList_iff.mp (grown.subset (Array.mem_toList_iff.mpr member))

theorem Grows.expected {s t : State} (grown : s.Grows t) {fact : Fact ContextId QualifiedObjectId}
    (expected : s.Expected fact) : t.Expected fact := by
  cases fact with
  | reach c m => exact grown.reach c m expected
  | call c site d m =>
      obtain ⟨e, edge, ends⟩ := expected
      exact ⟨e, mem_of_prefix grown.calls edge, ends⟩
  | flow p q =>
      obtain ⟨e, edge, source, target⟩ := expected
      exact ⟨e, mem_of_prefix grown.network.edges edge, grown.network.nodes.key? source,
        grown.network.nodes.key? target⟩
  | holds p o =>
      obtain ⟨id, pointer, arrives⟩ := expected
      exact ⟨id, grown.network.nodes.key? pointer, grown.network.arrives id o arrives⟩

/-! ## Validity -/

/-- All numbers in a state are in use, and nothing has two numbers. -/
structure Valid (setting : Setting) (s : State) : Prop where
  contexts : s.contexts.Valid setting.policy
  elements : ∀ {context}, context ∈ s.contexts.toList → ∀ {o}, .object o ∈ context → o < s.heap.size
  heap : s.heap.Valid setting.heapModel setting.program
  objects : s.objects.toList.Nodup
  parts : ∀ {o}, o ∈ s.objects.toList → o.context < s.contexts.size ∧ o.object < s.heap.size
  nodes : s.network.graph.nodes.toList.Nodup
  edges : ∀ {e}, e ∈ s.network.graph.edges →
    e.source < s.network.graph.nodes.size ∧ e.target < s.network.graph.nodes.size
  arrivals : ∀ {id o}, s.network.Arrives id o → id < s.network.graph.nodes.size
  facts : ∀ {fact}, s.Expected fact → fact.Below s.contexts.size s.objects.size

theorem mem_points_iff {s : State} (distinct : s.network.graph.nodes.toList.Nodup) {p : Pointer}
    {o : QualifiedObjectId} : o ∈ s.points p ↔
      ∃ id, s.network.graph.pointer? id = some p ∧ o ∈ s.network.points.points id := by
  have numbered : ∀ id, s.network.graph.node? p = some id ↔ s.network.graph.pointer? id = some p :=
    fun id => Table.number?_eq_some_iff distinct
  unfold State.points
  constructor
  · intro held
    cases found : s.network.graph.node? p with
    | none => simp [found] at held
    | some id => exact ⟨id, (numbered id).mp found, by simpa [found] using held⟩
  · rintro ⟨id, pointer, held⟩
    simpa [(numbered id).mpr pointer] using held

theorem Valid.expected_of_present {setting : Setting} {s : State} (valid : s.Valid setting)
    {fact : Fact ContextId QualifiedObjectId} (present : s.Present fact) : s.Expected fact := by
  cases fact with
  | reach c m => exact .inl present
  | call c site d m => exact present
  | flow p q => exact present
  | holds p o =>
      obtain ⟨id, pointer, held⟩ := (mem_points_iff valid.nodes).mp present
      exact ⟨id, pointer, .inl held⟩

/-! ## What numbers mean -/

/-- A number stands for what a site allocates in a context. -/
def Allocates (setting : Setting) (s : State) (c : ContextId) (site : SiteId) (o : QualifiedObjectId) :
    Prop :=
  ∃ held object, s.objects.key? o = some held ∧
    s.contexts.key? held.context = some (setting.policy.heapContext (s.contexts.context c)) ∧
    s.heap.object? held.object = some object ∧
    object.origin setting.heapModel = setting.program.originAt setting.heapModel site

/-- A number stands for the context of a method that a site calls without a receiver. -/
def SelectsStatic (setting : Setting) (s : State) (c : ContextId) (site : CallSite) (d : ContextId) :
    Prop :=
  s.contexts.key? d = some (setting.policy.staticContext (s.contexts.context c) site)

/-- A number stands for the context of a method that a site calls on an object. -/
def SelectsInstance (setting : Setting) (s : State) (c : ContextId) (site : CallSite)
    (o : QualifiedObjectId) (d : ContextId) : Prop :=
  ∃ receiver type, s.receiver? o = some (receiver, type) ∧
    s.contexts.key? d = some (setting.policy.instanceContext (s.contexts.context c) site
      (s.contexts.context receiver.context) receiver.object receiver.container)

theorem receiver?_eq_some {s : State} {o : QualifiedObjectId} {receiver : Receiver} {type : TypeRef}
    (found : s.receiver? o = some (receiver, type)) :
    ∃ held object, s.objects.key? o = some held ∧ s.heap.object? held.object = some object ∧
      receiver = ⟨held.context, held.object, object.container⟩ ∧ type = object.type := by
  obtain ⟨held, read, rest⟩ := Option.bind_eq_some_iff.mp found
  obtain ⟨object, made, same⟩ := Option.bind_eq_some_iff.mp rest
  simp only [Option.pure_def, Option.some.injEq, Prod.mk.injEq] at same
  exact ⟨held, object, read, made, same.1.symm, same.2.symm⟩

theorem Grows.receiver? {s t : State} (grown : s.Grows t) {o : QualifiedObjectId}
    {answer : Receiver × TypeRef} (found : s.receiver? o = some answer) : t.receiver? o = some answer := by
  obtain ⟨receiver, type⟩ := answer
  obtain ⟨held, object, read, made, rfl, rfl⟩ := receiver?_eq_some found
  simp [State.receiver?, grown.objects.key? read, grown.heap.object? made]

section Meaning

variable {setting : Setting} {s : State} (valid : s.Valid setting)
include valid

theorem Valid.exists_receiver? {o : QualifiedObjectId} (inUse : o < s.objects.size) :
    ∃ answer, s.receiver? o = some answer := by
  obtain ⟨held, read⟩ := Table.exists_key?_of_lt inUse
  obtain ⟨object, made⟩ := Heap.exists_object?_of_lt (valid.parts (Table.mem_of_key? read)).2
  exact ⟨_, by simp [State.receiver?, read, made]; rfl⟩

theorem Valid.receiver_context_lt {o : QualifiedObjectId} {receiver : Receiver} {type : TypeRef}
    (found : s.receiver? o = some (receiver, type)) : receiver.context < s.contexts.size := by
  obtain ⟨held, object, read, made, rfl, rfl⟩ := receiver?_eq_some found
  exact (valid.parts (Table.mem_of_key? read)).1

theorem Valid.selectsStatic_of_lt {c : ContextId} (inUse : c < s.contexts.size) {site : CallSite}
    (numbered : (s.domain setting).callStatic c site < s.contexts.size) :
    s.SelectsStatic setting c site ((s.domain setting).callStatic c site) :=
  (ContextTable.numbers_internStatic valid.contexts inUse site).read_of_lt numbered

theorem Valid.callStatic_of_selects {c d : ContextId} (inUse : c < s.contexts.size) {site : CallSite}
    (selects : s.SelectsStatic setting c site d) : (s.domain setting).callStatic c site = d :=
  (ContextTable.numbers_internStatic valid.contexts inUse site).answer_of_key? selects

theorem Valid.selectsInstance_of_lt {c : ContextId} {site : CallSite} {o : QualifiedObjectId}
    (inUse : o < s.objects.size)
    (numbered : (s.domain setting).callInstance c site o < s.contexts.size) :
    s.SelectsInstance setting c site o ((s.domain setting).callInstance c site o) := by
  obtain ⟨⟨receiver, type⟩, found⟩ := valid.exists_receiver? inUse
  simp only [domain, found] at numbered ⊢
  exact ⟨receiver, type, found,
    (ContextTable.numbers_internInstance valid.contexts c site receiver).read_of_lt numbered⟩

theorem Valid.callInstance_of_selects {c d : ContextId} {site : CallSite} {o : QualifiedObjectId}
    (selects : s.SelectsInstance setting c site o d) : (s.domain setting).callInstance c site o = d := by
  obtain ⟨receiver, type, found, read⟩ := selects
  simp only [domain, found]
  exact (ContextTable.numbers_internInstance valid.contexts c site receiver).answer_of_key? read

/-- The object that a heap gives out for a site has the origin of the site. -/
theorem Valid.origin_request (site : SiteId) : ∃ object,
    (s.heap.request setting.heapModel setting.program site).1.object?
      (s.heap.request setting.heapModel setting.program site).2 = some object ∧
    object.origin setting.heapModel = setting.program.originAt setting.heapModel site :=
  (valid.heap.request site).known (Heap.known?_request s.heap _ _ site)

theorem Valid.allocates_of_lt {c : ContextId} {site : SiteId}
    (numbered : (s.domain setting).object c site < s.objects.size) :
    s.Allocates setting c site ((s.domain setting).object c site) := by
  obtain ⟨held, read⟩ := Table.exists_key?_of_lt numbered
  have same : held = ⟨(setting.policy.internHeap s.contexts c).2,
      (s.heap.request setting.heapModel setting.program site).2⟩ :=
    Option.some.inj (((Table.extends_intern _ _).key? read).symm.trans (Table.key?_intern _ _))
  obtain ⟨contextUsed, objectUsed⟩ := valid.parts (Table.mem_of_key? read)
  obtain ⟨object, made⟩ := Heap.exists_object?_of_lt objectUsed
  refine ⟨held, object, read, ?_, made, ?_⟩
  · rw [same] at contextUsed ⊢
    exact (ContextTable.numbers_internHeap valid.contexts c).read_of_lt contextUsed
  · obtain ⟨known, answered, origin⟩ := valid.origin_request site
    have kept := (Heap.extends_request s.heap setting.heapModel setting.program site).object? made
    rw [same] at kept
    rw [Option.some.inj (kept.symm.trans answered)]
    exact origin

theorem Valid.object_of_allocates {c : ContextId} {site : SiteId} {o : QualifiedObjectId}
    (allocates : s.Allocates setting c site o) : (s.domain setting).object c site = o := by
  obtain ⟨held, object, read, context, made, origin⟩ := allocates
  have sameContext := (ContextTable.numbers_internHeap valid.contexts c).answer_of_key? context
  obtain ⟨known, answered, same⟩ := valid.origin_request site
  have kept := (Heap.extends_request s.heap setting.heapModel setting.program site).object? made
  have sameObject := (valid.heap.request site).distinct answered kept (same.trans origin.symm)
  have whole : (⟨(setting.policy.internHeap s.contexts c).2,
      (s.heap.request setting.heapModel setting.program site).2⟩ : QualifiedObject) = held := by
    rw [sameContext, sameObject]
  simp only [domain, whole, Table.intern_of_key? valid.objects read]

end Meaning

section Later

variable {setting : Setting} {s t : State} (valid : s.Valid setting) (grown : s.Grows t)
include grown

theorem Allocates.mono {c : ContextId} (inUse : c < s.contexts.size) {site : SiteId}
    {o : QualifiedObjectId} (allocates : s.Allocates setting c site o) :
    t.Allocates setting c site o := by
  obtain ⟨held, object, read, context, made, origin⟩ := allocates
  refine ⟨held, object, grown.objects.key? read, ?_, grown.heap.object? made, origin⟩
  rw [ContextTable.context_of_extends grown.contexts inUse]
  exact grown.contexts.key? context

theorem SelectsStatic.mono {c d : ContextId} (inUse : c < s.contexts.size) {site : CallSite}
    (selects : s.SelectsStatic setting c site d) : t.SelectsStatic setting c site d := by
  unfold SelectsStatic
  rw [ContextTable.context_of_extends grown.contexts inUse]
  exact grown.contexts.key? selects

include valid

theorem SelectsInstance.mono {c d : ContextId} (inUse : c < s.contexts.size) {site : CallSite}
    {o : QualifiedObjectId} (selects : s.SelectsInstance setting c site o d) :
    t.SelectsInstance setting c site o d := by
  obtain ⟨receiver, type, found, read⟩ := selects
  refine ⟨receiver, type, grown.receiver? found, ?_⟩
  rw [ContextTable.context_of_extends grown.contexts inUse,
    ContextTable.context_of_extends grown.contexts (valid.receiver_context_lt found)]
  exact grown.contexts.key? read

theorem type_of_grows {o : QualifiedObjectId} (inUse : o < s.objects.size) :
    (t.domain setting).type o = (s.domain setting).type o := by
  obtain ⟨answer, found⟩ := valid.exists_receiver? inUse
  simp [domain, found, grown.receiver? found]

end Later

/-! ## The rules at a later state -/

section Answers

variable {setting : Setting} {s t : State} (before : s.Valid setting) (after : t.Valid setting)
  (grown : s.Grows t)
include before after grown

theorem object_of_grows {c : ContextId} (inUse : c < s.contexts.size) {site : SiteId}
    (numbered : (s.domain setting).object c site < s.objects.size) :
    (t.domain setting).object c site = (s.domain setting).object c site :=
  after.object_of_allocates ((before.allocates_of_lt numbered).mono grown inUse)

theorem callStatic_of_grows {c : ContextId} (inUse : c < s.contexts.size) {site : CallSite}
    (numbered : (s.domain setting).callStatic c site < s.contexts.size) :
    (t.domain setting).callStatic c site = (s.domain setting).callStatic c site :=
  after.callStatic_of_selects (Nat.lt_of_lt_of_le inUse grown.contexts.size_le)
    ((before.selectsStatic_of_lt inUse numbered).mono grown inUse)

theorem callInstance_of_grows {c : ContextId} (inUse : c < s.contexts.size) {site : CallSite}
    {o : QualifiedObjectId} (objectInUse : o < s.objects.size)
    (numbered : (s.domain setting).callInstance c site o < s.contexts.size) :
    (t.domain setting).callInstance c site o = (s.domain setting).callInstance c site o :=
  after.callInstance_of_selects ((before.selectsInstance_of_lt objectInUse numbered).mono before grown
    inUse)

/-- What a method demands stays answered. -/
theorem methodDemands_of_grows {c : ContextId} {m : MethodId} (inUse : c < s.contexts.size)
    (answered : ∀ fact, MethodDemands setting.program (s.domain setting) c m fact → s.Expected fact)
    {fact : Fact ContextId QualifiedObjectId}
    (demanded : MethodDemands setting.program (t.domain setting) c m fact) : t.Expected fact := by
  cases demanded with
  | new statement =>
      have old := answered _ (.new statement)
      rw [object_of_grows before after grown inUse (before.facts old).2]
      exact grown.expected old
  | copy statement => exact grown.expected (answered _ (.copy statement))
  | loadStatic statement => exact grown.expected (answered _ (.loadStatic statement))
  | storeStatic statement => exact grown.expected (answered _ (.storeStatic statement))
  | call statement static resolved =>
      have old := answered _ (.call statement static resolved)
      rw [callStatic_of_grows before after grown inUse (before.facts old).2]
      exact grown.expected old

/-- What an object in a variable demands stays answered. -/
theorem objectDemands_of_grows {c : ContextId} {m : MethodId} {v : VarId} {o : QualifiedObjectId}
    (inUse : c < s.contexts.size) (objectInUse : o < s.objects.size)
    (answered : ∀ fact, ObjectDemands setting.program (s.domain setting) c m v o fact →
      s.Expected fact)
    {fact : Fact ContextId QualifiedObjectId}
    (demanded : ObjectDemands setting.program (t.domain setting) c m v o fact) : t.Expected fact := by
  have sameType := type_of_grows before grown objectInUse
  cases demanded with
  | loadField statement => exact grown.expected (answered _ (.loadField statement))
  | storeField statement => exact grown.expected (answered _ (.storeField statement))
  | loadArray statement => exact grown.expected (answered _ (.loadArray statement))
  | storeArray statement => exact grown.expected (answered _ (.storeArray statement))
  | call statement receiver resolved =>
      rw [sameType] at resolved
      have old := answered _ (.call statement receiver resolved)
      rw [callInstance_of_grows before after grown inUse objectInUse (before.facts old).2]
      exact grown.expected old
  | this statement receiver resolved own =>
      rw [sameType] at resolved
      have call := answered _ (.call statement receiver resolved)
      have old := answered _ (.this statement receiver resolved own)
      rw [callInstance_of_grows before after grown inUse objectInUse (before.facts call).2]
      exact grown.expected old

end Answers

end State

end PointsTo
