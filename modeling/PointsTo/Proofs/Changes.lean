/- # Changes -- what a rule may do to a state

Whatever the solver does between two pieces of work is a sequence of changes, each justified by the facts
that the state expects at that moment (`State.Change`): an edge or an object that follows by a rule, a call
with its callee, or new numbers.  So a property of all states needs to be shown for a change only.

Main statements: changes take nothing back (`Change.grows`), keep a state consistent (`Change.consistent`)
and add nothing that is not in every closed set of facts (`Change.least`). -/
import Mathlib.Logic.Relation
import PointsTo.Proofs.Facts
import PointsTo.Proofs.WellFormed

set_option autoImplicit false

namespace PointsTo.State

/-- A pointer that the facts of a state call for: a variable of a reachable method, a static field that the
program names, or a part of an object. -/
def Rooted (setting : Setting) (s : State) : Pointer → Prop
  | .var c v => ∃ m, setting.program.Owns m v ∧ s.Expected (.reach c m)
  | .static f => setting.program.Names f
  | .field o f => o < s.objects.size ∧ setting.program.Names f
  | .array o => o < s.objects.size

/-- A valid state whose nodes and calls belong to reachable methods, and in which no object is lost. -/
structure Consistent (setting : Setting) (s : State) : Prop extends Valid setting s where
  rooted : ∀ {p}, p ∈ s.network.graph.nodes.toList → s.Rooted setting p
  called : ∀ {c site d m}, s.Expected (.call c site d m) →
    s.Expected (.reach c site.method) ∧ s.Expected (.reach d m)
  delivered : s.network.Delivered

/-- The state with a call in its graph. -/
def withCall (s : State) (kind : CallKind) (c : ContextId) (site : CallSite) (d : ContextId)
    (m : MethodId) : State :=
  { s with calls := (s.calls.connect ⟨⟨c, site⟩, kind, ⟨c, site.method⟩, ⟨d, m⟩⟩).1 }

/-- The state in which what a site allocates in a context has its number. -/
def withObject (setting : Setting) (s : State) (c : ContextId) (site : SiteId) : State :=
  { s with
    heap := (s.heap.request setting.heapModel setting.program site).1
    contexts := (setting.policy.internHeap s.contexts c).1
    objects := (s.objects.intern ⟨(setting.policy.internHeap s.contexts c).2,
      (s.heap.request setting.heapModel setting.program site).2⟩).1 }

/-- The state in which the context of a call without receiver has its number. -/
def withStatic (setting : Setting) (s : State) (c : ContextId) (site : CallSite) : State :=
  { s with contexts := (setting.policy.internStatic s.contexts c site).1 }

/-- The state in which the context of a call on an object has its number. -/
def withInstance (setting : Setting) (s : State) (c : ContextId) (site : CallSite)
    (receiver : Receiver) : State :=
  { s with contexts := (setting.policy.internInstance s.contexts c site receiver).1 }

/-- What a state may be changed to. -/
inductive Change (setting : Setting) (s : State) : State → Prop
  | report (event : Event) : Change setting s (s.report event)
  | node {p : Pointer} (rooted : s.Rooted setting p) : Change setting s (s.node p)
  | flow {p q : Pointer} (kind : FlowKind)
      (follows : Follows setting.program (s.domain setting) setting.entry s.Expected (.flow p q)) :
      Change setting s (s.flow p q kind)
  | seed {p : Pointer} {o : QualifiedObjectId}
      (follows : Follows setting.program (s.domain setting) setting.entry s.Expected (.holds p o))
      (rooted : s.Rooted setting p) (inUse : o < s.objects.size) : Change setting s (s.seed p o)
  | call {c : ContextId} {site : CallSite} {d : ContextId} {m : MethodId} (kind : CallKind)
      (follows : Follows setting.program (s.domain setting) setting.entry s.Expected (.call c site d m))
      (inUse : d < s.contexts.size) :
      Change setting s ((s.withCall kind c site d m).announce ⟨d, m⟩)
  | numberObject (c : ContextId) {site : SiteId} (allocates : setting.program.Allocates site) :
      Change setting s (s.withObject setting c site)
  | numberStatic {c : ContextId} (inUse : c < s.contexts.size) {site : CallSite}
      {call : Invocation VarId} (statement : setting.program.callAt? site = some call) :
      Change setting s (s.withStatic setting c site)
  | numberInstance (c : ContextId) {site : CallSite} {call : Invocation VarId}
      (statement : setting.program.callAt? site = some call) {o : QualifiedObjectId}
      {receiver : Receiver} {type : TypeRef} (found : s.receiver? o = some (receiver, type)) :
      Change setting s (s.withInstance setting c site receiver)

section Growth

variable {setting : Setting} {s t : State}

/-! ## Growth -/

theorem announces_mono {n n' : Network} (announces : ∀ m, n'.Announces m ↔ n.Announces m)
    {calls : ContextCallGraph} {c : ContextId} {m : MethodId}
    (expected : ⟨c, m⟩ ∈ calls.reachable ∨ n.Announces ⟨c, m⟩) :
    ⟨c, m⟩ ∈ calls.reachable ∨ n'.Announces ⟨c, m⟩ :=
  expected.imp_right (announces _).mpr

theorem Change.grows (change : Change setting s t) : s.Grows t := by
  have table (contexts : ContextTable) (grown : s.contexts.Extends contexts) :
      s.Grows { s with contexts } :=
    ⟨grown, .refl _, .refl _, .refl _, List.prefix_refl _, List.prefix_refl _, fun _ _ => id⟩
  cases change with
  | report event =>
      exact ⟨.refl _, .refl _, .refl _, .refl _, List.prefix_refl _, List.prefix_refl _, fun _ _ => id⟩
  | node rooted =>
      exact ⟨.refl _, .refl _, .refl _, Network.grows_node _ _, List.prefix_refl _,
        List.prefix_refl _, fun _ _ => id⟩
  | flow kind follows =>
      exact ⟨.refl _, .refl _, .refl _, Network.grows_flow _ _ _ _, List.prefix_refl _,
        List.prefix_refl _, fun c m => announces_mono (Network.announces_flow _ _ _ _)⟩
  | seed follows rooted inUse =>
      exact ⟨.refl _, .refl _, .refl _, Network.grows_seed _ _ _, List.prefix_refl _,
        List.prefix_refl _, fun c m => announces_mono (Network.announces_seed _ _ _)⟩
  | call kind follows inUse =>
      obtain ⟨reachable, edges, -, -⟩ := CallGraph.connect_spec s.calls ⟨⟨_, _⟩, kind, ⟨_, _⟩, ⟨_, _⟩⟩
      refine ⟨.refl _, .refl _, .refl _, Network.grows_announce _ _, edges, ?_, ?_⟩
      · have same := congrArg Array.toList reachable
        exact same ▸ List.prefix_refl _
      · intro c m expected
        show _ ∈ (s.calls.connect _).1.reachable ∨ _
        rw [reachable]
        exact expected.imp_right fun announced => (Network.announces_announce _ _ _).mpr (.inl announced)
  | numberObject c allocates =>
      refine ⟨?_, Heap.extends_request _ _ _ _, Table.extends_intern _ _, .refl _,
        List.prefix_refl _, List.prefix_refl _, fun _ _ => id⟩
      exact Policy.extends_internHeap _ _ _
  | numberStatic inUse statement => exact table _ (Policy.extends_internStatic _ _ _ _)
  | numberInstance c statement found => exact table _ (Policy.extends_internInstance _ _ _ _ _)

theorem Rooted.mono (grown : s.Grows t) {p : Pointer} (rooted : s.Rooted setting p) :
    t.Rooted setting p := by
  cases p with
  | var c v =>
      obtain ⟨m, owned, reached⟩ := rooted
      exact ⟨m, owned, grown.reach _ _ reached⟩
  | static f => exact rooted
  | field o f => exact ⟨Nat.lt_of_lt_of_le rooted.1 grown.objects.size_le, rooted.2⟩
  | array o => exact Nat.lt_of_lt_of_le rooted grown.objects.size_le

theorem Rooted.below (valid : s.Valid setting) {p : Pointer} (rooted : s.Rooted setting p) :
    p.Below s.contexts.size s.objects.size := by
  cases p with
  | var c v =>
      obtain ⟨m, -, reached⟩ := rooted
      exact valid.facts reached
  | static f => trivial
  | field o f => exact rooted.1
  | array o => exact rooted

end Growth

/-! ## Facts that a change adds -/

section New

variable {setting : Setting} {s : State}

/-- A node that was there reads the same in a later table. -/
theorem pointer?_of_extends {nodes : Table Pointer} (grown : s.network.graph.nodes.Extends nodes)
    {id : NodeId} (inUse : id < s.network.graph.nodes.size) {p : Pointer}
    (read : nodes.key? id = some p) : s.network.graph.pointer? id = some p := by
  obtain ⟨old, same⟩ := Table.exists_key?_of_lt inUse
  rw [grown.key? same] at read
  exact same.trans read

variable (valid : s.Valid setting)
include valid

/-- The facts of a state whose network has more nodes, and otherwise the edges and arrivals of the old one
and those between two nodes. -/
theorem expected_of_network {n : Network} {a b : NodeId} {p q : Pointer}
    (grown : s.network.graph.nodes.Extends n.graph.nodes)
    (announces : ∀ m, n.Announces m ↔ s.network.Announces m)
    (source : n.graph.pointer? a = some p) (target : n.graph.pointer? b = some q)
    (edges : ∀ e ∈ n.graph.edges, e ∈ s.network.graph.edges ∨ e.source = a ∧ e.target = b)
    (arrives : ∀ x o, n.Arrives x o →
      s.network.Arrives x o ∨ x = b ∧ o ∈ s.network.points.points a)
    {fact : Fact ContextId QualifiedObjectId} (expected : { s with network := n }.Expected fact) :
    s.Expected fact ∨ fact = .flow p q ∨ ∃ o, fact = .holds q o ∧ s.Expected (.holds p o) := by
  cases fact with
  | reach c m => exact .inl (expected.imp_right (announces _).mp)
  | call c site d m => exact .inl expected
  | flow p' q' =>
      obtain ⟨e, edge, first, second⟩ := expected
      rcases edges e edge with old | ⟨rfl, rfl⟩
      · obtain ⟨sourceUsed, targetUsed⟩ := valid.edges old
        exact .inl ⟨e, old, pointer?_of_extends grown sourceUsed first,
          pointer?_of_extends grown targetUsed second⟩
      · rw [source] at first
        rw [target] at second
        cases first
        cases second
        exact .inr (.inl rfl)
  | holds p' o =>
      obtain ⟨id, pointer, arrived⟩ := expected
      rcases arrives id o arrived with old | ⟨rfl, held⟩
      · exact .inl ⟨id, pointer?_of_extends grown (valid.arrivals old) pointer, old⟩
      · rw [target] at pointer
        cases pointer
        have before : s.network.Arrives a o := .inl held
        have inUse := valid.arrivals before
        exact .inr (.inr ⟨o, rfl, a, pointer?_of_extends grown inUse source, before⟩)

theorem expected_flow {p q : Pointer} {kind : FlowKind} {fact : Fact ContextId QualifiedObjectId}
    (expected : (s.flow p q kind).Expected fact) :
    s.Expected fact ∨ fact = .flow p q ∨ ∃ o, fact = .holds q o ∧ s.Expected (.holds p o) := by
  obtain ⟨a, b, source, target, -, edges, arrives⟩ := Network.flow_spec s.network p q kind
  exact expected_of_network valid (Network.grows_flow _ p q kind).nodes
    (Network.announces_flow _ p q kind) source target edges arrives expected

theorem expected_node {p : Pointer} {fact : Fact ContextId QualifiedObjectId}
    (expected : (s.node p).Expected fact) : s.Expected fact := by
  have grown := (Network.grows_node s.network p).nodes
  cases fact with
  | reach c m => exact expected
  | call c site d m => exact expected
  | flow p' q' =>
      obtain ⟨e, edge, first, second⟩ := expected
      obtain ⟨sourceUsed, targetUsed⟩ := valid.edges edge
      exact ⟨e, edge, pointer?_of_extends grown sourceUsed first,
        pointer?_of_extends grown targetUsed second⟩
  | holds p' o =>
      obtain ⟨id, pointer, arrived⟩ := expected
      exact ⟨id, pointer?_of_extends grown (valid.arrivals arrived) pointer, arrived⟩

theorem expected_seed {p : Pointer} {o : QualifiedObjectId} {fact : Fact ContextId QualifiedObjectId}
    (expected : (s.seed p o).Expected fact) : s.Expected fact ∨ fact = .holds p o := by
  have grown := (Network.grows_seed s.network p o).nodes
  obtain ⟨a, target, arrives⟩ := Network.seed_spec s.network p o
  cases fact with
  | reach c m => exact .inl (expected.imp_right (Network.announces_seed _ _ _ _).mp)
  | call c site d m => exact .inl expected
  | flow p' q' =>
      obtain ⟨e, edge, first, second⟩ := expected
      obtain ⟨sourceUsed, targetUsed⟩ := valid.edges edge
      exact .inl ⟨e, edge, pointer?_of_extends grown sourceUsed first,
        pointer?_of_extends grown targetUsed second⟩
  | holds p' x =>
      obtain ⟨id, pointer, arrived⟩ := expected
      rcases (arrives id x).mp arrived with old | ⟨rfl, rfl⟩
      · exact .inl ⟨id, pointer?_of_extends grown (valid.arrivals old) pointer, old⟩
      · exact .inr (by rw [Option.some.inj (pointer.symm.trans target)])

omit valid in
theorem expected_call {c : ContextId} {site : CallSite} {d : ContextId} {m : MethodId}
    {kind : CallKind} {fact : Fact ContextId QualifiedObjectId}
    (expected : ((s.withCall kind c site d m).announce ⟨d, m⟩).Expected fact) :
    s.Expected fact ∨ fact = .call c site d m ∨ fact = .reach d m := by
  obtain ⟨reachable, -, -, edges⟩ :=
    CallGraph.connect_spec s.calls ⟨⟨c, site⟩, kind, ⟨c, site.method⟩, ⟨d, m⟩⟩
  cases fact with
  | reach c' m' =>
      rcases expected with old | announced
      · exact .inl (.inl (by rw [← reachable]; exact old))
      · rcases (Network.announces_announce _ _ _).mp announced with old | same
        · exact .inl (.inr old)
        · cases same
          exact .inr (.inr rfl)
  | call c' site' d' m' =>
      obtain ⟨e, edge, atSite, toCallee⟩ := expected
      rcases edges e edge with old | rfl
      · exact .inl ⟨e, old, atSite, toCallee⟩
      · cases atSite
        cases toCallee
        exact .inr (.inl rfl)
  | flow p q => exact .inl expected
  | holds p o =>
      obtain ⟨id, pointer, arrived⟩ := expected
      exact .inl ⟨id, pointer, (Network.arrives_announce _ _ _ _).mp arrived⟩

end New

/-! ## Consistency -/

section Consistency

variable {setting : Setting} {s t : State}

theorem rooted_var {c : ContextId} {m : MethodId} {v : VarId} (reached : s.Expected (.reach c m))
    (owned : setting.program.Owns m v) : s.Rooted setting (.var c v) :=
  ⟨m, owned, reached⟩

/-- The method of a variable that has a node is expected to be reachable. -/
theorem Rooted.reach {c : ContextId} {v : VarId} (rooted : s.Rooted setting (.var c v)) :
    s.Expected (.reach c (setting.program.methodOfVar v)) := by
  obtain ⟨m, owned, reached⟩ := rooted
  rw [owned.methodOfVar]
  exact reached

/-- An edge that follows by a rule leads between pointers that the facts call for. -/
theorem Consistent.rooted_of_follows (wellFormed : setting.program.WellFormed)
    (consistent : s.Consistent setting) {p q : Pointer}
    (follows : Follows setting.program (s.domain setting) setting.entry s.Expected (.flow p q)) :
    s.Rooted setting p ∧ s.Rooted setting q := by
  have mentioned {c : ContextId} {m : MethodId} {v : VarId} {stmt : Stmt}
      (reached : s.Expected (.reach c m)) (statement : stmt ∈ setting.program.bodyOf m)
      (member : v ∈ stmt.mentions) : s.Rooted setting (.var c v) :=
    rooted_var reached (wellFormed.body statement member)
  cases follows with
  | ofMethod reached demanded =>
      cases demanded with
      | copy statement =>
          exact ⟨mentioned reached statement (by simp [Statement.mentions]),
            mentioned reached statement (by simp [Statement.mentions])⟩
      | loadStatic statement =>
          exact ⟨⟨_, _, statement, by simp [Statement.fields]⟩,
            mentioned reached statement (by simp [Statement.mentions])⟩
      | storeStatic statement =>
          exact ⟨mentioned reached statement (by simp [Statement.mentions]),
            ⟨_, _, statement, by simp [Statement.fields]⟩⟩
  | ofObject reached held demanded =>
      have inUse := (consistent.facts held).2
      cases demanded with
      | loadField statement =>
          exact ⟨⟨inUse, _, _, statement, by simp [Statement.fields]⟩,
            mentioned reached statement (by simp [Statement.mentions])⟩
      | storeField statement =>
          exact ⟨mentioned reached statement (by simp [Statement.mentions]),
            ⟨inUse, _, _, statement, by simp [Statement.fields]⟩⟩
      | loadArray statement =>
          exact ⟨inUse, mentioned reached statement (by simp [Statement.mentions])⟩
      | storeArray statement =>
          exact ⟨mentioned reached statement (by simp [Statement.mentions]), inUse⟩
  | ofCall called demanded =>
      obtain ⟨caller, callee⟩ := consistent.called called
      cases demanded with
      | argument statement passed =>
          have inArguments := (List.of_mem_zip passed).1
          exact ⟨rooted_var caller (wellFormed.owns_of_callAt? statement
              (by simp [Invocation.mentions, inArguments])),
            rooted_var callee (wellFormed.params (List.of_mem_zip passed).2)⟩
      | result statement wanted given =>
          exact ⟨rooted_var callee (wellFormed.returns given),
            rooted_var caller (wellFormed.owns_of_callAt? statement
              (by simp [Invocation.mentions, wanted]))⟩

/-- A call that follows by a rule is made by a reachable method. -/
theorem reach_of_follows_call {c : ContextId} {site : CallSite} {d : ContextId} {m : MethodId}
    (follows : Follows setting.program (s.domain setting) setting.entry s.Expected
      (.call c site d m)) : s.Expected (.reach c site.method) := by
  cases follows with
  | ofMethod reached demanded =>
      cases demanded
      exact reached
  | ofObject reached held demanded =>
      cases demanded
      exact reached
  | ofCall called demanded => cases demanded

/-- A later state with the same numbers is consistent when all that is new in it is in order. -/
theorem Consistent.of_grows (consistent : s.Consistent setting) (grown : s.Grows t)
    (contexts : t.contexts = s.contexts) (heap : t.heap = s.heap) (objects : t.objects = s.objects)
    (nodes : t.network.graph.nodes.toList.Nodup)
    (rooted : ∀ p ∈ t.network.graph.nodes.toList,
      p ∈ s.network.graph.nodes.toList ∨ t.Rooted setting p)
    (edges : ∀ e ∈ t.network.graph.edges, e ∈ s.network.graph.edges ∨
      e.source < t.network.graph.nodes.size ∧ e.target < t.network.graph.nodes.size)
    (arrivals : ∀ id o, t.network.Arrives id o →
      s.network.Arrives id o ∨ id < t.network.graph.nodes.size)
    (facts : ∀ fact, t.Expected fact →
      s.Expected fact ∨ fact.Below s.contexts.size s.objects.size)
    (called : ∀ c site d m, t.Expected (.call c site d m) →
      s.Expected (.call c site d m) ∨ t.Expected (.reach c site.method) ∧ t.Expected (.reach d m))
    (delivered : t.network.Delivered) : t.Consistent setting where
  contexts := contexts ▸ consistent.contexts
  elements := by
    rw [contexts, heap]
    exact consistent.elements
  heap := heap ▸ consistent.heap
  objects := objects ▸ consistent.objects
  parts := by
    rw [contexts, heap, objects]
    exact consistent.parts
  nodes := nodes
  rooted := fun {p} member => (rooted p member).elim (fun old => (consistent.rooted old).mono grown) id
  edges := by
    intro e edge
    have more := grown.network.nodes.size_le
    rcases edges e edge with old | new
    · obtain ⟨source, target⟩ := consistent.edges old
      exact ⟨Nat.lt_of_lt_of_le source more, Nat.lt_of_lt_of_le target more⟩
    · exact new
  arrivals := by
    intro id o arrives
    rcases arrivals id o arrives with old | new
    · exact Nat.lt_of_lt_of_le (consistent.arrivals old) grown.network.nodes.size_le
    · exact new
  facts := by
    intro fact expected
    rw [contexts, objects]
    exact (facts fact expected).elim consistent.facts id
  called := by
    intro c site d m expected
    rcases called c site d m expected with old | new
    · obtain ⟨caller, callee⟩ := consistent.called old
      exact ⟨grown.expected caller, grown.expected callee⟩
    · exact new
  delivered := delivered

/-- Work and calls left alone, a later state is consistent when its tables are in order. -/
theorem Consistent.of_tables (consistent : s.Consistent setting) (grown : s.Grows t)
    (network : t.network = s.network) (calls : t.calls = s.calls)
    (contexts : t.contexts.Valid setting.policy)
    (elements : ∀ context ∈ t.contexts.toList, ∀ o, .object o ∈ context → o < t.heap.size)
    (heap : t.heap.Valid setting.heapModel setting.program) (objects : t.objects.toList.Nodup)
    (parts : ∀ o ∈ t.objects.toList, o.context < t.contexts.size ∧ o.object < t.heap.size) :
    t.Consistent setting := by
  have same : ∀ fact, t.Expected fact → s.Expected fact := by
    intro fact expected
    cases fact with
    | reach c m => simpa only [Expected, network, calls] using expected
    | call c site d m => simpa only [Expected, calls] using expected
    | flow p q => simpa only [Expected, network] using expected
    | holds p o => simpa only [Expected, network] using expected
  exact {
    contexts, heap, objects
    elements := elements _
    parts := parts _
    nodes := network ▸ consistent.nodes
    edges := network ▸ consistent.edges
    arrivals := network ▸ consistent.arrivals
    facts := fun expected => (consistent.facts (same _ expected)).mono grown.contexts.size_le
      grown.objects.size_le
    rooted := fun member => (consistent.rooted (network ▸ member)).mono grown
    called := fun expected =>
      ⟨grown.expected (consistent.called (same _ expected)).1,
        grown.expected (consistent.called (same _ expected)).2⟩
    delivered := network ▸ consistent.delivered }

/-- The objects in the context of a number are in use. -/
theorem Valid.object_lt (valid : s.Valid setting) {c : ContextId} {o : ObjectId}
    (member : .object o ∈ s.contexts.context c) : o < s.heap.size := by
  cases read : s.contexts.key? c with
  | none => simp [ContextTable.context, read] at member
  | some context =>
      rw [ContextTable.context_of_key? read] at member
      exact valid.elements (Table.mem_of_key? read) member

/-! ### One lemma for each change -/

/-- A node that is numbered next has its place, when the pointer does that it stands for. -/
theorem rooted_of_mem_intern (grown : s.Grows t) {nodes : Table Pointer} {p p' : Pointer}
    (rooted : s.Rooted setting p) (member : p' ∈ Table.toList (nodes.intern p).1) :
    p' ∈ nodes.toList ∨ t.Rooted setting p' := by
  rcases Table.mem_toList_intern.mp member with old | rfl
  · exact .inl old
  · exact .inr (rooted.mono grown)

theorem Consistent.node (consistent : s.Consistent setting) {p : Pointer}
    (rooted : s.Rooted setting p) : (s.node p).Consistent setting := by
  have grown := (Change.node rooted).grows
  exact consistent.of_grows grown rfl rfl rfl (Table.nodup_intern _ p consistent.nodes)
    (fun _ => rooted_of_mem_intern grown rooted) (fun _ => .inl) (fun _ _ => .inl)
    (fun _ => .inl ∘ expected_node consistent.toValid) (fun _ _ _ _ => .inl) consistent.delivered

theorem Consistent.flow (consistent : s.Consistent setting) (wellFormed : setting.program.WellFormed)
    {p q : Pointer} (kind : FlowKind)
    (follows : Follows setting.program (s.domain setting) setting.entry s.Expected (.flow p q)) :
    (s.flow p q kind).Consistent setting := by
  have grown := (Change.flow kind follows).grows
  obtain ⟨sourceRooted, targetRooted⟩ := consistent.rooted_of_follows wellFormed follows
  have sourceBelow := sourceRooted.below consistent.toValid
  have targetBelow := targetRooted.below consistent.toValid
  obtain ⟨a, b, source, target, -, edges, arrives⟩ := Network.flow_spec s.network p q kind
  have nodes := Network.nodes_flow s.network p q kind
  refine consistent.of_grows grown rfl rfl rfl ?_ ?_ ?_ ?_ ?_ (fun _ _ _ _ => .inl)
    (Network.delivered_flow _ _ _ _ consistent.delivered)
  · show Table.toList (s.network.flow p q kind).graph.nodes |>.Nodup
    rw [nodes]
    exact Table.nodup_intern _ q (Table.nodup_intern _ p consistent.nodes)
  · intro p' member
    replace member : p' ∈ (s.network.flow p q kind).graph.nodes.toList := member
    rw [nodes] at member
    rcases rooted_of_mem_intern grown targetRooted member with member | new
    · exact rooted_of_mem_intern grown sourceRooted member
    · exact .inr new
  · intro e edge
    rcases edges e edge with old | ⟨rfl, rfl⟩
    · exact .inl old
    · exact .inr ⟨Table.lt_of_key? source, Table.lt_of_key? target⟩
  · intro id o arrived
    rcases arrives id o arrived with old | ⟨rfl, -⟩
    · exact .inl old
    · exact .inr (Table.lt_of_key? target)
  · intro fact expected
    rcases expected_flow consistent.toValid expected with old | rfl | ⟨o, rfl, held⟩
    · exact .inl old
    · exact .inr ⟨sourceBelow, targetBelow⟩
    · exact .inr ⟨targetBelow, (consistent.facts held).2⟩

theorem Consistent.seed (consistent : s.Consistent setting) {p : Pointer} {o : QualifiedObjectId}
    (follows : Follows setting.program (s.domain setting) setting.entry s.Expected (.holds p o))
    (rooted : s.Rooted setting p) (inUse : o < s.objects.size) : (s.seed p o).Consistent setting := by
  have grown := (Change.seed follows rooted inUse).grows
  obtain ⟨a, target, arrives⟩ := Network.seed_spec s.network p o
  refine consistent.of_grows grown rfl rfl rfl (Table.nodup_intern _ p consistent.nodes)
    (fun _ => rooted_of_mem_intern grown rooted) (fun _ => .inl) ?_ ?_ (fun _ _ _ _ => .inl)
    (Network.delivered_seed _ _ _ consistent.delivered)
  · intro id o' arrived
    rcases (arrives id o').mp arrived with old | ⟨rfl, -⟩
    · exact .inl old
    · exact .inr (Table.lt_of_key? target)
  · intro fact expected
    rcases expected_seed consistent.toValid expected with old | rfl
    · exact .inl old
    · exact .inr ⟨rooted.below consistent.toValid, inUse⟩

theorem Consistent.call (consistent : s.Consistent setting) {c : ContextId} {site : CallSite}
    {d : ContextId} {m : MethodId} (kind : CallKind)
    (follows : Follows setting.program (s.domain setting) setting.entry s.Expected (.call c site d m))
    (inUse : d < s.contexts.size) : ((s.withCall kind c site d m).announce ⟨d, m⟩).Consistent setting := by
  have grown := (Change.call kind follows inUse).grows
  have caller := reach_of_follows_call follows
  refine consistent.of_grows grown rfl rfl rfl consistent.nodes (fun _ => .inl) (fun _ => .inl) ?_
    ?_ ?_ (Network.delivered_announce _ _ consistent.delivered)
  · exact fun id o arrived => .inl ((Network.arrives_announce _ _ _ _).mp arrived)
  · intro fact expected
    rcases expected_call expected with old | rfl | rfl
    · exact .inl old
    · exact .inr ⟨consistent.facts caller, inUse⟩
    · exact .inr inUse
  · intro c' site' d' m' expected
    rcases expected_call expected with old | same | same
    · exact .inl old
    · cases same
      exact .inr ⟨grown.expected caller, .inr ((Network.announces_announce _ _ _).mpr (.inr rfl))⟩
    · cases same

/-- The parts of an object that has its number are in use later on. -/
theorem Consistent.parts_of_grows (consistent : s.Consistent setting) (grown : s.Grows t)
    {o : QualifiedObject} (member : o ∈ s.objects.toList) :
    o.context < t.contexts.size ∧ o.object < t.heap.size := by
  obtain ⟨context, object⟩ := consistent.parts member
  exact ⟨Nat.lt_of_lt_of_le context grown.contexts.size_le, Nat.lt_of_lt_of_le object grown.heap.size_le⟩

theorem Consistent.withObject (consistent : s.Consistent setting) (c : ContextId) {site : SiteId}
    (allocates : setting.program.Allocates site) : (s.withObject setting c site).Consistent setting := by
  have grown : s.Grows (s.withObject setting c site) := (Change.numberObject c allocates).grows
  have numbers := ContextTable.numbers_internHeap consistent.contexts c
  refine consistent.of_tables grown rfl rfl numbers.valid ?_ (consistent.heap.request site)
    (Table.nodup_intern _ _ consistent.objects) ?_
  · intro context member o inside
    refine Nat.lt_of_lt_of_le ?_ grown.heap.size_le
    rcases numbers.new context member with old | rfl
    · exact consistent.elements old inside
    · exact consistent.object_lt (Policy.mem_heapContext inside)
  · intro o member
    rcases Table.mem_toList_intern.mp member with old | rfl
    · exact consistent.parts_of_grows grown old
    · obtain ⟨object, made, -⟩ := consistent.origin_request site
      exact ⟨numbers.lt, Heap.lt_of_object? made⟩

theorem Consistent.withStatic (consistent : s.Consistent setting) {c : ContextId}
    (inUse : c < s.contexts.size) {site : CallSite} {call : Invocation VarId}
    (statement : setting.program.callAt? site = some call) :
    (s.withStatic setting c site).Consistent setting := by
  have grown : s.Grows (s.withStatic setting c site) := (Change.numberStatic inUse statement).grows
  have numbers := ContextTable.numbers_internStatic consistent.contexts inUse site
  refine consistent.of_tables grown rfl rfl numbers.valid ?_ consistent.heap consistent.objects
    fun _ => consistent.parts_of_grows grown
  intro context member o inside
  rcases numbers.new context member with old | rfl
  · exact consistent.elements old inside
  · rcases Policy.mem_staticContext inside with old | same
    · exact consistent.object_lt old
    · cases same

theorem Consistent.withInstance (consistent : s.Consistent setting) (c : ContextId) {site : CallSite}
    {call : Invocation VarId} (statement : setting.program.callAt? site = some call)
    {o : QualifiedObjectId} {receiver : Receiver} {type : TypeRef}
    (found : s.receiver? o = some (receiver, type)) :
    (s.withInstance setting c site receiver).Consistent setting := by
  have grown : s.Grows (s.withInstance setting c site receiver) :=
    (Change.numberInstance c statement found).grows
  have numbers := ContextTable.numbers_internInstance consistent.contexts c site receiver
  refine consistent.of_tables grown rfl rfl numbers.valid ?_ consistent.heap consistent.objects
    fun _ => consistent.parts_of_grows grown
  intro context member o' inside
  rcases numbers.new context member with old | rfl
  · exact consistent.elements old inside
  · rcases Policy.mem_instanceContext inside with old | old | same | same | same
    · exact consistent.object_lt old
    · exact consistent.object_lt old
    · cases same
    · cases same
      obtain ⟨held, object, read, made, rfl, -⟩ := receiver?_eq_some found
      exact Heap.lt_of_object? made
    · cases same

/-- A change keeps a state consistent. -/
theorem Change.consistent (change : Change setting s t) (wellFormed : setting.program.WellFormed)
    (consistent : s.Consistent setting) : t.Consistent setting := by
  have grown := change.grows
  cases change with
  | report event =>
      exact consistent.of_grows grown rfl rfl rfl consistent.nodes (fun _ => .inl) (fun _ => .inl)
        (fun _ _ => .inl) (fun _ => .inl) (fun _ _ _ _ => .inl) consistent.delivered
  | node rooted => exact consistent.node rooted
  | flow kind follows => exact consistent.flow wellFormed kind follows
  | seed follows rooted inUse => exact consistent.seed follows rooted inUse
  | call kind follows inUse => exact consistent.call kind follows inUse
  | numberObject c allocates => exact consistent.withObject c allocates
  | numberStatic inUse statement => exact consistent.withStatic inUse statement
  | numberInstance c statement found => exact consistent.withInstance c statement found

end Consistency

/-! ## Closed sets -/

/-- Facts that are closed under the rules, as far as the numbers of a state go. -/
def Closed (setting : Setting) (s : State) (known : Fact ContextId QualifiedObjectId → Prop) : Prop :=
  ∀ fact, Follows setting.program (s.domain setting) setting.entry known fact →
    fact.Below s.contexts.size s.objects.size → known fact

section Least

variable {setting : Setting} {s t : State} {known : Fact ContextId QualifiedObjectId → Prop}

/-- A change adds only what every closed set has. -/
theorem Change.least (change : Change setting s t) (before : s.Consistent setting)
    (after : t.Consistent setting) (closed : s.Closed setting known)
    (wide : ∀ fact, s.Expected fact → known fact) : ∀ fact, t.Expected fact → known fact := by
  intro fact expected
  have inUse := after.facts expected
  cases change with
  | report event => exact wide fact expected
  | node rooted => exact wide fact (expected_node before.toValid expected)
  | @flow p q kind follows =>
      have edge : known (.flow p q) := by
        obtain ⟨a, b, source, target, ⟨e, edge, rfl, rfl⟩, -⟩ := Network.flow_spec s.network p q kind
        have added : (s.flow p q kind).Expected (.flow p q) := ⟨e, edge, source, target⟩
        exact closed _ (follows.mono wide) (after.facts added)
      rcases expected_flow before.toValid expected with old | rfl | ⟨o, rfl, held⟩
      · exact wide fact old
      · exact edge
      · exact closed _ (.subset edge (wide _ held)) inUse
  | seed follows rooted _ =>
      rcases expected_seed before.toValid expected with old | rfl
      · exact wide fact old
      · exact closed _ (follows.mono wide) inUse
  | @call c site d m kind follows numbered =>
      have call : known (.call c site d m) :=
        closed _ (follows.mono wide) ⟨before.facts (reach_of_follows_call follows), numbered⟩
      rcases expected_call expected with old | rfl | rfl
      · exact wide fact old
      · exact call
      · exact closed _ (.ofCall call .callee) inUse
  | numberObject _ _ => exact wide fact expected
  | numberStatic _ _ => exact wide fact expected
  | numberInstance _ _ _ => exact wide fact expected

end Least

/-! ## Sequences of changes -/

/-- The later state comes from the earlier one by changes. -/
def Changes (setting : Setting) : State → State → Prop := Relation.ReflTransGen (Change setting)

section Sequence

variable {setting : Setting} {s t u : State}

theorem Change.changes (change : Change setting s t) : Changes setting s t := .single change

theorem Changes.refl (s : State) : Changes setting s s := Relation.ReflTransGen.refl

theorem Changes.trans (first : Changes setting s t) (second : Changes setting t u) :
    Changes setting s u :=
  Relation.ReflTransGen.trans first second

theorem Changes.grows (changes : Changes setting s t) : s.Grows t := by
  induction changes with
  | refl => exact .refl s
  | tail _ change ih => exact ih.trans change.grows

theorem Changes.consistent (wellFormed : setting.program.WellFormed) (changes : Changes setting s t)
    (consistent : s.Consistent setting) : t.Consistent setting := by
  induction changes with
  | refl => exact consistent
  | tail _ change ih => exact change.consistent wellFormed ih

/-- Changes make nothing reachable; only taking a method does. -/
theorem Changes.reachable (changes : Changes setting s t) : t.calls.reachable = s.calls.reachable := by
  induction changes with
  | refl => rfl
  | tail _ change ih =>
      rw [← ih]
      cases change with
      | call => exact (CallGraph.connect_spec _ _).1
      | _ => rfl

/-- Changes put nothing into sets; only taking objects does. -/
theorem Changes.points (changes : Changes setting s t) : t.network.points = s.network.points := by
  induction changes with
  | refl => rfl
  | tail _ change ih =>
      rw [← ih]
      cases change with
      | flow => exact Network.points_flow _ _ _ _
      | _ => rfl

end Sequence

end PointsTo.State
