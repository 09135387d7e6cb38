/- # Delivery -- no object is lost on its way through a network

An object arrives at a node when it is in the node's set or queued for it (`Network.Arrives`).  A network is
`Delivered` when every object of the source of an edge arrives at the target.  The operations keep it so:
`connect` sends along a new edge what its source holds, and taking work out of the queue is made good by
`absorb`, which sends on what is new.

`Network.Grows` says what no operation takes back. -/
import Mathlib.Tactic.Tauto
import PointsTo.Flow.Network
import PointsTo.Proofs.Numbering

set_option autoImplicit false

namespace PointsTo.Network

/-- An object is in the set of a node or queued for it. -/
def Arrives (n : Network) (id : NodeId) (o : QualifiedObjectId) : Prop :=
  o ∈ n.points.points id ∨ ∃ set, .objects id set ∈ n.pending.toList ∧ o ∈ set

/-- A method is queued. -/
def Announces (n : Network) (m : QualifiedMethod) : Prop := .method m ∈ n.pending.toList

/-- Every object of the source of an edge arrives at its target. -/
def Delivered (n : Network) : Prop :=
  ∀ e ∈ n.graph.edges, ∀ o ∈ n.points.points e.source, n.Arrives e.target o

/-- The later network has all that the earlier one has, where a queued object may have reached its set. -/
structure Grows (n n' : Network) : Prop where
  nodes : n.graph.nodes.Extends n'.graph.nodes
  edges : n.graph.edges.toList <+: n'.graph.edges.toList
  points : ∀ id o, o ∈ n.points.points id → o ∈ n'.points.points id
  arrives : ∀ id o, n.Arrives id o → n'.Arrives id o

theorem Grows.refl (n : Network) : n.Grows n :=
  ⟨.refl _, List.prefix_refl _, fun _ _ held => held, fun _ _ arrives => arrives⟩

theorem Grows.trans {n n' n'' : Network} (first : n.Grows n') (second : n'.Grows n'') : n.Grows n'' :=
  ⟨first.nodes.trans second.nodes, first.edges.trans second.edges,
    fun id o held => second.points id o (first.points id o held),
    fun id o arrives => second.arrives id o (first.arrives id o arrives)⟩

/-! ## Nodes -/

section Node

variable (n : Network) (p : Pointer)

@[simp] theorem nodes_node : (n.node p).1.graph.nodes = (n.graph.nodes.intern p).1 := rfl

@[simp] theorem edges_node : (n.node p).1.graph.edges = n.graph.edges := rfl

@[simp] theorem points_node : (n.node p).1.points = n.points := rfl

@[simp] theorem pending_node : (n.node p).1.pending = n.pending := rfl

theorem pointer?_node : (n.node p).1.graph.pointer? (n.node p).2 = some p :=
  Table.key?_intern n.graph.nodes p

theorem grows_node : n.Grows (n.node p).1 :=
  ⟨Table.extends_intern _ p, List.prefix_refl _, fun _ _ held => held, fun _ _ arrives => arrives⟩

theorem delivered_node (delivered : n.Delivered) : (n.node p).1.Delivered := delivered

end Node

/-! ## Queued work -/

section Queue

variable (n : Network)

@[simp] theorem graph_send (id : NodeId) (set : ObjectSet) : (n.send id set).graph = n.graph := rfl

@[simp] theorem points_send (id : NodeId) (set : ObjectSet) : (n.send id set).points = n.points := rfl

theorem arrives_send (id x : NodeId) (set : ObjectSet) (o : QualifiedObjectId) :
    (n.send id set).Arrives x o ↔ n.Arrives x o ∨ x = id ∧ o ∈ set := by
  simp only [Arrives, send, Worklist.toList_push, List.mem_append, List.mem_singleton,
    Pending.objects.injEq]
  constructor
  · rintro (held | ⟨queued, (old | ⟨rfl, rfl⟩), member⟩)
    · exact .inl (.inl held)
    · exact .inl (.inr ⟨queued, old, member⟩)
    · exact .inr ⟨rfl, member⟩
  · rintro ((held | ⟨queued, old, member⟩) | ⟨rfl, member⟩)
    · exact .inl held
    · exact .inr ⟨queued, .inl old, member⟩
    · exact .inr ⟨set, .inr ⟨rfl, rfl⟩, member⟩

theorem announces_send (id : NodeId) (set : ObjectSet) (m : QualifiedMethod) :
    (n.send id set).Announces m ↔ n.Announces m := by
  simp [Announces, send]

theorem grows_send (id : NodeId) (set : ObjectSet) : n.Grows (n.send id set) :=
  ⟨.refl _, List.prefix_refl _, fun _ _ held => held,
    fun x o arrives => (arrives_send n id x set o).mpr (.inl arrives)⟩

theorem delivered_send (id : NodeId) (set : ObjectSet) (delivered : n.Delivered) :
    (n.send id set).Delivered :=
  fun e edge o held => (arrives_send n id e.target set o).mpr (.inl (delivered e edge o held))

theorem arrives_announce (m : QualifiedMethod) (x : NodeId) (o : QualifiedObjectId) :
    (n.announce m).Arrives x o ↔ n.Arrives x o := by
  simp [Arrives, announce]

theorem announces_announce (m other : QualifiedMethod) :
    (n.announce m).Announces other ↔ n.Announces other ∨ other = m := by
  simp [Announces, announce]

theorem grows_announce (m : QualifiedMethod) : n.Grows (n.announce m) :=
  ⟨.refl _, List.prefix_refl _, fun _ _ held => held,
    fun x o arrives => (arrives_announce n m x o).mpr arrives⟩

theorem delivered_announce (m : QualifiedMethod) (delivered : n.Delivered) :
    (n.announce m).Delivered :=
  fun e edge o held => (arrives_announce n m e.target o).mpr (delivered e edge o held)

end Queue

/-! ## Edges -/

section Edge

variable (n : Network) (e : FlowEdge)

/-- A connected network is the same one, or it has the edge at its end and the objects of the source on
their way. -/
theorem connect_cases :
    ((n.connect e).1 = n ∧ n.graph.hasEdge e.source e.target = true) ∨
      ∃ m, (m = (n.connect e).1) ∧ m.graph = { n.graph with edges := n.graph.edges.push e } ∧
        m.points = n.points ∧ (∀ other, m.Announces other ↔ n.Announces other) ∧
        ∀ x o, m.Arrives x o ↔ n.Arrives x o ∨ x = e.target ∧ o ∈ n.points.points e.source := by
  by_cases old : n.graph.hasEdge e.source e.target = true
  · exact .inl ⟨by simp [connect, FlowGraph.connect, old], old⟩
  · refine .inr ⟨_, rfl, ?_⟩
    simp only [connect, FlowGraph.connect, old, Bool.not_true, Bool.false_eq_true, if_false]
    by_cases nothing : (n.points.points e.source).isEmpty = true
    · have none := ObjectSet.not_mem_of_isEmpty nothing
      simp [nothing, Announces, Arrives, none]
    · refine ⟨by simp [nothing], by simp [nothing], fun other => ?_, fun x o => ?_⟩
      · simp only [nothing, Bool.false_eq_true, if_false, announces_send]
        rfl
      · simp only [nothing, Bool.false_eq_true, if_false, arrives_send]
        rfl

theorem grows_connect : n.Grows (n.connect e).1 := by
  obtain ⟨same, -⟩ | ⟨m, rfl, graph, points, -, arrives⟩ := connect_cases n e
  · rw [same]
    exact .refl n
  · refine ⟨by rw [graph]; exact .refl _, by rw [graph]; simp, ?_, ?_⟩
    · intro id o held
      rw [points]
      exact held
    · intro id o arrived
      exact (arrives id o).mpr (.inl arrived)

theorem points_connect : (n.connect e).1.points = n.points := by
  obtain ⟨same, -⟩ | ⟨m, rfl, -, points, -⟩ := connect_cases n e
  · rw [same]
  · exact points

theorem nodes_connect : (n.connect e).1.graph.nodes = n.graph.nodes := by
  obtain ⟨same, -⟩ | ⟨m, rfl, graph, -⟩ := connect_cases n e
  · rw [same]
  · rw [graph]

theorem announces_connect (m : QualifiedMethod) : (n.connect e).1.Announces m ↔ n.Announces m := by
  obtain ⟨same, -⟩ | ⟨m, rfl, -, -, announces, -⟩ := connect_cases n e
  · rw [same]
  · exact announces _

theorem hasEdge_connect : ∃ e' ∈ (n.connect e).1.graph.edges,
    e'.source = e.source ∧ e'.target = e.target := by
  obtain ⟨same, old⟩ | ⟨m, rfl, graph, -⟩ := connect_cases n e
  · rw [same]
    exact FlowGraph.hasEdge_iff.mp old
  · exact ⟨e, by rw [graph]; simp, rfl, rfl⟩

theorem mem_edges_connect {e' : FlowEdge} (edge : e' ∈ (n.connect e).1.graph.edges) :
    e' ∈ n.graph.edges ∨ e' = e := by
  obtain ⟨same, -⟩ | ⟨m, rfl, graph, -⟩ := connect_cases n e
  · rw [same] at edge
    exact .inl edge
  · rw [graph] at edge
    simpa using edge

theorem arrives_connect {x : NodeId} {o : QualifiedObjectId} (arrives : (n.connect e).1.Arrives x o) :
    n.Arrives x o ∨ x = e.target ∧ o ∈ n.points.points e.source := by
  obtain ⟨same, -⟩ | ⟨m, rfl, -, -, -, characterised⟩ := connect_cases n e
  · rw [same] at arrives
    exact .inl arrives
  · exact (characterised x o).mp arrives

theorem delivered_connect (delivered : n.Delivered) : (n.connect e).1.Delivered := by
  obtain ⟨same, -⟩ | ⟨m, rfl, graph, points, -, arrives⟩ := connect_cases n e
  · rw [same]
    exact delivered
  · intro e' edge o held
    rw [points] at held
    rw [graph] at edge
    rcases Array.mem_push.mp edge with old | rfl
    · exact (arrives _ o).mpr (.inl (delivered e' old o held))
    · exact (arrives _ o).mpr (.inr ⟨rfl, held⟩)

end Edge

/-! ## Flow between pointers -/

section Flow

variable (n : Network) (p q : Pointer) (kind : FlowKind)

theorem nodes_flow :
    (n.flow p q kind).graph.nodes = ((n.graph.nodes.intern p).1.intern q).1 := by
  simp [flow, nodes_connect]

theorem points_flow : (n.flow p q kind).points = n.points := by
  simp [flow, points_connect]

theorem grows_flow : n.Grows (n.flow p q kind) :=
  ((grows_node n p).trans (grows_node _ q)).trans (grows_connect _ _)

theorem announces_flow (m : QualifiedMethod) : (n.flow p q kind).Announces m ↔ n.Announces m :=
  announces_connect _ _ m

theorem delivered_flow (delivered : n.Delivered) : (n.flow p q kind).Delivered :=
  delivered_connect _ _ (delivered_node _ q (delivered_node n p delivered))

/-- What `flow` adds: an edge between the nodes of the pointers, and objects that the first pointer has on
their way to the second. -/
theorem flow_spec : ∃ a b, (n.flow p q kind).graph.pointer? a = some p ∧
    (n.flow p q kind).graph.pointer? b = some q ∧
    (∃ e ∈ (n.flow p q kind).graph.edges, e.source = a ∧ e.target = b) ∧
    (∀ e ∈ (n.flow p q kind).graph.edges, e ∈ n.graph.edges ∨ e.source = a ∧ e.target = b) ∧
    ∀ x o, (n.flow p q kind).Arrives x o → n.Arrives x o ∨ x = b ∧ o ∈ n.points.points a := by
  have second := grows_node (n.node p).1 q
  have third := grows_connect ((n.node p).1.node q).1 ⟨(n.node p).2, ((n.node p).1.node q).2, kind⟩
  refine ⟨(n.node p).2, ((n.node p).1.node q).2, ?_, ?_, hasEdge_connect _ _, ?_, ?_⟩
  · exact (second.trans third).nodes.key? (pointer?_node n p)
  · exact third.nodes.key? (pointer?_node _ q)
  · intro e edge
    rcases mem_edges_connect _ _ edge with old | rfl
    · exact .inl old
    · exact .inr ⟨rfl, rfl⟩
  · intro x o arrives
    exact arrives_connect _ _ arrives

end Flow

section Seed

variable (n : Network) (p : Pointer) (o : QualifiedObjectId)

theorem grows_seed : n.Grows (n.seed p o) := (grows_node n p).trans (grows_send _ _ _)

theorem announces_seed (m : QualifiedMethod) : (n.seed p o).Announces m ↔ n.Announces m :=
  announces_send _ _ _ m

theorem delivered_seed (delivered : n.Delivered) : (n.seed p o).Delivered :=
  delivered_send _ _ _ (delivered_node n p delivered)

/-- What `seed` adds: the object is on its way to the node of the pointer. -/
theorem seed_spec : ∃ a, (n.seed p o).graph.pointer? a = some p ∧
    ∀ x o', (n.seed p o).Arrives x o' ↔ n.Arrives x o' ∨ x = a ∧ o' = o := by
  refine ⟨(n.node p).2, pointer?_node n p, fun x o' => ?_⟩
  simp only [seed, arrives_send, ObjectSet.mem_singleton]
  rfl

end Seed

/-! ## Taking work out of the queue -/

theorem toList_of_pop? {n rest : Network} {item : Pending} (taken : n.pop? = some (item, rest)) :
    n.pending.toList = item :: rest.pending.toList ∧ rest.graph = n.graph ∧ rest.points = n.points := by
  simp only [pop?, Option.map_eq_some_iff, Prod.mk.injEq] at taken
  obtain ⟨⟨first, pending⟩, popped, same, rfl⟩ := taken
  subst same
  exact ⟨Worklist.toList_of_pop? popped, rfl, rfl⟩

theorem pop?_eq_none_iff (n : Network) : n.pop? = none ↔ n.pending.toList = [] := by
  simp only [pop?, Option.map_eq_none_iff]
  constructor
  · exact Worklist.toList_eq_nil_of_pop?
  · intro nothing
    cases popped : n.pending.pop? with
    | none => rfl
    | some taken =>
        obtain ⟨item, rest⟩ := taken
        rw [Worklist.toList_of_pop? popped] at nothing
        cases nothing

/-- Taking a method takes no objects. -/
theorem arrives_of_pop_method {n rest : Network} {m : QualifiedMethod}
    (taken : n.pop? = some (.method m, rest)) (x : NodeId) (o : QualifiedObjectId) :
    rest.Arrives x o ↔ n.Arrives x o := by
  obtain ⟨whole, -, points⟩ := toList_of_pop? taken
  simp [Arrives, whole, points]

theorem announces_of_pop_method {n rest : Network} {m : QualifiedMethod}
    (taken : n.pop? = some (.method m, rest)) {other : QualifiedMethod} (announced : n.Announces other) :
    rest.Announces other ∨ other = m := by
  simp only [Announces, (toList_of_pop? taken).1, List.mem_cons, Pending.method.injEq] at announced
  exact announced.symm

theorem announces_of_pop {n rest : Network} {item : Pending} (taken : n.pop? = some (item, rest))
    {m : QualifiedMethod} (announced : rest.Announces m) : n.Announces m := by
  simp only [Announces, (toList_of_pop? taken).1]
  exact List.mem_cons_of_mem _ announced

theorem grows_of_pop_method {n rest : Network} {m : QualifiedMethod}
    (taken : n.pop? = some (.method m, rest)) : n.Grows rest := by
  obtain ⟨-, graph, points⟩ := toList_of_pop? taken
  refine ⟨by rw [graph]; exact .refl _, by simp [graph], by simp [points], ?_⟩
  exact fun x o arrives => (arrives_of_pop_method taken x o).mpr arrives

theorem delivered_of_pop_method {n rest : Network} {m : QualifiedMethod}
    (taken : n.pop? = some (.method m, rest)) (delivered : n.Delivered) : rest.Delivered := by
  obtain ⟨-, graph, points⟩ := toList_of_pop? taken
  intro e edge o held
  rw [graph] at edge
  rw [points] at held
  exact (arrives_of_pop_method taken _ o).mpr (delivered e edge o held)

/-! ## Absorbing objects -/

theorem sendAll_spec (n : Network) (targets : List NodeId) (set : ObjectSet) :
    (targets.foldl (fun n target => n.send target set) n).graph = n.graph ∧
      (targets.foldl (fun n target => n.send target set) n).points = n.points ∧
      (∀ m, (targets.foldl (fun n target => n.send target set) n).Announces m ↔ n.Announces m) ∧
      ∀ x o, (targets.foldl (fun n target => n.send target set) n).Arrives x o ↔
        n.Arrives x o ∨ x ∈ targets ∧ o ∈ set := by
  induction targets generalizing n with
  | nil => simp
  | cons target rest ih =>
      obtain ⟨graph, points, announces, arrives⟩ := ih (n.send target set)
      simp only [List.foldl_cons]
      refine ⟨graph, points, fun m => (announces m).trans (announces_send n _ _ m), fun x o => ?_⟩
      rw [arrives, arrives_send, List.mem_cons]
      tauto

/-- Absorbing adds the set to the node and sends what was new to the targets of its edges. -/
theorem absorb_spec (n : Network) (id : NodeId) (set : ObjectSet) :
    (n.absorb id set).1.graph = n.graph ∧
      (∀ m, (n.absorb id set).1.Announces m ↔ n.Announces m) ∧
      (∀ x o, o ∈ (n.absorb id set).1.points.points x ↔
        o ∈ n.points.points x ∨ x = id ∧ o ∈ set) ∧
      (∀ o, o ∈ (n.absorb id set).2 ↔ o ∈ set ∧ ¬ o ∈ n.points.points id) ∧
      ∀ x o, (n.absorb id set).1.Arrives x o ↔ n.Arrives x o ∨ (x = id ∧ o ∈ set) ∨
        x ∈ n.graph.successors id ∧ o ∈ (n.absorb id set).2 := by
  have new := PointsMap.mem_delta_absorb n.points id set
  have added : ∀ x o, o ∈ (n.points.absorb id set).1.points x ↔
      o ∈ n.points.points x ∨ x = id ∧ o ∈ set := by
    intro x o
    by_cases here : id = x
    · subst here
      simp [PointsMap.mem_points_absorb]
    · have other : ¬ x = id := fun same => here same.symm
      simp [PointsMap.points, PointsMap.get?_absorb_ne n.points set here, other]
  have arrived : ∀ x o, Arrives { n with points := (n.points.absorb id set).1 } x o ↔
      n.Arrives x o ∨ x = id ∧ o ∈ set := by
    intro x o
    simp only [Arrives, added]
    exact or_right_comm
  by_cases nothing : (n.points.absorb id set).2.isEmpty = true
  · have none := ObjectSet.not_mem_of_isEmpty nothing
    simp only [absorb, nothing, if_true]
    exact ⟨trivial, fun _ => Iff.rfl, added, new, fun x o => by simp [arrived, none]⟩
  · obtain ⟨graph, points, announces, arrives⟩ := sendAll_spec
      { n with points := (n.points.absorb id set).1 } (n.graph.successors id)
      (n.points.absorb id set).2
    simp only [absorb, nothing, Bool.false_eq_true, if_false]
    refine ⟨graph, announces, fun x o => ?_, new, fun x o => ?_⟩
    · rw [points]
      exact added x o
    · rw [arrives, arrived]
      tauto

section Absorb

variable {n rest : Network} {id : NodeId} {set : ObjectSet}

/-- What arrived before some objects were taken and absorbed still arrives. -/
theorem arrives_absorb_of_pop (taken : n.pop? = some (.objects id set, rest)) {x : NodeId}
    {o : QualifiedObjectId} (arrives : n.Arrives x o) : (rest.absorb id set).1.Arrives x o := by
  obtain ⟨whole, -, points⟩ := toList_of_pop? taken
  obtain ⟨-, -, -, -, characterised⟩ := absorb_spec rest id set
  rw [characterised]
  rcases arrives with held | ⟨queued, member, inside⟩
  · exact .inl (.inl (by rw [points]; exact held))
  · rw [whole] at member
    rcases List.mem_cons.mp member with same | later
    · cases same
      exact .inr (.inl ⟨rfl, inside⟩)
    · exact .inl (.inr ⟨queued, later, inside⟩)

theorem grows_absorb_of_pop (taken : n.pop? = some (.objects id set, rest)) :
    n.Grows (rest.absorb id set).1 := by
  obtain ⟨-, graph, points⟩ := toList_of_pop? taken
  obtain ⟨kept, -, added, -, -⟩ := absorb_spec rest id set
  refine ⟨by rw [kept, graph]; exact .refl _, by simp [kept, graph], fun x o held => ?_, ?_⟩
  · rw [added, points]
    exact .inl held
  · exact fun x o arrives => arrives_absorb_of_pop taken arrives

theorem announces_absorb_of_pop (taken : n.pop? = some (.objects id set, rest)) (m : QualifiedMethod) :
    (rest.absorb id set).1.Announces m ↔ n.Announces m := by
  obtain ⟨-, announces, -⟩ := absorb_spec rest id set
  rw [announces]
  simp [Announces, (toList_of_pop? taken).1]

/-- What is new at the node is sent along its edges, and what it had before has arrived already. -/
theorem delivered_absorb_of_pop (taken : n.pop? = some (.objects id set, rest))
    (delivered : n.Delivered) : (rest.absorb id set).1.Delivered := by
  obtain ⟨-, graph, points⟩ := toList_of_pop? taken
  obtain ⟨kept, -, added, new, arrives⟩ := absorb_spec rest id set
  intro e edge o held
  have before : o ∈ n.points.points e.source → (rest.absorb id set).1.Arrives e.target o :=
    fun old => arrives_absorb_of_pop taken (delivered e (by rw [← graph, ← kept]; exact edge) o old)
  rcases (added e.source o).mp held with old | ⟨here, member⟩
  · exact before (by rw [← points]; exact old)
  · by_cases known : o ∈ n.points.points id
    · exact before (by rw [here]; exact known)
    · rw [arrives]
      refine .inr (.inr ⟨?_, (new o).mpr ⟨member, by rw [points]; exact known⟩⟩)
      exact FlowGraph.mem_successors.mpr ⟨e, by rw [← kept]; exact edge, here, rfl⟩

/-- Nothing arrives that did not arrive before, except what the edges out of the node deliver. -/
theorem arrives_of_absorb (taken : n.pop? = some (.objects id set, rest)) {x : NodeId}
    {o : QualifiedObjectId} (arrives : (rest.absorb id set).1.Arrives x o) :
    n.Arrives x o ∨ n.Arrives id o ∧ ∃ e ∈ n.graph.edges, e.source = id ∧ e.target = x := by
  obtain ⟨whole, graph, points⟩ := toList_of_pop? taken
  obtain ⟨-, -, -, new, characterised⟩ := absorb_spec rest id set
  have queued : ∀ o ∈ set, n.Arrives id o :=
    fun o member => .inr ⟨set, by rw [whole]; exact List.mem_cons_self, member⟩
  rcases (characterised x o).mp arrives with (held | ⟨later, old, member⟩) | ⟨rfl, member⟩ | ⟨next, member⟩
  · exact .inl (.inl (by rw [← points]; exact held))
  · exact .inl (.inr ⟨later, by rw [whole]; exact List.mem_cons_of_mem _ old, member⟩)
  · exact .inl (queued o member)
  · refine .inr ⟨queued o ((new o).mp member).1, ?_⟩
    rw [graph] at next
    exact FlowGraph.mem_successors.mp next

end Absorb

end PointsTo.Network
