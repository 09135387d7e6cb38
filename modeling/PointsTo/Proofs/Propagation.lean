/- # Propagation -- whatever the order of edges and objects

A network is built by making nodes, adding edges, seeding objects at nodes, and doing pending work, in any
order and with cycles.  An operation makes an object arrive only where it is seeded or one edge further than
it had arrived (`Effect.justified`), and it loses none (`Effect.kept`, `Effect.delivered`).  So at any time what
has arrived at a node was seeded where a path to the node starts, and once no objects are pending that is all
that the node holds.

Main statement: `points_after`. -/
import Mathlib.Data.List.Induction
import Mathlib.Logic.Relation
import PointsTo.Proofs.Delivery

set_option autoImplicit false

namespace PointsTo.Network

/-! ## Operations -/

/-- A change of a network. -/
inductive Operation
  /-- Makes a node for a pointer. -/
  | node (p : Pointer)
  /-- Adds an edge; its nodes need not have been made. -/
  | connect (e : FlowEdge)
  /-- Queues a method. -/
  | announce (m : QualifiedMethod)
  /-- Queues objects for a node. -/
  | send (id : NodeId) (set : ObjectSet)
  /-- Takes objects into the set of a node, past the queue. -/
  | absorb (id : NodeId) (set : ObjectSet)
  /-- Takes the oldest piece of work out of the queue, and objects into the set of their node. -/
  | take

/-- The network after one operation. -/
def apply (n : Network) : Operation → Network
  | .node p => (n.node p).1
  | .connect e => (n.connect e).1
  | .announce m => n.announce m
  | .send id set => n.send id set
  | .absorb id set => (n.absorb id set).1
  | .take =>
    match n.pop? with
    | some (.objects id set, rest) => (rest.absorb id set).1
    | some (.method _, rest) => rest
    | none => n

/-- The network that operations make of the empty one. -/
def after (operations : List Operation) : Network := operations.foldl apply empty

/-- An operation seeds an object at a node. -/
def Operation.Seeds (operation : Operation) (id : NodeId) (o : QualifiedObjectId) : Prop :=
  match operation with
  | .send target set | .absorb target set => target = id ∧ o ∈ set
  | _ => False

/-- One of the operations seeds an object at a node. -/
def Seeded (operations : List Operation) (id : NodeId) (o : QualifiedObjectId) : Prop :=
  ∃ operation ∈ operations, operation.Seeds id o

/-- There is a path along edges from one node to another. -/
def Leads (n : Network) : NodeId → NodeId → Prop :=
  Relation.ReflTransGen fun source target => target ∈ n.graph.successors source

/-- No objects are pending. -/
def Settled (n : Network) : Prop := ∀ id set, .objects id set ∉ n.pending.toList

/-! ## One operation -/

/-- What an operation does to a network. -/
structure Effect (operation : Operation) (n n' : Network) : Prop where
  delivered : n.Delivered → n'.Delivered
  edges : ∀ source target, target ∈ n'.graph.successors source ↔
    target ∈ n.graph.successors source ∨ ∃ kind, operation = .connect ⟨source, target, kind⟩
  kept : ∀ id o, n.Arrives id o → n'.Arrives id o
  seeded : ∀ id o, operation.Seeds id o → n'.Arrives id o
  justified : ∀ id o, n'.Arrives id o → n.Arrives id o ∨ operation.Seeds id o ∨
    ∃ source, (n.Arrives source o ∨ operation.Seeds source o) ∧ id ∈ n'.graph.successors source

theorem successors_congr {n n' : Network} (same : n'.graph.edges = n.graph.edges) (source : NodeId) :
    n'.graph.successors source = n.graph.successors source := by
  unfold FlowGraph.successors
  rw [same]

section Effects

variable (n : Network)

theorem effect_node (p : Pointer) : Effect (.node p) n (n.node p).1 where
  delivered := delivered_node n p
  edges source target := by
    rw [successors_congr (edges_node n p)]
    simp
  kept id o arrives := arrives
  seeded id o impossible := impossible.elim
  justified id o arrives := .inl arrives

theorem effect_connect (e : FlowEdge) : Effect (.connect e) n (n.connect e).1 where
  delivered := delivered_connect n e
  edges source target := by
    rw [FlowGraph.mem_successors, FlowGraph.mem_successors]
    constructor
    · rintro ⟨e', edge, rfl, rfl⟩
      rcases mem_edges_connect n e edge with old | rfl
      · exact .inl ⟨e', old, rfl, rfl⟩
      · exact .inr ⟨e'.kind, rfl⟩
    · rintro (⟨e', old, ends⟩ | ⟨kind, same⟩)
      · have kept := (grows_connect n e).edges.subset (Array.mem_toList_iff.mpr old)
        exact ⟨e', Array.mem_toList_iff.mp kept, ends⟩
      · cases same
        exact hasEdge_connect n _
  kept id o arrives := (grows_connect n e).arrives id o arrives
  seeded id o impossible := impossible.elim
  justified id o arrives := by
    rcases arrives_connect n e arrives with old | ⟨rfl, held⟩
    · exact .inl old
    · exact .inr (.inr ⟨e.source, .inl (.inl held), FlowGraph.mem_successors.mpr (hasEdge_connect n e)⟩)

theorem effect_announce (m : QualifiedMethod) : Effect (.announce m) n (n.announce m) where
  delivered := delivered_announce n m
  edges source target := by
    show target ∈ n.graph.successors source ↔ _
    simp
  kept id o arrives := (arrives_announce n m id o).mpr arrives
  seeded id o impossible := impossible.elim
  justified id o arrives := .inl ((arrives_announce n m id o).mp arrives)

theorem effect_send (target : NodeId) (set : ObjectSet) :
    Effect (.send target set) n (n.send target set) where
  delivered := delivered_send n target set
  edges source other := by
    show other ∈ n.graph.successors source ↔ _
    simp
  kept id o arrives := (arrives_send n target id set o).mpr (.inl arrives)
  seeded id o seeds := (arrives_send n target id set o).mpr (.inr ⟨seeds.1.symm, seeds.2⟩)
  justified id o arrives := by
    rcases (arrives_send n target id set o).mp arrives with old | ⟨rfl, member⟩
    · exact .inl old
    · exact .inr (.inl ⟨rfl, member⟩)

/-- What is new at the node is sent along its edges; what it had before has been sent already. -/
theorem delivered_absorb {n : Network} (delivered : n.Delivered) (id : NodeId) (set : ObjectSet) :
    (n.absorb id set).1.Delivered := by
  obtain ⟨graph, -, added, new, arrives⟩ := absorb_spec n id set
  intro e edge o held
  rw [graph] at edge
  have before (old : o ∈ n.points.points e.source) : (n.absorb id set).1.Arrives e.target o :=
    (arrives e.target o).mpr (.inl (delivered e edge o old))
  rcases (added e.source o).mp held with old | ⟨here, member⟩
  · exact before old
  · by_cases known : o ∈ n.points.points id
    · exact before (here ▸ known)
    · have next := FlowGraph.mem_successors.mpr ⟨e, edge, here, rfl⟩
      exact (arrives e.target o).mpr (.inr (.inr ⟨next, (new o).mpr ⟨member, known⟩⟩))

theorem effect_absorb (target : NodeId) (set : ObjectSet) :
    Effect (.absorb target set) n (n.absorb target set).1 := by
  obtain ⟨graph, -, -, new, arrives⟩ := absorb_spec n target set
  have edges := successors_congr (congrArg FlowGraph.edges graph)
  refine ⟨fun delivered => delivered_absorb delivered target set, fun source other => ?_, ?_, ?_, ?_⟩
  · rw [edges]
    simp
  · intro id o old
    exact (arrives id o).mpr (.inl old)
  · rintro id o ⟨rfl, member⟩
    exact (arrives _ o).mpr (.inr (.inl ⟨rfl, member⟩))
  · intro id o arrived
    rcases (arrives id o).mp arrived with old | ⟨rfl, member⟩ | ⟨next, delta⟩
    · exact .inl old
    · exact .inr (.inl ⟨rfl, member⟩)
    · rw [← edges] at next
      exact .inr (.inr ⟨target, .inr ⟨rfl, ((new o).mp delta).1⟩, next⟩)

/-- Taking work changes no edges, and what was pending for a node moves on from there. -/
theorem effect_take : Effect .take n (n.apply .take) := by
  unfold apply
  cases taken : n.pop? with
  | none =>
      refine ⟨id, fun source target => by simp, fun _ _ => id, ?_, fun _ _ arrives => .inl arrives⟩
      exact fun _ _ impossible => impossible.elim
  | some popped =>
      obtain ⟨item, rest⟩ := popped
      obtain ⟨-, graph, -⟩ := toList_of_pop? taken
      cases item with
      | method m =>
          refine ⟨delivered_of_pop_method taken, fun source target => ?_, ?_, ?_, ?_⟩
          · rw [successors_congr (congrArg FlowGraph.edges graph)]
            simp
          · exact fun id o arrives => (arrives_of_pop_method taken id o).mpr arrives
          · exact fun _ _ impossible => impossible.elim
          · exact fun id o arrives => .inl ((arrives_of_pop_method taken id o).mp arrives)
      | objects target set =>
          obtain ⟨kept, -⟩ := absorb_spec rest target set
          have edges := successors_congr (congrArg FlowGraph.edges (kept.trans graph))
          refine ⟨delivered_absorb_of_pop taken, fun source other => ?_, ?_, ?_, ?_⟩
          · rw [edges]
            simp
          · exact fun id o arrives => arrives_absorb_of_pop taken arrives
          · exact fun _ _ impossible => impossible.elim
          · intro id o arrives
            rcases arrives_of_absorb taken arrives with old | ⟨here, edge⟩
            · exact .inl old
            · refine .inr (.inr ⟨target, .inl here, ?_⟩)
              rw [edges]
              exact FlowGraph.mem_successors.mpr edge

theorem effect_apply (operation : Operation) : Effect operation n (n.apply operation) := by
  cases operation with
  | node p => exact effect_node n p
  | connect e => exact effect_connect n e
  | announce m => exact effect_announce n m
  | send id set => exact effect_send n id set
  | absorb id set => exact effect_absorb n id set
  | take => exact effect_take n

end Effects

/-! ## Many operations -/

/-- What operations have made of a network: its edges are those that were added, its objects are delivered,
and what has arrived is what was seeded where a path starts. -/
structure Made (operations : List Operation) (n : Network) : Prop where
  delivered : n.Delivered
  edges : ∀ source target, target ∈ n.graph.successors source ↔
    ∃ kind, .connect ⟨source, target, kind⟩ ∈ operations
  seeded : ∀ id o, Seeded operations id o → n.Arrives id o
  justified : ∀ id o, n.Arrives id o → ∃ source, Seeded operations source o ∧ n.Leads source id

theorem made_empty : Made [] empty where
  delivered e edge := by simp [empty] at edge
  edges source target := by simp [empty, FlowGraph.successors]
  seeded id o := by simp [Seeded]
  justified id o arrives := by
    rcases arrives with held | ⟨set, queued, -⟩
    · simp [empty, PointsMap.points, PointsMap.get?] at held
    · simp [empty, Worklist.toList] at queued

/-- One more operation. -/
theorem Made.apply {operations : List Operation} {n : Network} (made : Made operations n)
    (operation : Operation) : Made (operations ++ [operation]) (n.apply operation) := by
  have effect := effect_apply n operation
  have longer : ∀ {source target}, n.Leads source target → (n.apply operation).Leads source target :=
    fun path => path.lift id fun a b edge => (effect.edges a b).mpr (.inl edge)
  have earlier : ∀ {id o}, Seeded operations id o → Seeded (operations ++ [operation]) id o :=
    fun ⟨old, member, seeds⟩ => ⟨old, List.mem_append_left _ member, seeds⟩
  have last : ∀ {id o}, operation.Seeds id o → Seeded (operations ++ [operation]) id o :=
    fun seeds => ⟨operation, List.mem_append_right _ List.mem_cons_self, seeds⟩
  -- What had arrived or is seeded now starts a path in the new network.
  have started : ∀ {id o}, n.Arrives id o ∨ operation.Seeds id o →
      ∃ source, Seeded (operations ++ [operation]) source o ∧ (n.apply operation).Leads source id := by
    rintro id o (old | seeds)
    · obtain ⟨source, known, path⟩ := made.justified id o old
      exact ⟨source, earlier known, longer path⟩
    · exact ⟨id, last seeds, .refl⟩
  refine ⟨effect.delivered made.delivered, fun source target => ?_, ?_, ?_⟩
  · rw [effect.edges, made.edges]
    simp only [List.mem_append, List.mem_singleton]
    constructor
    · rintro (⟨kind, old⟩ | ⟨kind, new⟩)
      · exact ⟨kind, .inl old⟩
      · exact ⟨kind, .inr new.symm⟩
    · rintro ⟨kind, old | new⟩
      · exact .inl ⟨kind, old⟩
      · exact .inr ⟨kind, new.symm⟩
  · rintro id o ⟨other, member, seeds⟩
    rcases List.mem_append.mp member with old | new
    · exact effect.kept id o (made.seeded id o ⟨other, old, seeds⟩)
    · cases List.mem_singleton.mp new
      exact effect.seeded id o seeds
  · intro id o arrives
    rcases effect.justified id o arrives with old | seeds | ⟨source, there, edge⟩
    · exact started (.inl old)
    · exact started (.inr seeds)
    · obtain ⟨start, known, path⟩ := started there
      exact ⟨start, known, path.tail edge⟩

theorem made_after (operations : List Operation) : Made operations (after operations) := by
  induction operations using List.reverseRecOn with
  | nil => exact made_empty
  | append_singleton operations operation ih =>
      rw [after, List.foldl_append]
      exact ih.apply operation

/-- Without pending objects everything that was seeded has come through to the end of every path. -/
theorem Made.mem_points {operations : List Operation} {n : Network} (made : Made operations n)
    (settled : n.Settled) {source id : NodeId} {o : QualifiedObjectId} (seeded : Seeded operations source o)
    (path : n.Leads source id) : o ∈ n.points.points id := by
  have held : ∀ {id}, n.Arrives id o → o ∈ n.points.points id := by
    rintro id (held | ⟨set, queued, -⟩)
    · exact held
    · exact absurd queued (settled id set)
  induction path with
  | refl => exact held (made.seeded source o seeded)
  | tail path edge ih =>
      obtain ⟨e, member, here, rfl⟩ := FlowGraph.mem_successors.mp edge
      exact held (made.delivered e member o (here ▸ ih))

/-- Without pending objects a node holds what was seeded where a path to it starts. -/
theorem Made.mem_points_iff {operations : List Operation} {n : Network} (made : Made operations n)
    (settled : n.Settled) (id : NodeId) (o : QualifiedObjectId) :
    o ∈ n.points.points id ↔ ∃ source, Seeded operations source o ∧ n.Leads source id := by
  constructor
  · intro held
    exact made.justified id o (.inl held)
  · rintro ⟨source, seeded, path⟩
    exact made.mem_points settled seeded path

/-- Whatever the order of operations, the edges of the network are those that were added, every object of the
source of an edge has arrived at its target, and whatever has arrived at a node was seeded at a node with a
path to it.  While no objects are pending, a node holds exactly what was seeded at the nodes with a path to
it. -/
theorem points_after (operations : List Operation) :
    (∀ source target, target ∈ (after operations).graph.successors source ↔
      ∃ kind, .connect ⟨source, target, kind⟩ ∈ operations) ∧
    (after operations).Delivered ∧
    (∀ id o, (after operations).Arrives id o →
      ∃ source, Seeded operations source o ∧ (after operations).Leads source id) ∧
    ((after operations).Settled → ∀ id o, o ∈ (after operations).points.points id ↔
      ∃ source, Seeded operations source o ∧ (after operations).Leads source id) := by
  have made := made_after operations
  exact ⟨made.edges, made.delivered, made.justified, made.mem_points_iff⟩

/-- Three nodes on a cycle, one with a loop; edges come before, between and after the objects that pass them. -/
def looped : List Operation :=
  [.node (.static 0), .node (.static 1), .node (.static 2), .send 0 (.singleton 7), .connect ⟨0, 1, .assign⟩,
    .take, .connect ⟨1, 2, .assign⟩, .take, .connect ⟨2, 0, .assign⟩, .connect ⟨1, 1, .assign⟩,
    .absorb 2 (.singleton 9), .take, .take, .take, .take, .take, .take, .take]

/-- On a cycle every node gets what was seeded at any of them. -/
theorem points_after_looped :
    (after looped).Settled ∧
    (∀ id o, o ∈ (after looped).points.points id ↔
      ∃ source, Seeded looped source o ∧ (after looped).Leads source id) ∧
    ∀ id < 3, ((after looped).points.points id).toList = [7, 9] := by
  have settled : (after looped).Settled := by
    have done : (after looped).pending.toList = [] := by decide +kernel
    intro id set queued
    rw [done] at queued
    cases queued
  obtain ⟨-, -, -, points⟩ := points_after looped
  refine ⟨settled, points settled, ?_⟩
  decide +kernel

/-- The order makes no difference: operations that add the same edges and seed the same objects leave the same
sets once no objects are pending. -/
theorem mem_points_congr {operations others : List Operation}
    (settled : (after operations).Settled) (alsoSettled : (after others).Settled)
    (edges : ∀ e, .connect e ∈ operations ↔ .connect e ∈ others)
    (seeds : ∀ id o, Seeded operations id o ↔ Seeded others id o) (id : NodeId) (o : QualifiedObjectId) :
    o ∈ (after operations).points.points id ↔ o ∈ (after others).points.points id := by
  have made := made_after operations
  have also := made_after others
  have graphs : (after operations).Leads = (after others).Leads := by
    unfold Leads
    congr
    funext source target
    rw [made.edges, also.edges]
    simp only [edges]
  rw [made.mem_points_iff settled, also.mem_points_iff alsoSettled, graphs]
  simp only [seeds]

end PointsTo.Network
