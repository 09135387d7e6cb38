/- # Interning -- numbers that stand for their keys

The tables of contexts, of objects in their contexts and of pointers are filled by requests that come in any order.
Whatever it is, each table sees only the requests for its own keys, and is canonical for them (`Table.Canonical`):
numbers and keys determine each other, two requests have one number exactly when they ask for one key, and numbers
are given out in order, without gaps, for good.  The empty context is numbered before the first request.  An edge of
the flow graph is added with its first request and keeps the kind that it came with.

A table can find its numbers by an index of the keys (`IndexedTable`); it stays in step with a table that searches
(`Table.Indexes.intern`).

Main statement: `interned_requests`. -/
import Mathlib.Logic.Function.Basic
import PointsTo.Context.Policy
import PointsTo.Proofs.FirstRequests
import PointsTo.Proofs.Numbering
import PointsTo.Proofs.OrderedSets

set_option autoImplicit false

namespace PointsTo

/-! ## Tables -/

/-- Keys with an index of their numbers. -/
structure IndexedTable (α : Type) where
  keys : Array α := #[]
  number? : α → Option Nat := fun _ => none

/-- The number of a key; a new key is added to the keys and to the index. -/
def IndexedTable.intern {α : Type} [DecidableEq α] (t : IndexedTable α) (key : α) : IndexedTable α × Nat :=
  match t.number? key with
  | some id => (t, id)
  | none => (⟨t.keys.push key, Function.update t.number? key (some t.keys.size)⟩, t.keys.size)

namespace Table

variable {α : Type} [DecidableEq α] {x : IndexedTable α} {t : Table α} {asked : List (α × Nat)}

/-- The index finds what a search finds. -/
structure Indexes (x : IndexedTable α) (t : Table α) : Prop where
  keys : x.keys = t.keys
  number? : ∀ key, x.number? key = t.number? key

theorem searchBelow_congr {keys more : Array α} {key : α} {bound : Nat}
    (same : ∀ id < bound, keys[id]? = more[id]?) : searchBelow keys key bound = searchBelow more key bound := by
  induction bound with
  | zero => rfl
  | succ bound ih =>
      rw [searchBelow, searchBelow, same bound (Nat.lt_succ_self bound),
        ih fun id below => same id (Nat.lt_succ_of_lt below)]

theorem number?_push (keys : Array α) (key other : α) :
    (⟨keys.push key⟩ : Table α).number? other =
      if other = key then some keys.size else (⟨keys⟩ : Table α).number? other := by
  have earlier : searchBelow (keys.push key) other keys.size = searchBelow keys other keys.size :=
    searchBelow_congr fun id below => by rw [Array.getElem?_push, if_neg (Nat.ne_of_lt below)]
  simp [number?, searchBelow, earlier, eq_comm]

/-- A table with an index answers as one without. -/
theorem Indexes.intern (indexes : Indexes x t) (key : α) :
    Indexes (x.intern key).1 (t.intern key).1 ∧ (x.intern key).2 = (t.intern key).2 := by
  unfold IndexedTable.intern Table.intern
  rw [indexes.number? key]
  cases t.number? key with
  | some id => exact ⟨indexes, rfl⟩
  | none =>
      refine ⟨⟨by rw [indexes.keys], fun other => ?_⟩, by rw [indexes.keys]⟩
      rw [number?_push, funext indexes.number?, indexes.keys]
      exact Function.update_apply _ key _ other

/-- What is asked of an empty table, each key with its answer. -/
structure Answers (t : Table α) (asked : List (α × Nat)) : Prop where
  numbered : Numbered (asked.map (·.1)) t.toList (asked.map (·.2))
  indexed : ∃ x, serve IndexedTable.intern {} (asked.map (·.1)) = (x, asked.map (·.2)) ∧ Indexes x t

theorem answers_empty : Answers (empty : Table α) [] := ⟨numbered_nil, {}, rfl, rfl, fun _ => rfl⟩

theorem Answers.next (answers : Answers t asked) (key : α) :
    Answers (t.intern key).1 (asked ++ [(key, (t.intern key).2)]) := by
  constructor
  · rw [List.map_append, List.map_append]
    refine answers.numbered.next ?_ (by rw [← key?_eq_getElem?]; exact key?_intern t key)
    by_cases member : key ∈ t.toList
    · exact .inl (by rw [toList_intern_of_mem member])
    · refine .inr ⟨member, ?_⟩
      unfold intern
      split
      · exact absurd (mem_of_key? (key?_of_number? ‹_›)) member
      · simp [toList]
  · obtain ⟨x, served, indexes⟩ := answers.indexed
    obtain ⟨after, same⟩ := indexes.intern key
    refine ⟨(x.intern key).1, ?_, after⟩
    rw [List.map_append, List.map_append, List.map_singleton, List.map_singleton, serve_concat, served, same]

/-- More requests leave the numbers with their keys. -/
theorem Answers.extends {u : Table α} {more : List (α × Nat)} (answers : Answers t asked)
    (later : Answers u (asked ++ more)) : t.Extends u := by
  have numbered := later.numbered
  rw [List.map_append] at numbered
  exact answers.numbered.isPrefix numbered

/-- Numbers and keys of a table stand for each other; `asked` are the requests so far with their answers. -/
structure Canonical (t : Table α) (asked : List (α × Nat)) : Prop where
  /-- Keys are numbered in the order of their first request. -/
  order : t.toList = (asked.map (·.1)).eraseDups
  /-- Numbers are met in their order, without gaps. -/
  dense : (asked.map (·.2)).eraseDups = List.range t.size
  /-- The numbers of keys and the keys of numbers are inverse to each other. -/
  inverse : ∀ key id, t.number? key = some id ↔ t.key? id = some key
  /-- Every answer was the number of its key, and still is. -/
  kept : ∀ a ∈ asked, t.number? a.1 = some a.2
  same : ∀ a ∈ asked, ∀ b ∈ asked, a.2 = b.2 ↔ a.1 = b.1
  /-- With an index the answers and the keys are the same. -/
  indexed : ∃ x, serve IndexedTable.intern {} (asked.map (·.1)) = (x, asked.map (·.2)) ∧ Indexes x t

theorem Answers.canonical (answers : Answers t asked) : Canonical t asked := by
  have numbered := answers.numbered
  have inverse : ∀ key id, t.number? key = some id ↔ t.key? id = some key :=
    fun key id => number?_eq_some_iff numbered.nodup
  have read : ∀ a ∈ asked, t.key? a.2 = some a.1 := by
    intro a member
    have same := numbered.positions
    rw [List.map_map, List.map_map, List.map_inj_left] at same
    simpa [key?_eq_getElem?] using same a member
  refine ⟨numbered.order, by rw [size_eq_length, numbered.dense], inverse,
    fun a member => (inverse a.1 a.2).mpr (read a member), fun a member b member' => ?_, answers.indexed⟩
  constructor
  · intro same
    exact Option.some.inj ((read a member).symm.trans (same ▸ read b member'))
  · intro same
    exact key?_injective numbered.nodup (read a member) (same ▸ read b member')

end Table

/-! ## Edges -/

/-- The nodes that an edge goes from and to. -/
def FlowEdge.ends (e : FlowEdge) : NodeId × NodeId := (e.source, e.target)

namespace FlowGraph

variable {g : FlowGraph} {requested : List FlowEdge}

/-- Nodes have an edge when one was requested. -/
theorem hasEdge_iff_of_firstsOn (edges : g.edges.toList = firstsOn FlowEdge.ends requested)
    {source target : NodeId} :
    g.hasEdge source target = true ↔ (source, target) ∈ requested.map FlowEdge.ends := by
  rw [← mem_map_firstsOn, ← edges, hasEdge_iff, List.mem_map]
  simp [FlowEdge.ends]

/-- An edge is added when it is the first with its ends. -/
theorem edges_connect (edges : g.edges.toList = firstsOn FlowEdge.ends requested) (e : FlowEdge) :
    (g.connect e).1.edges.toList = firstsOn FlowEdge.ends (requested ++ [e]) ∧
      (g.connect e).1.edges.toList = g.edges.toList ++ if (g.connect e).2 then [e] else [] := by
  rw [firstsOn_concat, ← edges]
  unfold connect
  by_cases known : g.hasEdge e.source e.target = true
  · have listed : e.ends ∈ requested.map FlowEdge.ends := (hasEdge_iff_of_firstsOn edges).mp known
    simp [known, listed]
  · have missing : e.ends ∉ requested.map FlowEdge.ends := (hasEdge_iff_of_firstsOn edges).not.mp known
    simp [known, missing]

theorem nodes_connect (g : FlowGraph) (e : FlowEdge) : (g.connect e).1.nodes = g.nodes := by
  unfold connect
  split <;> rfl

end FlowGraph

/-! ## Requests -/

/-- The tables of an analysis and its flow graph. -/
structure Store where
  contexts : ContextTable := .initial
  objects : Table QualifiedObject := {}
  graph : FlowGraph := {}

namespace Store

/-- What is asked of a store: a number, or an edge. -/
inductive Request
  | context (context : Context)
  | object (object : QualifiedObject)
  | node (pointer : Pointer)
  | edge (e : FlowEdge)

/-- A request with its answer; for an edge, whether it was added. -/
inductive Answered
  | context (context : Context) (id : ContextId)
  | object (object : QualifiedObject) (id : QualifiedObjectId)
  | node (pointer : Pointer) (id : NodeId)
  | edge (e : FlowEdge) (added : Bool)
  deriving DecidableEq, Repr

namespace Answered

/-- What was asked. -/
def request : Answered → Request
  | context key _ => .context key
  | object key _ => .object key
  | node key _ => .node key
  | edge e _ => .edge e

/-- A request for the number of a context. -/
def context? : Answered → Option (Context × ContextId)
  | context key id => some (key, id)
  | _ => none

/-- A request for the number of an object. -/
def object? : Answered → Option (QualifiedObject × QualifiedObjectId)
  | object key id => some (key, id)
  | _ => none

/-- A request for the node of a pointer. -/
def node? : Answered → Option (Pointer × NodeId)
  | node key id => some (key, id)
  | _ => none

/-- A request for an edge. -/
def edge? : Answered → Option FlowEdge
  | edge e _ => some e
  | _ => none

/-- A request that added an edge. -/
def added? : Answered → Option FlowEdge
  | edge e true => some e
  | _ => none

end Answered

/-- The store after a request, and the request with its answer. -/
def answer (s : Store) : Request → Store × Answered
  | .context key => ({ s with contexts := (s.contexts.intern key).1 }, .context key (s.contexts.intern key).2)
  | .object key => ({ s with objects := (s.objects.intern key).1 }, .object key (s.objects.intern key).2)
  | .node key => ({ s with graph := (s.graph.node key).1 }, .node key (s.graph.node key).2)
  | .edge e => ({ s with graph := (s.graph.connect e).1 }, .edge e (s.graph.connect e).2)

/-- The new store after requests, and the requests with their answers. -/
def requests (asked : List Request) : Store × List Answered := serve answer {} asked

/-- Every table and the edges have answered the requests for them; the empty context was asked for first. -/
structure Answers (s : Store) (answered : List Answered) : Prop where
  contexts : s.contexts.Answers (([], ContextTable.emptyId) :: answered.filterMap Answered.context?)
  objects : s.objects.Answers (answered.filterMap Answered.object?)
  nodes : s.graph.nodes.Answers (answered.filterMap Answered.node?)
  edges : s.graph.edges.toList = firstsOn FlowEdge.ends (answered.filterMap Answered.edge?)
  added : s.graph.edges.toList = answered.filterMap Answered.added?

theorem answers_new : Answers {} [] :=
  ⟨Table.answers_empty.next [], Table.answers_empty, Table.answers_empty, rfl, rfl⟩

/-- A request reaches one table, or the edges, and is none to the others. -/
theorem Answers.next {s : Store} {answered : List Answered} (answers : Answers s answered) (request : Request) :
    Answers (s.answer request).1 (answered ++ [(s.answer request).2]) := by
  constructor <;> rw [List.filterMap_append]
  case contexts =>
    cases request with
    | context key => exact answers.contexts.next key
    | _ => simpa [answer, List.filterMap_cons, Answered.context?] using answers.contexts
  case objects =>
    cases request with
    | object key => exact answers.objects.next key
    | _ => simpa [answer, List.filterMap_cons, Answered.object?] using answers.objects
  case nodes =>
    cases request with
    | node key => exact answers.nodes.next key
    | edge e =>
        simpa [answer, List.filterMap_cons, Answered.node?, s.graph.nodes_connect e] using answers.nodes
    | _ => simpa [answer, List.filterMap_cons, Answered.node?] using answers.nodes
  case edges =>
    cases request with
    | edge e => exact (FlowGraph.edges_connect answers.edges e).1
    | _ => simpa [answer, FlowGraph.node, List.filterMap_cons, Answered.edge?] using answers.edges
  case added =>
    cases request with
    | edge e =>
        rw [← answers.added, answer, (FlowGraph.edges_connect answers.edges e).2]
        cases new : (s.graph.connect e).2 <;> simp [Answered.added?]
    | _ => simpa [answer, FlowGraph.node, List.filterMap_cons, Answered.added?] using answers.added

theorem answers_requests (asked : List Request) : Answers (requests asked).1 (requests asked).2 := by
  induction asked using List.reverseRecOn with
  | nil => exact answers_new
  | append_singleton asked request ih =>
      rw [requests, serve_concat]
      exact ih.next request

theorem request_answer (s : Store) (request : Request) : (s.answer request).2.request = request := by
  cases request <;> rfl

theorem map_request_requests (asked : List Request) : (requests asked).2.map Answered.request = asked := by
  induction asked using List.reverseRecOn with
  | nil => rfl
  | append_singleton asked request ih =>
      rw [requests, serve_concat, List.map_append, List.map_singleton, request_answer]
      exact congrArg (· ++ [request]) ih

/-- A later store: every number that was in use keeps its key, and every edge its place and its kind. -/
structure Extends (s later : Store) : Prop where
  contexts : s.contexts.Extends later.contexts
  objects : s.objects.Extends later.objects
  nodes : s.graph.nodes.Extends later.graph.nodes
  edges : s.graph.edges.toList <+: later.graph.edges.toList

theorem Answers.store_extends {s later : Store} {answered more : List Answered} (answers : Answers s answered)
    (answers' : Answers later (answered ++ more)) : s.Extends later := by
  obtain ⟨contexts, objects, nodes, -, added⟩ := answers'
  rw [List.filterMap_append] at contexts objects nodes added
  exact ⟨answers.contexts.extends contexts, answers.objects.extends objects, answers.nodes.extends nodes,
    added ▸ answers.added ▸ List.prefix_append _ _⟩

/-- What requests for `asked` make of a new store, and how they are answered. -/
structure Interned (asked : List Request) (s : Store) (answered : List Answered) : Prop where
  inOrder : answered.map Answered.request = asked
  contexts : s.contexts.Canonical (([], ContextTable.emptyId) :: answered.filterMap Answered.context?)
  emptyContext : s.contexts.key? ContextTable.emptyId = some [] ∧
    s.contexts.number? [] = some ContextTable.emptyId
  objects : s.objects.Canonical (answered.filterMap Answered.object?)
  nodes : s.graph.nodes.Canonical (answered.filterMap Answered.node?)
  /-- There is at most one edge between two nodes. -/
  simple : s.graph.Simple
  /-- An edge is the first that was requested between its nodes, and has its kind. -/
  edges : ∀ e, e ∈ s.graph.edges ↔
    (answered.filterMap Answered.edge?).find? (fun other => other.ends = e.ends) = some e
  /-- The edges are those that were answered as new, in order. -/
  added : s.graph.edges.toList = answered.filterMap Answered.added?

theorem Answers.interned {asked : List Request} {s : Store} {answered : List Answered} (answers : Answers s answered)
    (inOrder : answered.map Answered.request = asked) : Interned asked s answered := by
  have contexts := answers.contexts.canonical
  have first := contexts.kept ([], ContextTable.emptyId) List.mem_cons_self
  constructor
  case inOrder => exact inOrder
  case contexts => exact contexts
  case emptyContext => exact ⟨(contexts.inverse _ _).mp first, first⟩
  case objects => exact answers.objects.canonical
  case nodes => exact answers.nodes.canonical
  case simple =>
    show (s.graph.edges.toList.map FlowEdge.ends).Nodup
    rw [answers.edges]
    exact nodup_map_firstsOn _
  case edges =>
    intro e
    rw [← Array.mem_toList_iff, answers.edges, mem_firstsOn_iff]
  case added => exact answers.added

/-- However requests for contexts, objects, nodes and edges are interleaved, every table stays canonical and every
edge is added once, and what was in use before is left as it was. -/
theorem interned_requests (asked more : List Request) :
    Interned asked (requests asked).1 (requests asked).2 ∧
      (requests asked).1.Extends (requests (asked ++ more)).1 ∧
      (requests asked).2 <+: (requests (asked ++ more)).2 := by
  have answers := answers_requests asked
  obtain ⟨rest, same⟩ : (requests asked).2 <+: (requests (asked ++ more)).2 := by
    rw [requests, requests, serve_append]
    exact List.prefix_append _ _
  have later : Answers (requests (asked ++ more)).1 ((requests asked).2 ++ rest) :=
    same ▸ answers_requests (asked ++ more)
  exact ⟨answers.interned (map_request_requests asked), answers.store_extends later, ⟨rest, same⟩⟩

/-- Two variables that differ in their contexts, and a second edge of another kind between them. -/
example : (requests [.context [.type 4], .node (.var 1 7), .node (.var 0 7), .context [], .edge ⟨0, 1, .assign⟩,
    .object ⟨1, 0⟩, .node (.var 1 7), .edge ⟨0, 1, .parameter⟩, .context [.type 4]]).2 =
    [.context [.type 4] 1, .node (.var 1 7) 0, .node (.var 0 7) 1, .context [] 0, .edge ⟨0, 1, .assign⟩ true,
      .object ⟨1, 0⟩ 0, .node (.var 1 7) 0, .edge ⟨0, 1, .parameter⟩ false, .context [.type 4] 1] := by
  decide +kernel

end Store

end PointsTo
