/- # CallRecords -- what a call graph has recorded

A call graph is made by marking entries, marking reachable methods and adding edges, in any order and with any
arguments (`Operation`).  Its parts are the requests for them without repetitions (`Made`): the edges are those that
came first with their call site and callee, as they were when they came, and only marking a method makes it
reachable.  What a query gives is therefore a matter of the requests (`Records`).

A graph with indexes goes through the same operations in step with it (`follows_after`) and answers all queries alike
(`AnswersAlike`).

Main statement: `records_after`, for graphs with contexts and without. -/
import PointsTo.Proofs.CallIndexes

set_option autoImplicit false

namespace PointsTo

/-- The site and the callee of an edge. -/
def CallEdge.call {S M : Type} (e : CallEdge S M) : S × M := (e.site, e.callee)

theorem CallSite.order_injective : Function.Injective CallSite.order := by
  rintro ⟨method, index⟩ ⟨method', index'⟩ same
  simpa [order] using same

theorem QualifiedSite.order_injective : Function.Injective QualifiedSite.order := by
  rintro ⟨context, site⟩ ⟨context', site'⟩ same
  obtain ⟨contexts, sites⟩ := List.cons_eq_cons.mp same
  rw [QualifiedSite.mk.injEq]
  exact ⟨contexts, CallSite.order_injective sites⟩

namespace CallGraph

variable {S M : Type}

/-! ## Operations -/

/-- A change of a call graph. -/
inductive Operation (S M : Type)
  | enter (m : M)
  | reach (m : M)
  | connect (e : CallEdge S M)

namespace Operation

/-- A method that is marked as an entry. -/
def entered? : Operation S M → Option M
  | enter m => some m
  | _ => none

/-- A method that is marked as reachable. -/
def reached? : Operation S M → Option M
  | reach m => some m
  | _ => none

/-- An edge that is to be added. -/
def edge? : Operation S M → Option (CallEdge S M)
  | connect e => some e
  | _ => none

end Operation

variable [DecidableEq S] [DecidableEq M]

/-- The graph after an operation. -/
def apply (g : CallGraph S M) : Operation S M → CallGraph S M
  | .enter m => g.addEntry m
  | .reach m => (g.reach m).1
  | .connect e => (g.connect e).1

/-- The graph after operations on an empty one. -/
def after (operations : List (Operation S M)) : CallGraph S M := operations.foldl apply empty

theorem after_concat (operations : List (Operation S M)) (operation : Operation S M) :
    after (operations ++ [operation]) = (after operations).apply operation := by
  rw [after, List.foldl_append]
  rfl

/-! ## Parts -/

omit [DecidableEq S] in
theorem entries_reach (g : CallGraph S M) (m : M) : (g.reach m).1.entries = g.entries := by
  unfold reach
  split <;> rfl

theorem entries_connect (g : CallGraph S M) (e : CallEdge S M) : (g.connect e).1.entries = g.entries := by
  unfold connect
  split <;> rfl

/-- The parts of a graph are what was asked for, in order and without repetitions. -/
structure Made (operations : List (Operation S M)) (g : CallGraph S M) : Prop where
  entries : g.entries.toList = (operations.filterMap Operation.entered?).eraseDups
  reachable : g.reachable.toList = (operations.filterMap Operation.reached?).eraseDups
  edges : g.edges.toList = firstsOn CallEdge.call (operations.filterMap Operation.edge?)

section Made

variable {operations : List (Operation S M)} {g : CallGraph S M} (made : Made operations g)
include made

theorem Made.isReachable_iff {m : M} :
    g.isReachable m = true ↔ m ∈ operations.filterMap Operation.reached? := by
  rw [CallGraph.isReachable_iff, ← Array.mem_toList_iff, made.reachable, List.mem_eraseDups]

theorem Made.hasEdge_iff {site : S} {callee : M} :
    g.hasEdge site callee = true ↔
      (site, callee) ∈ (operations.filterMap Operation.edge?).map CallEdge.call := by
  rw [CallGraph.hasEdge_iff, ← mem_map_firstsOn, ← made.edges, List.mem_map]
  simp [CallEdge.call]

theorem Made.mem_entries {m : M} : m ∈ g.entries ↔ m ∈ operations.filterMap Operation.entered? := by
  rw [← Array.mem_toList_iff, made.entries, List.mem_eraseDups]

theorem Made.addEntry (m : M) :
    (g.addEntry m).entries.toList = (operations.filterMap Operation.entered? ++ [m]).eraseDups := by
  unfold CallGraph.addEntry
  split
  · rw [eraseDups_concat_of_mem (made.mem_entries.mp ‹_›), made.entries]
  · rw [eraseDups_concat_of_not_mem (made.mem_entries.not.mp ‹_›), Array.toList_push, made.entries]

theorem Made.reach (m : M) :
    (g.reach m).1.reachable.toList = (operations.filterMap Operation.reached? ++ [m]).eraseDups := by
  unfold CallGraph.reach
  split
  · rw [eraseDups_concat_of_mem (made.isReachable_iff.mp ‹_›), made.reachable]
  · rw [eraseDups_concat_of_not_mem (made.isReachable_iff.not.mp ‹_›), Array.toList_push, made.reachable]

theorem Made.connect (e : CallEdge S M) :
    (g.connect e).1.edges.toList = firstsOn CallEdge.call (operations.filterMap Operation.edge? ++ [e]) := by
  unfold CallGraph.connect
  rw [firstsOn_concat]
  split
  · rw [if_pos (made.hasEdge_iff.mp ‹_›), made.edges]
  · rw [if_neg (made.hasEdge_iff.not.mp ‹_›), Array.toList_push, made.edges]

/-- An operation changes one part and leaves the others. -/
theorem Made.next (operation : Operation S M) : Made (operations ++ [operation]) (g.apply operation) := by
  cases operation with
  | enter m =>
      obtain ⟨reachable, edges⟩ := addEntry_parts g m
      constructor <;> rw [List.filterMap_append, apply]
      case entries => exact made.addEntry m
      case reachable => simpa [List.filterMap_cons, Operation.reached?, reachable] using made.reachable
      case edges => simpa [List.filterMap_cons, Operation.edge?, edges] using made.edges
  | reach m =>
      constructor <;> rw [List.filterMap_append, apply]
      case entries => simpa [List.filterMap_cons, Operation.entered?, entries_reach] using made.entries
      case reachable => exact made.reach m
      case edges => simpa [List.filterMap_cons, Operation.edge?, (reach_spec g m).1] using made.edges
  | connect e =>
      constructor <;> rw [List.filterMap_append, apply]
      case entries => simpa [List.filterMap_cons, Operation.entered?, entries_connect] using made.entries
      case reachable => simpa [List.filterMap_cons, Operation.reached?, (connect_spec g e).1] using made.reachable
      case edges => exact made.connect e

end Made

theorem made_after (operations : List (Operation S M)) : Made operations (after operations) := by
  induction operations using List.reverseRecOn with
  | nil => exact ⟨rfl, rfl, rfl⟩
  | append_singleton operations operation ih =>
      rw [after_concat]
      exact ih.next operation

/-- The callees of a site are those that were added for it, in order and without repetitions. -/
theorem callees_firstsOn (added : List (CallEdge S M)) (site : S) :
    ((firstsOn CallEdge.call added).filter fun e => e.site = site).map (·.callee) =
      ((added.filter fun e => e.site = site).map (·.callee)).eraseDups := by
  induction added using List.reverseRecOn with
  | nil => rfl
  | append_singleton added e ih =>
      rw [firstsOn_concat, List.filter_append, List.map_append]
      by_cases here : e.site = site
      · have known : e.call ∈ added.map CallEdge.call ↔
            e.callee ∈ (added.filter fun e => e.site = site).map (·.callee) := by
          subst here
          simp [CallEdge.call, and_assoc]
        have last : ([e].filter fun e => e.site = site).map (·.callee) = [e.callee] := by simp [here]
        rw [last]
        by_cases old : e.call ∈ added.map CallEdge.call
        · rw [if_pos old, eraseDups_concat_of_mem (known.mp old), ih]
        · rw [if_neg old, eraseDups_concat_of_not_mem (known.not.mp old), List.filter_append, List.map_append, ih,
            last]
      · have last : [e].filter (fun e => e.site = site) = [] := by simp [here]
        rw [last, List.map_nil, List.append_nil]
        split
        · exact ih
        · rw [List.filter_append, last, List.append_nil, ih]

/-! ## Records -/

/-- What a graph has recorded of the operations that made it; `order` is what call sites are sorted by. -/
structure Records (order : S → List Nat) (operations : List (Operation S M)) (g : CallGraph S M) : Prop where
  /-- No call site has two edges to one callee. -/
  calls : (g.edges.toList.map CallEdge.call).Nodup
  /-- An edge is the first that was added with its site and callee, and has its caller and its kind. -/
  mem_edges : ∀ e, e ∈ g.edges ↔
    (operations.filterMap Operation.edge?).find? (fun other => other.call = e.call) = some e
  /-- Edges are in the order in which their sites and callees first came. -/
  edges : g.edges.toList = firstsOn CallEdge.call (operations.filterMap Operation.edge?)
  /-- An edge is added exactly when its site and callee are new, and else the graph is left as it is. -/
  connect : ∀ e,
    ((g.connect e).2 = true ↔ e.call ∉ (operations.filterMap Operation.edge?).map CallEdge.call) ∧
    ((g.connect e).2 = false → (g.connect e).1 = g)
  mem_callees : ∀ site m, m ∈ g.callees site ↔ ∃ e ∈ g.edges, e.site = site ∧ e.callee = m
  /-- Callees are listed once, in the order in which they were added. -/
  callees : ∀ site, (g.callees site).Nodup ∧ g.callees site =
    (((operations.filterMap Operation.edge?).filter fun e => e.site = site).map (·.callee)).eraseDups
  mem_sitesIn : ∀ caller site,
    site ∈ g.sitesIn order caller ↔ ∃ e ∈ g.edges, e.caller = caller ∧ e.site = site
  /-- Call sites are listed in strictly ascending order. -/
  sitesIn : ∀ caller, (g.sitesIn order caller).Pairwise fun a b => keyBefore (order a) (order b) = true
  /-- Methods are reachable once each, in the order in which they were marked. -/
  reachable : g.reachable.toList.Nodup ∧
    g.reachable.toList = (operations.filterMap Operation.reached?).eraseDups
  isReachable : ∀ m, g.isReachable m = true ↔ m ∈ g.reachable
  /-- A method is marked exactly when it is new, and else the graph is left as it is. -/
  reach : ∀ m, ((g.reach m).2 = true ↔ m ∉ operations.filterMap Operation.reached?) ∧
    ((g.reach m).2 = false → (g.reach m).1 = g)
  /-- Entries and edges make no method reachable. -/
  keptReachable : (∀ m, (g.addEntry m).reachable = g.reachable) ∧ ∀ e, (g.connect e).1.reachable = g.reachable

theorem Made.records {order : S → List Nat} (injective : Function.Injective order)
    {operations : List (Operation S M)} {g : CallGraph S M} (made : Made operations g) :
    Records order operations g := by
  have added : ∀ site, g.callees site =
      (((operations.filterMap Operation.edge?).filter fun e => e.site = site).map (·.callee)).eraseDups := by
    intro site
    rw [CallGraph.callees, made.edges, callees_firstsOn]
  constructor
  case calls =>
    rw [made.edges]
    exact nodup_map_firstsOn _
  case mem_edges =>
    intro e
    rw [← Array.mem_toList_iff, made.edges, mem_firstsOn_iff]
  case edges => exact made.edges
  case connect =>
    intro e
    have known : g.hasEdge e.site e.callee = true ↔ e.call ∈ _ := made.hasEdge_iff
    rw [← known]
    unfold CallGraph.connect
    split
    · rename_i old
      exact ⟨iff_of_false Bool.false_ne_true (not_not_intro old), fun _ => rfl⟩
    · rename_i new
      exact ⟨iff_of_true rfl new, fun impossible => by cases impossible⟩
  case mem_callees => exact fun site m => CallGraph.mem_callees
  case callees => exact fun site => ⟨added site ▸ nodup_eraseDups _, added site⟩
  case mem_sitesIn =>
    intro caller site
    rw [CallGraph.sitesIn, mem_sortOn, List.mem_eraseDups]
    simp [and_assoc]
  case sitesIn => exact fun caller => ascending_sortOn injective (nodup_eraseDups _)
  case reachable => exact ⟨made.reachable ▸ nodup_eraseDups _, made.reachable⟩
  case isReachable => exact fun m => CallGraph.isReachable_iff
  case reach =>
    intro m
    rw [← made.isReachable_iff]
    unfold CallGraph.reach
    split
    · rename_i old
      exact ⟨iff_of_false Bool.false_ne_true (not_not_intro old), fun _ => rfl⟩
    · rename_i new
      exact ⟨iff_of_true rfl new, fun impossible => by cases impossible⟩
  case keptReachable => exact ⟨fun m => (addEntry_parts g m).1, fun e => (connect_spec g e).1⟩

/-! ## Indexes -/

end CallGraph

namespace IndexedCallGraph

variable {S M : Type} [DecidableEq S] [DecidableEq M]

/-- The graph after an operation. -/
def apply (x : IndexedCallGraph S M) : CallGraph.Operation S M → IndexedCallGraph S M
  | .enter m => x.addEntry m
  | .reach m => (x.reach m).1
  | .connect e => (x.connect e).1

/-- The graph after operations on an empty one. -/
def after (operations : List (CallGraph.Operation S M)) : IndexedCallGraph S M := operations.foldl apply {}

end IndexedCallGraph

namespace CallGraph

section Indexes

variable {S M : Type} [DecidableEq S] [DecidableEq M]

theorem Follows.apply {x : IndexedCallGraph S M} {g : CallGraph S M} (follows : Follows x g)
    (operation : Operation S M) : Follows (x.apply operation) (g.apply operation) := by
  cases operation with
  | enter m => exact follows.addEntry m
  | reach m => exact (follows.reach m).1
  | connect e => exact (follows.connect e).1

theorem follows_after (operations : List (Operation S M)) :
    Follows (IndexedCallGraph.after operations) (after operations) := by
  induction operations using List.reverseRecOn with
  | nil => exact follows_empty
  | append_singleton operations operation ih =>
      rw [after_concat, IndexedCallGraph.after, List.foldl_append]
      exact ih.apply operation

/-- A graph with indexes gives the answers of one without, and is left as it is where that is. -/
structure AnswersAlike (order : S → List Nat) (x : IndexedCallGraph S M) (g : CallGraph S M) : Prop where
  entries : x.entries = g.entries
  edges : x.callEdges = g.edges.toList
  callees : ∀ site, x.callees site = g.callees site
  sitesIn : ∀ caller, x.sitesIn order caller = g.sitesIn order caller
  connect : ∀ e, (x.connect e).2 = (g.connect e).2 ∧ ((x.connect e).2 = false → (x.connect e).1 = x)
  reachable : x.reachable = g.reachable
  reached : ∀ m, x.reached m = g.isReachable m
  reach : ∀ m, (x.reach m).2 = (g.reach m).2 ∧ ((x.reach m).2 = false → (x.reach m).1 = x)

theorem Follows.answersAlike {order : S → List Nat} (injective : Function.Injective order)
    {x : IndexedCallGraph S M} {g : CallGraph S M} (follows : Follows x g) : AnswersAlike order x g := by
  constructor
  case entries => exact follows.entries
  case edges => exact follows.callEdges
  case callees => exact follows.callees
  case sitesIn => exact follows.sitesIn injective
  case connect =>
    refine fun e => ⟨(follows.connect e).2, ?_⟩
    unfold IndexedCallGraph.connect
    split
    · exact fun _ => rfl
    · exact fun impossible => by cases impossible
  case reachable => exact follows.reachable
  case reached => exact follows.reached
  case reach =>
    refine fun m => ⟨(follows.reach m).2, ?_⟩
    unfold IndexedCallGraph.reach
    split
    · exact fun _ => rfl
    · exact fun impossible => by cases impossible

end Indexes

/-- Whatever operations made a graph, with contexts or without, it has recorded them, and the same graph with indexes
answers like it. -/
theorem records_after :
    (∀ operations : List (Operation CallSite MethodId), Records CallSite.order operations (after operations) ∧
      AnswersAlike CallSite.order (IndexedCallGraph.after operations) (after operations)) ∧
    ∀ operations : List (Operation QualifiedSite QualifiedMethod),
      Records QualifiedSite.order operations (after operations) ∧
        AnswersAlike QualifiedSite.order (IndexedCallGraph.after operations) (after operations) :=
  ⟨fun operations => ⟨(made_after operations).records CallSite.order_injective,
      (follows_after operations).answersAlike CallSite.order_injective⟩,
    fun operations => ⟨(made_after operations).records QualifiedSite.order_injective,
      (follows_after operations).answersAlike QualifiedSite.order_injective⟩⟩

/-- A method that calls itself at a later site first, and that site again with another caller and kind. -/
example :
    let g : PlainCallGraph := after [.reach 0, .connect ⟨⟨0, 2⟩, .static, 0, 0⟩, .connect ⟨⟨0, 1⟩, .virtual, 0, 3⟩,
      .connect ⟨⟨0, 2⟩, .special, 5, 0⟩, .connect ⟨⟨0, 2⟩, .static, 0, 4⟩]
    g.callees ⟨0, 2⟩ = [0, 4] ∧ g.sitesIn CallSite.order 0 = [⟨0, 1⟩, ⟨0, 2⟩] ∧ g.sitesIn CallSite.order 5 = [] ∧
      g.edges.size = 3 ∧ g.reachable = #[0] := by
  decide +kernel

end CallGraph

end PointsTo
