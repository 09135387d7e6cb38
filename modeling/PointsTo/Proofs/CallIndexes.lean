/- # CallIndexes -- call graphs with numbered nodes and indexes

A call graph can be kept as nodes with an index of the methods, edges between the numbers of nodes, the positions of
the edges of every call site, and the reachable methods both as a list and as a set.  Every query reads another one
of these parts; they stay in step with a call graph that has its edges only (`Follows`), whatever is added.

Main statements: `Follows.reach` and `Follows.connect`, with the same answers, and for the queries `Follows.callees`,
`Follows.sitesIn` and `Follows.callEdges`. -/
import Mathlib.Data.List.Destutter
import Mathlib.Data.List.Perm.Lattice
import PointsTo.Proofs.CallGraphs
import PointsTo.Proofs.Interning

set_option autoImplicit false

namespace PointsTo

/-! ## Ordered lists -/

section Ordered

/-- Keys of which neither comes before the other are equal. -/
theorem keyBefore_antisymm {a b : List Nat} (first : keyBefore b a = false) (second : keyBefore a b = false) :
    a = b := by
  induction a generalizing b with
  | nil =>
      cases b with
      | nil => rfl
      | cons y bs => cases second
  | cons x as ih =>
      cases b with
      | nil => cases first
      | cons y bs => grind [keyBefore]

variable {S : Type} {order : S → List Nat} (injective : Function.Injective order)
include injective

/-- Sorting the different elements, and sorting all before equal neighbours are made one, come to the same. -/
theorem destutter_sortOn [DecidableEq S] (xs : List S) :
    (sortOn order xs).destutter (· ≠ ·) = sortOn order xs.eraseDups := by
  have antisymm : ∀ a b : S,
      keyBefore (order b) (order a) = false → keyBefore (order a) (order b) = false → a = b :=
    fun a b first second => injective (keyBefore_antisymm first second)
  have : Std.Antisymm fun a b : S => keyBefore (order b) (order a) = false := ⟨antisymm⟩
  have ordered := pairwise_sortOn order xs
  refine List.Perm.eq_of_pairwise (fun a b _ _ => antisymm a b)
    (ordered.sublist (List.destutter_sublist _ _)) (pairwise_sortOn order _) ?_
  rw [ordered.destutter_eq_dedup]
  have distinct : (sortOn order xs.eraseDups).Nodup := (perm_sortOn order _).nodup_iff.mpr (nodup_eraseDups xs)
  refine (List.perm_ext_iff_of_nodup (List.nodup_dedup _) distinct).mpr fun s => ?_
  rw [List.mem_dedup, mem_sortOn, mem_sortOn, List.mem_eraseDups]

/-- Different elements come strictly one after another. -/
theorem ascending_sortOn {xs : List S} (distinct : xs.Nodup) :
    (sortOn order xs).Pairwise fun a b => keyBefore (order a) (order b) = true := by
  have nodup : (sortOn order xs).Nodup := (perm_sortOn order xs).nodup_iff.mpr distinct
  refine ((pairwise_sortOn order xs).and nodup).imp fun {a b} ⟨notAfter, differ⟩ => ?_
  by_contra notBefore
  exact differ (injective (keyBefore_antisymm notAfter (Bool.eq_false_iff.mpr notBefore)))

end Ordered

/-! ## Graphs with indexes -/

/-- A call between nodes, by their numbers. -/
structure NodeEdge (S : Type) where
  site : S
  kind : CallKind
  source : Nat
  target : Nat

/-- A call graph with an index of its nodes, one of the edges of each call site, and one of the reachable methods. -/
structure IndexedCallGraph (S M : Type) where
  entries : Array M := #[]
  reachable : Array M := #[]
  reached : M → Bool := fun _ => false
  nodes : IndexedTable M := {}
  edges : Array (NodeEdge S) := #[]
  /-- The positions of the edges of a call site, in order. -/
  edgesAt : S → List Nat := fun _ => []

namespace IndexedCallGraph

variable {S M : Type} [DecidableEq S] [DecidableEq M]

/-- Marks a method as an entry. -/
def addEntry (x : IndexedCallGraph S M) (m : M) : IndexedCallGraph S M :=
  if m ∈ x.entries then x else { x with entries := x.entries.push m }

/-- Marks a method as reachable; says whether it was new. -/
def reach (x : IndexedCallGraph S M) (m : M) : IndexedCallGraph S M × Bool :=
  if x.reached m then (x, false)
  else
    ({ x with
        nodes := (x.nodes.intern m).1
        reachable := x.reachable.push m
        reached := Function.update x.reached m true }, true)

/-- What a call site calls, read at the targets of its edges. -/
def callees (x : IndexedCallGraph S M) (site : S) : List M :=
  (x.edgesAt site).filterMap fun i => x.edges[i]?.bind fun e => x.nodes.keys[e.target]?

/-- Adds an edge unless its call site already calls its callee; says whether it was new. -/
def connect (x : IndexedCallGraph S M) (e : CallEdge S M) : IndexedCallGraph S M × Bool :=
  if (x.callees e.site).contains e.callee then (x, false)
  else
    let source := x.nodes.intern e.caller
    let target := source.1.intern e.callee
    ({ x with
        nodes := target.1
        edges := x.edges.push ⟨e.site, e.kind, source.2, target.2⟩
        edgesAt := Function.update x.edgesAt e.site (x.edgesAt e.site ++ [x.edges.size]) }, true)

/-- All edges, with their methods. -/
def callEdges (x : IndexedCallGraph S M) : List (CallEdge S M) :=
  x.edges.toList.filterMap fun e =>
    x.nodes.keys[e.source]?.bind fun caller => x.nodes.keys[e.target]?.map fun callee =>
      ⟨e.site, e.kind, caller, callee⟩

/-- The call sites of the edges out of a node, sorted, equal neighbours once. -/
def sitesIn (order : S → List Nat) (x : IndexedCallGraph S M) (caller : M) : List S :=
  match x.nodes.number? caller with
  | none => []
  | some node =>
    (sortOn order ((x.edges.toList.filter fun e => e.source = node).map (·.site))).destutter (· ≠ ·)

end IndexedCallGraph

namespace CallGraph

variable {S M : Type} [DecidableEq M]

/-- The edge between the nodes of its methods. -/
def numbered (nodes : Table M) (e : CallEdge S M) : NodeEdge S :=
  ⟨e.site, e.kind, (nodes.number? e.caller).getD 0, (nodes.number? e.callee).getD 0⟩

/-- The methods of an edge have nodes. -/
structure Known (nodes : Table M) (e : CallEdge S M) : Prop where
  caller : ∃ id, nodes.number? e.caller = some id
  callee : ∃ id, nodes.number? e.callee = some id

variable [DecidableEq S]

/-- The parts of a graph with indexes are those of a graph without. -/
structure Follows (x : IndexedCallGraph S M) (g : CallGraph S M) : Prop where
  entries : x.entries = g.entries
  reachable : x.reachable = g.reachable
  reached : ∀ m, x.reached m = g.isReachable m
  nodes : Table.Indexes x.nodes g.nodes
  distinct : g.nodes.toList.Nodup
  known : ∀ e ∈ g.edges, Known g.nodes e
  edges : x.edges.toList = g.edges.toList.map (numbered g.nodes)
  edgesAt : ∀ site, x.edgesAt site = (g.edges.toList.zipIdx.filter fun e => e.1.site = site).map (·.2)

theorem follows_empty : Follows ({} : IndexedCallGraph S M) {} :=
  ⟨rfl, rfl, fun _ => by simp [isReachable], ⟨rfl, fun _ => rfl⟩, List.nodup_nil, by simp, rfl, fun _ => rfl⟩

omit [DecidableEq S] in
/-- More nodes leave the numbers of an edge as they are. -/
theorem Known.intern {nodes : Table M} {e : CallEdge S M} (known : Known nodes e) (distinct : nodes.toList.Nodup)
    (m : M) : Known (nodes.intern m).1 e ∧ numbered (nodes.intern m).1 e = numbered nodes e := by
  obtain ⟨⟨source, caller⟩, ⟨target, callee⟩⟩ := known
  have caller' := Table.number?_intern_of_some distinct caller m
  have callee' := Table.number?_intern_of_some distinct callee m
  exact ⟨⟨⟨source, caller'⟩, ⟨target, callee'⟩⟩, by simp [numbered, caller, callee, caller', callee']⟩

section Following

variable {x : IndexedCallGraph S M} {g : CallGraph S M} (follows : Follows x g)
include follows

/-! ### Queries -/

/-- The nodes of an edge have its methods. -/
theorem Follows.read {e : CallEdge S M} (edge : e ∈ g.edges) :
    x.nodes.keys[(numbered g.nodes e).source]? = some e.caller ∧
      x.nodes.keys[(numbered g.nodes e).target]? = some e.callee := by
  obtain ⟨⟨source, caller⟩, ⟨target, callee⟩⟩ := follows.known e edge
  rw [follows.nodes.keys]
  simp only [numbered, caller, callee, Option.getD_some]
  exact ⟨Table.key?_of_number? caller, Table.key?_of_number? callee⟩

theorem Follows.callEdges : x.callEdges = g.edges.toList := by
  rw [IndexedCallGraph.callEdges, follows.edges, List.filterMap_map]
  refine (List.filterMap_congr fun e edge => ?_).trans List.filterMap_some
  obtain ⟨caller, callee⟩ := follows.read (Array.mem_toList_iff.mp edge)
  simp only [Function.comp_apply, caller, callee, Option.bind_some, Option.map_some]
  rfl

theorem Follows.callees (site : S) : x.callees site = g.callees site := by
  have part : (g.edges.toList.zipIdx.filter fun e => e.1.site = site).map (·.1) =
      g.edges.toList.filter fun e => e.site = site := by
    conv_rhs => rw [← List.zipIdx_map_fst 0 g.edges.toList, List.filter_map]
    rfl
  rw [IndexedCallGraph.callees, follows.edgesAt, List.filterMap_map, CallGraph.callees, ← part, List.map_map,
    ← List.filterMap_eq_map]
  refine List.filterMap_congr fun pair member => ?_
  obtain ⟨e, i⟩ := pair
  have there : g.edges.toList[i]? = some e := List.mem_zipIdx_iff_getElem?.mp (List.mem_filter.mp member).1
  have here : x.edges[i]? = some (numbered g.nodes e) := by
    rw [← Array.getElem?_toList, follows.edges, List.getElem?_map, there, Option.map_some]
  simp [here, (follows.read (Array.mem_toList_iff.mp (List.mem_of_getElem? there))).2]

/-- The edges out of a node are those with its method. -/
theorem Follows.sitesIn {order : S → List Nat} (injective : Function.Injective order) (caller : M) :
    x.sitesIn order caller = g.sitesIn order caller := by
  rw [IndexedCallGraph.sitesIn, CallGraph.sitesIn, follows.nodes.number?]
  cases found : g.nodes.number? caller with
  | none =>
      have nothing : g.edges.toList.filter (fun e => e.caller = caller) = [] := by
        refine List.filter_eq_nil_iff.mpr fun e edge same => ?_
        obtain ⟨id, numbered⟩ := (follows.known e (Array.mem_toList_iff.mp edge)).caller
        rw [of_decide_eq_true same, found] at numbered
        cases numbered
      rw [nothing]
      rfl
  | some node =>
      simp only
      rw [destutter_sortOn injective, follows.edges, List.filter_map, List.map_map]
      congr 2
      refine congrArg (List.map _) (List.filter_congr fun e edge => ?_)
      obtain ⟨id, numbered⟩ := (follows.known e (Array.mem_toList_iff.mp edge)).caller
      have same : id = node ↔ e.caller = caller := by
        constructor
        · rintro rfl
          exact Option.some.inj ((Table.key?_of_number? numbered).symm.trans (Table.key?_of_number? found))
        · intro equal
          rw [equal, found] at numbered
          exact (Option.some.inj numbered).symm
      simp [CallGraph.numbered, numbered, same]

/-! ### Changes -/

theorem Follows.addEntry (m : M) : Follows (x.addEntry m) (g.addEntry m) := by
  unfold IndexedCallGraph.addEntry CallGraph.addEntry
  rw [follows.entries]
  split
  · exact follows
  · exact { follows with entries := rfl }

/-- A node for a method leaves the edges between the nodes that they have. -/
theorem Follows.intern (m : M) :
    Follows { x with nodes := (x.nodes.intern m).1 } { g with nodes := (g.nodes.intern m).1 } := by
  have kept : ∀ e ∈ g.edges, _ := fun e edge => (follows.known e edge).intern follows.distinct m
  refine { follows with
    nodes := (follows.nodes.intern m).1
    distinct := Table.nodup_intern _ m follows.distinct
    known := fun e edge => (kept e edge).1
    edges := ?_ }
  rw [follows.edges]
  exact List.map_congr_left fun e edge => (kept e (Array.mem_toList_iff.mp edge)).2.symm

theorem Follows.push {e : CallEdge S M} (known : Known g.nodes e) :
    Follows
      { x with
        edges := x.edges.push (numbered g.nodes e)
        edgesAt := Function.update x.edgesAt e.site (x.edgesAt e.site ++ [x.edges.size]) }
      { g with edges := g.edges.push e } := by
  have size : x.edges.size = g.edges.toList.length := by
    simpa using congrArg List.length follows.edges
  refine { follows with known := ?_, edges := ?_, edgesAt := ?_ }
  · intro other edge
    rcases Array.mem_push.mp edge with old | rfl
    · exact follows.known other old
    · exact known
  · simp [follows.edges]
  · intro site
    simp only [Array.toList_push, List.zipIdx_append, List.filter_append, List.map_append, ← follows.edgesAt site]
    by_cases here : e.site = site
    · subst here
      simp [size]
    · simp [here, Function.update_of_ne (Ne.symm here)]

theorem Follows.reach (m : M) : Follows (x.reach m).1 (g.reach m).1 ∧ (x.reach m).2 = (g.reach m).2 := by
  unfold IndexedCallGraph.reach CallGraph.reach
  rw [follows.reached]
  cases marked : g.isReachable m with
  | true => exact ⟨follows, rfl⟩
  | false =>
      refine ⟨{ follows.intern m with reachable := ?_, reached := ?_ }, rfl⟩
      · simp [follows.reachable]
      · intro other
        by_cases same : other = m
        · simp [same, isReachable]
        · simp [follows.reached, isReachable, same]

theorem Follows.connect (e : CallEdge S M) :
    Follows (x.connect e).1 (g.connect e).1 ∧ (x.connect e).2 = (g.connect e).2 := by
  have listed : (x.callees e.site).contains e.callee = g.hasEdge e.site e.callee := by
    rw [follows.callees, Bool.eq_iff_iff, List.contains_iff_mem, mem_callees, hasEdge_iff]
  unfold IndexedCallGraph.connect CallGraph.connect
  rw [listed]
  cases old : g.hasEdge e.site e.callee with
  | true => exact ⟨follows, rfl⟩
  | false =>
      have first := follows.intern e.caller
      have second := first.intern e.callee
      have caller := Table.number?_intern_of_some first.distinct
        (Table.number?_intern_self follows.distinct e.caller) e.callee
      have callee := Table.number?_intern_self first.distinct e.callee
      have added := second.push (e := e) ⟨⟨_, caller⟩, ⟨_, callee⟩⟩
      have source := (follows.nodes.intern e.caller).2
      have target := (first.nodes.intern e.callee).2
      refine ⟨?_, rfl⟩
      simp only [numbered, caller, callee, Option.getD_some] at added
      simpa [source, target] using added

end Following

end CallGraph

end PointsTo
