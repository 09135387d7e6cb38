/- # Projection -- merging contexts loses nothing and repeats nothing

The merged graph is built edge by edge from the graph with contexts; edges that differ in contexts only become
one, and since a call site has one kind and one method they agree in all else (`State.Discovered.merge`).  A
merged set is the union over the pointers that it merges: variables in all their contexts, fields and arrays
in all heap contexts of their object.  No object is lost on the way, since every number in a set has an object
(`Result.Exact`).

Main statement: `exact_merging`. -/
import PointsTo.Proofs.Depths
import PointsTo.Proofs.Discovery
import PointsTo.Proofs.Monotonicity

set_option autoImplicit false

namespace PointsTo

/-! ## Call graphs -/

namespace CallGraph

variable {S M T N : Type}

section Callees

variable [DecidableEq S] {g : CallGraph S M}

/-- A call site of a simple graph has no callee twice. -/
theorem Simple.nodup_callees (simple : g.Simple) (site : S) : (g.callees site).Nodup := by
  have part : ((g.edges.toList.filter fun e => e.site = site).map fun e => (e.site, e.callee)).Nodup :=
    simple.edges.sublist (List.filter_sublist.map _)
  have paired : (g.edges.toList.filter fun e => e.site = site).map (fun e => (e.site, e.callee)) =
      (g.callees site).map fun m => (site, m) := by
    rw [callees, List.map_map]
    refine List.map_congr_left fun e member => ?_
    have here : e.site = site := of_decide_eq_true (List.mem_filter.mp member).2
    simp [here]
  exact List.Nodup.of_map _ (paired ▸ part)

end Callees

/-- A renamed graph has nothing twice, also where the graph has several names for it. -/
theorem simple_rename [DecidableEq T] [DecidableEq N] (site : S → T) (method : M → N) (g : CallGraph S M) :
    (g.rename site method).Simple := by
  have reached (methods : List M) {h : CallGraph T N} (simple : h.Simple) :
      (methods.foldl (fun h m => (h.reach (method m)).1) h).Simple := by
    induction methods generalizing h with
    | nil => exact simple
    | cons m rest ih => exact ih (simple_reach simple (method m))
  have connected (edges : List (CallEdge S M)) {h : CallGraph T N} (simple : h.Simple) :
      (edges.foldl (fun h e => (h.connect (e.rename site method)).1) h).Simple := by
    induction edges generalizing h with
    | nil => exact simple
    | cons e rest ih => exact ih (simple_connect simple (e.rename site method))
  obtain ⟨reachable, edges⟩ := foldl_addEntry_parts method g.entries.toList (empty : CallGraph T N)
  refine connected _ (reached _ ⟨?_, ?_⟩)
  · rw [edges]
    exact List.nodup_nil
  · rw [reachable]
    exact List.nodup_nil

end CallGraph

/-- Recorded calls of one site to one method are the same without contexts. -/
theorem State.Discovered.merge {setting : Setting} {s : State} (discovered : s.Discovered setting)
    {e e' : CallEdge QualifiedSite QualifiedMethod} (edge : e ∈ s.calls.edges) (edge' : e' ∈ s.calls.edges)
    (site : e.site.site = e'.site.site) (callee : e.callee.method = e'.callee.method) :
    e.rename (·.site) (·.method) = e'.rename (·.site) (·.method) := by
  obtain ⟨-, -, place, call, here, kind⟩ := discovered.made edge
  obtain ⟨-, -, place', call', here', kind'⟩ := discovered.made edge'
  have caller : e.caller.method = e'.caller.method := by
    rw [← place, ← place', QualifiedSite.caller, QualifiedSite.caller, site]
  have sameKind : e.kind = e'.kind := by
    rw [site, here', Option.some.injEq] at here
    rw [← kind, ← kind', here]
  simp only [CallEdge.rename, site, sameKind, caller, callee]

/-! ## Answers -/

namespace Result

variable {r : Result}

/-- A variable has an object in a context. -/
def HasIn (r : Result) (c : ContextId) (v : VarId) (q : QualifiedObjectId) : Prop :=
  ∃ set, r.pointsToIn? c v = some set ∧ q ∈ set

theorem hasIn_iff {c : ContextId} {v : VarId} {q : QualifiedObjectId} :
    r.HasIn c v q ↔ q ∈ r.state.points (.var c v) := by
  unfold HasIn pointsToIn? State.points
  cases r.state.network.graph.node? (.var c v) with
  | none => simp
  | some id =>
      simp only [Option.bind_eq_bind, Option.bind_some, PointsMap.points]
      cases r.state.network.points.get? id <;> simp

/-- The merged answers are what there is with contexts, each once. -/
structure Exact (r : Result) : Prop where
  /-- A method is reachable when it is in some context. -/
  reachable : ∀ m, r.isReachable m = true ↔ ∃ c, ⟨c, m⟩ ∈ r.state.calls.reachable
  /-- The callees of a site are in ascending order; sorting the merged ones took none away. -/
  ordered : ∀ site, Ascends (r.calleesOf site) ∧ (r.calleesOf site).Perm (r.plainCalls.callees site)
  callees : ∀ site m, m ∈ r.calleesOf site ↔
    ∃ c, ∃ callee ∈ r.state.calls.callees ⟨c, site⟩, callee.method = m
  /-- No site has an edge to a method twice. -/
  once : r.plainCalls.Simple
  edges : ∀ e, e ∈ r.plainCalls.edges ↔ ∃ e' ∈ r.state.calls.edges, e'.rename (·.site) (·.method) = e
  kinds : ∀ e ∈ r.plainCalls.edges, e.caller = e.site.method ∧
    ∃ call, r.setting.program.callAt? e.site = some call ∧ call.kind = e.kind
  /-- Every number in a set has an object, and every base whose field or elements have objects. -/
  whole : ∀ p, ∀ q ∈ r.state.points p, (r.underlying? q).isSome = true ∧
    ∀ b f, p = .field b f ∨ p = .array b → (r.underlying? b).isSome = true
  pointsTo : ∀ v, Ascends (r.pointsTo v) ∧
    ∀ o, o ∈ r.pointsTo v ↔ ∃ c q, r.HasIn c v q ∧ r.underlying? q = some o
  fieldPointsTo : ∀ base f, Ascends (r.fieldPointsTo base f) ∧
    ∀ o, o ∈ r.fieldPointsTo base f ↔ ∃ b q, r.underlying? b = some base ∧
      q ∈ r.state.points (.field b f) ∧ r.underlying? q = some o
  arrayPointsTo : ∀ base, Ascends (r.arrayPointsTo base) ∧
    ∀ o, o ∈ r.arrayPointsTo base ↔ ∃ b q, r.underlying? b = some base ∧
      q ∈ r.state.points (.array b) ∧ r.underlying? q = some o
  mayAlias : ∀ v w, r.mayAlias v w = true ↔ ∃ o c q d q', r.HasIn c v q ∧ r.HasIn d w q' ∧
    r.underlying? q = some o ∧ r.underlying? q' = some o

/-! ## Calls -/

theorem ordered_calleesOf (simple : r.plainCalls.Simple) (site : CallSite) :
    Ascends (r.calleesOf site) ∧ (r.calleesOf site).Perm (r.plainCalls.callees site) :=
  ⟨pairwise_ascending _, perm_ascending (simple.nodup_callees site)⟩

theorem mem_calleesOf {site : CallSite} {m : MethodId} : m ∈ r.calleesOf site ↔
    ∃ c, ∃ callee ∈ r.state.calls.callees ⟨c, site⟩, callee.method = m := by
  rw [calleesOf, mem_ascending, CallGraph.mem_callees, ← CallGraph.hasEdge_iff, hasEdge_plainCalls_iff]
  constructor
  · rintro ⟨c, d, called⟩
    exact ⟨c, ⟨d, m⟩, CallGraph.mem_callees.mpr called, rfl⟩
  · rintro ⟨c, ⟨d, m⟩, called, rfl⟩
    exact ⟨c, d, CallGraph.mem_callees.mp called⟩

theorem mem_edges_plainCalls (discovered : r.state.Discovered r.setting) {e : CallEdge CallSite MethodId} :
    e ∈ r.plainCalls.edges ↔ ∃ e' ∈ r.state.calls.edges, e'.rename (·.site) (·.method) = e := by
  refine ⟨fun edge => ContextCallGraph.exists_of_mem_project edge, ?_⟩
  rintro ⟨e', edge, rfl⟩
  -- The ends are connected, by the edge of some context; it agrees with the edge of this one.
  have connected : r.plainCalls.hasEdge e'.site.site e'.callee.method = true :=
    hasEdge_plainCalls_iff.mpr ⟨e'.site.context, e'.callee.context, e', edge, rfl, rfl⟩
  obtain ⟨merged, there, site, callee⟩ := CallGraph.hasEdge_iff.mp connected
  obtain ⟨other, edge', rfl⟩ := ContextCallGraph.exists_of_mem_project there
  rw [discovered.merge edge edge' site.symm callee.symm]
  exact there

theorem kind_of_mem_plainCalls (discovered : r.state.Discovered r.setting)
    {e : CallEdge CallSite MethodId} (edge : e ∈ r.plainCalls.edges) : e.caller = e.site.method ∧
      ∃ call, r.setting.program.callAt? e.site = some call ∧ call.kind = e.kind := by
  obtain ⟨original, there, rfl⟩ := ContextCallGraph.exists_of_mem_project edge
  obtain ⟨-, -, place, statement⟩ := discovered.made there
  refine ⟨?_, statement⟩
  show original.caller.method = original.site.site.method
  rw [← place]
  rfl

/-! ## Sets -/

theorem isSome_underlying? {q : QualifiedObjectId} (inUse : q < r.state.objects.size) :
    (r.underlying? q).isSome = true := by
  obtain ⟨held, read⟩ := Table.exists_key?_of_lt inUse
  simp [underlying?, read]

section Sets

variable (valid : r.state.Valid r.setting)
include valid

theorem isSome_underlying?_of_mem_points {p : Pointer} {q : QualifiedObjectId} (held : q ∈ r.state.points p) :
    (r.underlying? q).isSome = true ∧
      ∀ b f, p = .field b f ∨ p = .array b → (r.underlying? b).isSome = true := by
  have present : r.state.Present (.holds p q) := held
  have below := valid.facts (valid.expected_of_present present)
  refine ⟨isSome_underlying? below.2, fun b f part => isSome_underlying? ?_⟩
  rcases part with rfl | rfl
  · exact below.1
  · exact below.1

theorem mem_pointsTo {v : VarId} {o : ObjectId} :
    o ∈ r.pointsTo v ↔ ∃ c q, r.HasIn c v q ∧ r.underlying? q = some o := by
  rw [pointsTo, mem_merged_iff valid.nodes]
  constructor
  · rintro ⟨p, q, wanted, held, without⟩
    cases p with
    | var c w =>
        cases of_decide_eq_true wanted
        exact ⟨c, q, hasIn_iff.mpr held, without⟩
    | _ => cases wanted
  · rintro ⟨c, q, held, without⟩
    exact ⟨.var c v, q, decide_eq_true rfl, hasIn_iff.mp held, without⟩

theorem mem_fieldPointsTo {base : ObjectId} {f : FieldId} {o : ObjectId} :
    o ∈ r.fieldPointsTo base f ↔ ∃ b q, r.underlying? b = some base ∧ q ∈ r.state.points (.field b f) ∧
      r.underlying? q = some o := by
  rw [fieldPointsTo, mem_merged_iff valid.nodes]
  constructor
  · rintro ⟨p, q, wanted, held, without⟩
    cases p with
    | field b g =>
        simp only [Bool.and_eq_true, decide_eq_true_eq] at wanted
        obtain ⟨rfl, under⟩ := wanted
        exact ⟨b, q, under, held, without⟩
    | _ => cases wanted
  · rintro ⟨b, q, under, held, without⟩
    exact ⟨.field b f, q, by simp [under], held, without⟩

theorem mem_arrayPointsTo {base o : ObjectId} :
    o ∈ r.arrayPointsTo base ↔ ∃ b q, r.underlying? b = some base ∧ q ∈ r.state.points (.array b) ∧
      r.underlying? q = some o := by
  rw [arrayPointsTo, mem_merged_iff valid.nodes]
  constructor
  · rintro ⟨p, q, wanted, held, without⟩
    cases p with
    | array b => exact ⟨b, q, of_decide_eq_true wanted, held, without⟩
    | _ => cases wanted
  · rintro ⟨b, q, under, held, without⟩
    exact ⟨.array b, q, decide_eq_true under, held, without⟩

theorem mayAlias_iff {v w : VarId} :
    r.mayAlias v w = true ↔ ∃ o c q d q', r.HasIn c v q ∧ r.HasIn d w q' ∧
      r.underlying? q = some o ∧ r.underlying? q' = some o := by
  simp only [mayAlias, List.any_eq_true, List.contains_iff_mem, mem_pointsTo valid]
  constructor
  · rintro ⟨o, ⟨c, q, held, without⟩, d, q', held', without'⟩
    exact ⟨o, c, q, d, q', held, held', without, without'⟩
  · rintro ⟨o, c, q, d, q', held, held', without, without'⟩
    exact ⟨o, ⟨c, q, held, without⟩, d, q', held', without'⟩

end Sets

/-- In every state of a run, and so at its end, merging contexts is exact. -/
theorem exact_merging {setting : Setting} (loaded : setting.program.Loaded) {s : State}
    (run : State.Reached setting s) : (⟨setting, s⟩ : Result).Exact := by
  have valid := (run.consistent loaded.wellFormed).toValid
  have discovered := run.discovered loaded.wellFormed
  have once : (⟨setting, s⟩ : Result).plainCalls.Simple := CallGraph.simple_rename _ _ _
  exact {
    reachable := fun m => isReachable_iff
    ordered := fun site => ordered_calleesOf once site
    callees := fun site m => mem_calleesOf
    once := once
    edges := fun e => mem_edges_plainCalls discovered
    kinds := fun e edge => kind_of_mem_plainCalls discovered edge
    whole := fun p q held => isSome_underlying?_of_mem_points valid held
    pointsTo := fun v => ⟨pairwise_ascending _, fun o => mem_pointsTo valid⟩
    fieldPointsTo := fun base f => ⟨pairwise_ascending _, fun o => mem_fieldPointsTo valid⟩
    arrayPointsTo := fun base => ⟨pairwise_ascending _, fun o => mem_arrayPointsTo valid⟩
    mayAlias := fun v w => mayAlias_iff valid }

open State (nested) in
/-- The nodes that a node makes are told apart by their heap contexts, in three contexts of one method; merged
they are one object, and the four calls are two. -/
theorem exact_merging_nest :
    nested.analyse.Exact ∧
    nested.analyse.state.calls.edges.size = 4 ∧ nested.analyse.plainCalls.edges.size = 2 ∧
    nested.analyse.calleesOf ⟨1, 1⟩ = [1] ∧
    [1, 2, 4].map (fun c => (nested.analyse.state.points (.var c 2)).toList) = [[1], [2], [2]] ∧
    nested.analyse.pointsTo 2 = [1] ∧ nested.analyse.mayAlias 1 2 = true ∧
    nested.analyse.mayAlias 0 2 = false := by
  have loaded : nested.program.Loaded := ⟨Description.nest, by decide +kernel⟩
  exact ⟨exact_merging loaded (State.reached_run loaded.wellFormed).1, by decide +kernel, by decide +kernel,
    by decide +kernel, by decide +kernel, by decide +kernel, by decide +kernel, by decide +kernel⟩

end Result

end PointsTo
