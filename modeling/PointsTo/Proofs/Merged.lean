/- # Merged -- what results say when contexts are dropped

The merged answers of a result are read off its recorded facts: a method is reachable when it is so in some
context, a call site calls a method when it does in some contexts, and a merged set has the objects that some
pointer of the kind holds in some heap context (`mem_merged_iff`).

The numbers of objects differ between results, so objects of two results are compared by what they stand for:
an object `Matches` another when that one stands for its origin, renamed.  A result is `Within` another when
every merged answer of the first is, object by object, an answer of the second.

Main statement: `Carries.within`, a renaming that carries what is recorded in one result to what is recorded
in another puts the first within the second. -/
import PointsTo.Proofs.Morphisms
import PointsTo.Result

set_option autoImplicit false

namespace PointsTo.Result

open State (Recorded)

/-! ## Two results -/

/-- An object stands for the allocation site, or the type and class, that it was made for. -/
def StandsFor (r : Result) (o : ObjectId) (origin : Origin) : Prop :=
  ∃ object, r.state.heap.object? o = some object ∧ object.origin r.setting.heapModel = origin

/-- The second object stands for what the first stands for, renamed. -/
def Matches (rename : Origin → Origin) (fine coarse : Result) (o o' : ObjectId) : Prop :=
  ∃ origin, fine.StandsFor o origin ∧ coarse.StandsFor o' (rename origin)

/-- Every merged answer of the first result has a matching answer of the second. -/
structure Within (rename : Origin → Origin) (fine coarse : Result) : Prop where
  methods : ∀ m, fine.isReachable m = true → coarse.isReachable m = true
  calls : ∀ site m, fine.plainCalls.hasEdge site m = true → coarse.plainCalls.hasEdge site m = true
  pointsTo : ∀ v, ∀ o ∈ fine.pointsTo v, ∃ o' ∈ coarse.pointsTo v, Matches rename fine coarse o o'
  staticPointsTo : ∀ x, ∀ o ∈ fine.staticPointsTo x,
    ∃ o' ∈ coarse.staticPointsTo x, Matches rename fine coarse o o'
  fieldPointsTo : ∀ base x, ∀ o ∈ fine.fieldPointsTo base x,
    ∃ base', Matches rename fine coarse base base' ∧
      ∃ o' ∈ coarse.fieldPointsTo base' x, Matches rename fine coarse o o'
  arrayPointsTo : ∀ base, ∀ o ∈ fine.arrayPointsTo base,
    ∃ base', Matches rename fine coarse base base' ∧
      ∃ o' ∈ coarse.arrayPointsTo base', Matches rename fine coarse o o'

/-- Renaming contexts and objects carries what is recorded in the first result to what is recorded in the
second. -/
def Carries (f : ContextOf Origin → ContextOf Origin) (g : QualifiedOrigin → QualifiedOrigin)
    (fine coarse : Result) : Prop :=
  ∀ fact, Recorded fine.setting fine.state fact → Recorded coarse.setting coarse.state (fact.map f g)

/-- Pointers of one kind that differ in contexts, and in objects that match without theirs. -/
inductive Alike (rename : Origin → Origin) (fine coarse : Result) : Pointer → Pointer → Prop
  | var (c c' : ContextId) (v : VarId) : Alike rename fine coarse (.var c v) (.var c' v)
  | static (x : FieldId) : Alike rename fine coarse (.static x) (.static x)
  | field {b b' : QualifiedObjectId} {base base' : ObjectId} (x : FieldId)
      (under : fine.underlying? b = some base) (under' : coarse.underlying? b' = some base')
      (matched : Matches rename fine coarse base base') :
      Alike rename fine coarse (.field b x) (.field b' x)
  | array {b b' : QualifiedObjectId} {base base' : ObjectId}
      (under : fine.underlying? b = some base) (under' : coarse.underlying? b' = some base')
      (matched : Matches rename fine coarse base base') :
      Alike rename fine coarse (.array b) (.array b')

/-! ## Answers as facts -/

theorem isReachable_iff {r : Result} {m : MethodId} :
    r.isReachable m = true ↔ ∃ c, r.state.Present (.reach c m) := by
  unfold isReachable plainCalls ContextCallGraph.project
  rw [CallGraph.isReachable_rename]
  constructor
  · rintro ⟨⟨c, m⟩, marked, rfl⟩
    exact ⟨c, marked⟩
  · rintro ⟨c, marked⟩
    exact ⟨⟨c, m⟩, marked, rfl⟩

theorem hasEdge_plainCalls_iff {r : Result} {site : CallSite} {m : MethodId} :
    r.plainCalls.hasEdge site m = true ↔ ∃ c d, r.state.Present (.call c site d m) := by
  unfold plainCalls ContextCallGraph.project
  rw [CallGraph.hasEdge_rename]
  constructor
  · rintro ⟨⟨⟨c, site⟩, kind, caller, ⟨d, m⟩⟩, edge, rfl, rfl⟩
    exact ⟨c, d, _, edge, rfl, rfl⟩
  · rintro ⟨c, d, e, edge, here, called⟩
    refine ⟨e, edge, ?_, ?_⟩
    · rw [here]
    · rw [called]

theorem mem_nodes_iff {r : Result} {p : Pointer} {id : NodeId} :
    (p, id) ∈ r.nodes ↔ r.state.network.graph.pointer? id = some p := by
  rw [nodes, List.mem_zipIdx_iff_getElem?, FlowGraph.pointer?, Table.key?_eq_getElem?]

/-- A merged set has the objects that pointers of the kind hold, without their heap contexts. -/
theorem mem_merged_iff {r : Result} (distinct : r.state.network.graph.nodes.toList.Nodup)
    {wanted : Pointer → Bool} {o : ObjectId} :
    o ∈ r.merged wanted ↔
      ∃ p q, wanted p = true ∧ r.state.Present (.holds p q) ∧ r.underlying? q = some o := by
  have held (p : Pointer) (q : QualifiedObjectId) : r.state.Present (.holds p q) ↔
      ∃ id, r.state.network.graph.pointer? id = some p ∧ q ∈ r.state.network.points.points id :=
    State.mem_points_iff distinct
  rw [merged, mem_ascending, List.mem_flatMap]
  constructor
  · rintro ⟨⟨p, id⟩, node, member⟩
    by_cases kind : wanted p = true
    · simp only [kind, if_true, underlying, List.mem_filterMap, ObjectSet.mem_toList] at member
      obtain ⟨q, inSet, without⟩ := member
      exact ⟨p, q, kind, (held p q).mpr ⟨id, mem_nodes_iff.mp node, inSet⟩, without⟩
    · simp [kind] at member
  · rintro ⟨p, q, kind, holds, without⟩
    obtain ⟨id, pointer, inSet⟩ := (held p q).mp holds
    refine ⟨(p, id), mem_nodes_iff.mpr pointer, ?_⟩
    simp only [kind, if_true, underlying, List.mem_filterMap, ObjectSet.mem_toList]
    exact ⟨q, inSet, without⟩

/-! ## Answers carried from one result to another -/

section Carried

variable {fine coarse : Result} {f : ContextOf Origin → ContextOf Origin}
  {g : QualifiedOrigin → QualifiedOrigin} {rename : Origin → Origin} (carries : Carries f g fine coarse)
include carries

theorem Carries.isReachable {m : MethodId} (reachable : fine.isReachable m = true) :
    coarse.isReachable m = true := by
  obtain ⟨c, present⟩ := isReachable_iff.mp reachable
  obtain ⟨numbered, known, same⟩ := carries _ ⟨_, present, rfl⟩
  cases numbered with
  | reach d m' =>
      simp only [State.read, Fact.map, Fact.reach.injEq] at same
      exact isReachable_iff.mpr ⟨d, same.2 ▸ known⟩
  | _ => cases same

theorem Carries.hasEdge {site : CallSite} {m : MethodId}
    (edge : fine.plainCalls.hasEdge site m = true) : coarse.plainCalls.hasEdge site m = true := by
  obtain ⟨c, d, present⟩ := hasEdge_plainCalls_iff.mp edge
  obtain ⟨numbered, known, same⟩ := carries _ ⟨_, present, rfl⟩
  cases numbered with
  | call c' site' d' m' =>
      simp only [State.read, Fact.map, Fact.call.injEq] at same
      obtain ⟨-, rfl, -, rfl⟩ := same
      exact hasEdge_plainCalls_iff.mpr ⟨c', d', known⟩
  | _ => cases same

variable (fineValid : fine.state.Valid fine.setting) (coarseValid : coarse.state.Valid coarse.setting)
  (origins : ∀ o, (g o).origin = rename o.origin)
include fineValid coarseValid origins

omit carries in
/-- Objects of which one is carried to the other match without their heap contexts. -/
theorem exists_matches {q q' : QualifiedObjectId} (inUse : q < fine.state.objects.size)
    (alsoInUse : q' < coarse.state.objects.size)
    (same : coarse.state.readObject coarse.setting q' = g (fine.state.readObject fine.setting q)) :
    ∃ o o', fine.underlying? q = some o ∧ coarse.underlying? q' = some o' ∧
      Matches rename fine coarse o o' := by
  obtain ⟨held, key⟩ := Table.exists_key?_of_lt inUse
  obtain ⟨held', key'⟩ := Table.exists_key?_of_lt alsoInUse
  obtain ⟨object, made⟩ := Heap.exists_object?_of_lt (fineValid.parts (Table.mem_of_key? key)).2
  obtain ⟨object', made'⟩ := Heap.exists_object?_of_lt (coarseValid.parts (Table.mem_of_key? key')).2
  have renamed : object'.origin coarse.setting.heapModel = rename (object.origin fine.setting.heapModel) := by
    calc object'.origin coarse.setting.heapModel
        = (coarse.state.readObject coarse.setting q').origin := by
          rw [State.readObject_of_key? key', State.readOrigin_of_object? made']
      _ = rename (fine.state.readObject fine.setting q).origin := by rw [same, origins]
      _ = rename (object.origin fine.setting.heapModel) := by
          rw [State.readObject_of_key? key, State.readOrigin_of_object? made]
  refine ⟨held.object, held'.object, ?_, ?_, _, ⟨object, made, rfl⟩, object', made', renamed⟩
  · rw [underlying?, key, Option.map_some]
  · rw [underlying?, key', Option.map_some]

omit carries in
/-- Pointers of which one is carried to the other are alike. -/
theorem alike_of_map {p p' : Pointer}
    (inUse : p.Below fine.state.contexts.size fine.state.objects.size)
    (alsoInUse : p'.Below coarse.state.contexts.size coarse.state.objects.size)
    (same : p'.map (coarse.state.readContext coarse.setting) (coarse.state.readObject coarse.setting) =
      (p.map (fine.state.readContext fine.setting) (fine.state.readObject fine.setting)).map f g) :
    Alike rename fine coarse p p' := by
  cases p <;> cases p' <;> simp only [PointerOf.map, PointerOf.var.injEq, PointerOf.static.injEq,
    PointerOf.field.injEq, PointerOf.array.injEq, reduceCtorEq] at same
  · rw [same.2]
    exact .var _ _ _
  · rw [same]
    exact .static _
  · obtain ⟨base, base', under, under', matched⟩ :=
      exists_matches fineValid coarseValid origins inUse alsoInUse same.1
    rw [same.2]
    exact .field _ under under' matched
  · obtain ⟨base, base', under, under', matched⟩ :=
      exists_matches fineValid coarseValid origins inUse alsoInUse same
    exact .array under under' matched

/-- An object of a merged set has a match that a pointer alike holds. -/
theorem Carries.exists_alike {wanted : Pointer → Bool} {o : ObjectId} (member : o ∈ fine.merged wanted) :
    ∃ p p' q' o', wanted p = true ∧ Alike rename fine coarse p p' ∧
      coarse.state.Present (.holds p' q') ∧ coarse.underlying? q' = some o' ∧
      Matches rename fine coarse o o' := by
  obtain ⟨p, q, kind, holds, without⟩ := (mem_merged_iff fineValid.nodes).mp member
  obtain ⟨numbered, known, same⟩ := carries _ ⟨_, holds, rfl⟩
  cases numbered with
  | holds p' q' =>
      simp only [State.read, Fact.map, Fact.holds.injEq] at same
      have inUse := fineValid.facts (fineValid.expected_of_present holds)
      have alsoInUse := coarseValid.facts (coarseValid.expected_of_present known)
      have alike := alike_of_map fineValid coarseValid origins inUse.1 alsoInUse.1 same.1
      obtain ⟨x, o', withoutX, without', matched⟩ :=
        exists_matches fineValid coarseValid origins inUse.2 alsoInUse.2 same.2
      cases Option.some.inj (withoutX.symm.trans without)
      exact ⟨p, p', q', o', kind, alike, known, without', matched⟩
  | _ => cases same

/-- A result that is carried to another is within it. -/
theorem Carries.within : Within rename fine coarse := by
  have answered {wanted : Pointer → Bool} (p : Pointer) {q : QualifiedObjectId} {o : ObjectId}
      (kind : wanted p = true) (holds : coarse.state.Present (.holds p q))
      (without : coarse.underlying? q = some o) : o ∈ coarse.merged wanted :=
    (mem_merged_iff coarseValid.nodes).mpr ⟨p, q, kind, holds, without⟩
  have alike {wanted : Pointer → Bool} {o : ObjectId} (member : o ∈ fine.merged wanted) :=
    carries.exists_alike fineValid coarseValid origins member
  refine ⟨fun m => carries.isReachable, fun site m => carries.hasEdge, ?_, ?_, ?_, ?_⟩
  · intro v o member
    obtain ⟨p, p', q', o', kind, alike, holds, without, matched⟩ := alike member
    cases alike with
    | var c c' w => exact ⟨o', answered (.var c' w) kind holds without, matched⟩
    | _ => cases kind
  · intro x o member
    obtain ⟨p, p', q', o', kind, alike, holds, without, matched⟩ := alike member
    cases alike with
    | static y => exact ⟨o', answered (.static y) kind holds without, matched⟩
    | _ => cases kind
  · intro base x o member
    obtain ⟨p, p', q', o', kind, alike, holds, without, matched⟩ := alike member
    cases alike with
    | @field b b' i base' y under under' matchedBase =>
        simp only [Bool.and_eq_true, decide_eq_true_eq, under, Option.some.injEq] at kind
        obtain ⟨rfl, rfl⟩ := kind
        exact ⟨base', matchedBase, o', answered _ (by simp [under']) holds without, matched⟩
    | _ => cases kind
  · intro base o member
    obtain ⟨p, p', q', o', kind, alike, holds, without, matched⟩ := alike member
    cases alike with
    | @array b b' i base' under under' matchedBase =>
        simp only [decide_eq_true_eq, under, Option.some.injEq] at kind
        subst kind
        exact ⟨base', matchedBase, o', answered _ (by simp [under']) holds without, matched⟩
    | _ => cases kind

end Carried

/-! ## Two analyses of one program -/

section Analyses

variable {fine coarse : Setting} {f : ContextOf Origin → ContextOf Origin}
  {g : QualifiedOrigin → QualifiedOrigin} (morphism : fine.domain.Morphism coarse.domain f g)
  (program : coarse.program = fine.program) (entry : coarse.entry = fine.entry)
  (wellFormed : fine.program.WellFormed)
include morphism program entry wellFormed

theorem carries_of_morphism : Carries f g fine.analyse coarse.analyse := by
  intro fact recorded
  exact State.recorded_map program entry wellFormed morphism recorded

/-- A morphism of the readings that renames origins puts the first analysis within the second. -/
theorem within_of_morphism {rename : Origin → Origin} (origins : ∀ o, (g o).origin = rename o.origin) :
    Within rename fine.analyse coarse.analyse := by
  have carries := carries_of_morphism morphism program entry wellFormed
  have coarseWellFormed : coarse.program.WellFormed := program ▸ wellFormed
  have fineValid := ((State.reached_run wellFormed).1.consistent wellFormed).toValid
  have coarseValid := ((State.reached_run coarseWellFormed).1.consistent coarseWellFormed).toValid
  exact carries.within fineValid coarseValid origins

end Analyses

end PointsTo.Result
