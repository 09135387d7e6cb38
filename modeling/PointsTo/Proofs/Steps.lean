/- # Steps -- what one step of the solver does

A step takes the oldest piece of work and then runs.  Taking a method marks it as reachable
(`State.takeMethod`); taking objects puts them into the set of their node and sends on what was new
(`State.takeObjects`).  Neither loses a fact, and the second adds only what flows along an edge.

Main statements: `step_cases`, a step takes a piece of work and leaves nothing open that it demands;
`Reached.consistent`, every state of a run is consistent; `Reached.invariant`, what changes and taking work
keep holds all along a run; `Reached.expected_subset`, what a run expects is in every closed set. -/
import PointsTo.Proofs.Effects

set_option autoImplicit false

namespace PointsTo.State

/-- The state that has taken a method and marked it. -/
def takeMethod (s : State) (m : QualifiedMethod) (rest : Network) : State :=
  { s with network := rest, iterations := s.iterations + 1, calls := (s.calls.reach m).1 }

/-- The state that has taken objects and put them into the set of their node. -/
def takeObjects (s : State) (id : NodeId) (set : ObjectSet) (rest : Network) : State :=
  { s with network := (rest.absorb id set).1, iterations := s.iterations + 1 }

section Take

variable {setting : Setting} {s : State} (consistent : s.Consistent setting)

/-! ## Taking a method -/

section Method

variable {m : QualifiedMethod} {rest : Network} (popped : s.network.pop? = some (.method m, rest))
include popped

theorem grows_takeMethod : s.Grows (s.takeMethod m rest) := by
  obtain ⟨edges, reachable, members⟩ := CallGraph.reach_spec s.calls m
  refine ⟨.refl _, .refl _, .refl _, Network.grows_of_pop_method popped, ?_, reachable, ?_⟩
  · have same := congrArg Array.toList edges
    exact same ▸ List.prefix_refl _
  · rintro c m' (known | announced)
    · exact .inl ((members _).mpr (.inl known))
    · rcases Network.announces_of_pop_method popped announced with later | same
      · exact .inr later
      · exact .inl ((members _).mpr (.inr same))

theorem expected_takeMethod {fact : Fact ContextId QualifiedObjectId}
    (expected : (s.takeMethod m rest).Expected fact) : s.Expected fact := by
  obtain ⟨edges, -, members⟩ := CallGraph.reach_spec s.calls m
  obtain ⟨whole, graph, points⟩ := Network.toList_of_pop? popped
  cases fact with
  | reach c m' =>
      rcases expected with known | announced
      · rcases (members _).mp known with old | rfl
        · exact .inl old
        · exact .inr (by simp [Network.Announces, whole])
      · exact .inr (Network.announces_of_pop popped announced)
  | call c site d m' =>
      obtain ⟨e, edge, ends⟩ := expected
      exact ⟨e, edges ▸ edge, ends⟩
  | flow p q =>
      obtain ⟨e, edge, source, target⟩ := expected
      exact ⟨e, graph ▸ edge, graph ▸ source, graph ▸ target⟩
  | holds p o =>
      obtain ⟨id, pointer, arrives⟩ := expected
      exact ⟨id, graph ▸ pointer, (Network.arrives_of_pop_method popped id o).mp arrives⟩

include consistent

theorem consistent_takeMethod : (s.takeMethod m rest).Consistent setting := by
  obtain ⟨-, graph, -⟩ := Network.toList_of_pop? popped
  have same : (s.takeMethod m rest).network.graph = s.network.graph := graph
  refine consistent.of_grows (grows_takeMethod popped) rfl rfl rfl ?_ ?_ ?_ ?_ ?_ ?_
    (Network.delivered_of_pop_method popped consistent.delivered)
  · rw [same]
    exact consistent.nodes
  · rw [same]
    exact fun p member => .inl member
  · rw [same]
    exact fun e edge => .inl edge
  · exact fun id o arrives => .inl ((Network.arrives_of_pop_method popped id o).mp arrives)
  · exact fun fact expected => .inl (expected_takeMethod popped expected)
  · exact fun c site d m' expected => .inl (expected_takeMethod popped expected)

end Method

/-! ## Taking objects -/

section Objects

variable {id : NodeId} {set : ObjectSet} {rest : Network}
  (popped : s.network.pop? = some (.objects id set, rest))
include popped

theorem graph_takeObjects : (s.takeObjects id set rest).network.graph = s.network.graph := by
  obtain ⟨-, graph, -⟩ := Network.toList_of_pop? popped
  obtain ⟨kept, -⟩ := Network.absorb_spec rest id set
  exact kept.trans graph

theorem grows_takeObjects : s.Grows (s.takeObjects id set rest) :=
  ⟨.refl _, .refl _, .refl _, Network.grows_absorb_of_pop popped, List.prefix_refl _,
    List.prefix_refl _, fun _ _ =>
      announces_mono fun _ => Network.announces_absorb_of_pop popped _⟩

include consistent

/-- What taking objects adds flows along an edge. -/
theorem expected_takeObjects {fact : Fact ContextId QualifiedObjectId}
    (expected : (s.takeObjects id set rest).Expected fact) : s.Expected fact ∨
      ∃ p q o, fact = .holds q o ∧ s.Expected (.flow p q) ∧ s.Expected (.holds p o) := by
  have graph := graph_takeObjects popped
  cases fact with
  | reach c m =>
      exact .inl (expected.imp_right (Network.announces_absorb_of_pop popped _).mp)
  | call c site d m => exact .inl expected
  | flow p q =>
      obtain ⟨e, edge, source, target⟩ := expected
      exact .inl ⟨e, graph ▸ edge, graph ▸ source, graph ▸ target⟩
  | holds q o =>
      obtain ⟨x, pointer, arrives⟩ := expected
      rw [graph] at pointer
      rcases Network.arrives_of_absorb popped arrives with old | ⟨held, e, edge, rfl, rfl⟩
      · exact .inl ⟨x, pointer, old⟩
      · obtain ⟨p, source⟩ := Table.exists_key?_of_lt (consistent.edges edge).1
        exact .inr ⟨p, q, o, rfl, ⟨e, edge, source, pointer⟩, ⟨_, source, held⟩⟩

theorem consistent_takeObjects : (s.takeObjects id set rest).Consistent setting := by
  have graph := graph_takeObjects popped
  refine consistent.of_grows (grows_takeObjects popped) rfl rfl rfl ?_ ?_ ?_ ?_ ?_
    (fun _ _ _ _ => .inl) (Network.delivered_absorb_of_pop popped consistent.delivered)
  · rw [graph]
    exact consistent.nodes
  · rw [graph]
    exact fun p member => .inl member
  · rw [graph]
    exact fun e edge => .inl edge
  · intro x o arrives
    rcases Network.arrives_of_absorb popped arrives with old | ⟨-, e, edge, -, rfl⟩
    · exact .inl old
    · exact .inr (by rw [graph]; exact (consistent.edges edge).2)
  · intro fact expected
    rcases expected_takeObjects consistent popped expected with old | ⟨p, q, o, rfl, edge, held⟩
    · exact .inl old
    · exact .inr ⟨(consistent.facts edge).2, (consistent.facts held).2⟩

end Objects

end Take

/-! ## Steps -/

section Step

variable {setting : Setting} (wellFormed : setting.program.WellFormed)
include wellFormed

omit wellFormed in
/-- Nothing happens without new objects. -/
theorem react_of_isEmpty {s : State} {id : NodeId} {delta : ObjectSet}
    (nothing : delta.isEmpty = true) : react setting s id delta = s := by
  have empty := ObjectSet.toList_of_isEmpty nothing
  unfold react
  split
  · split
    · rw [empty]
      rfl
    · rfl
  · rfl

omit wellFormed in
theorem step_method {s : State} {m : QualifiedMethod} {rest : Network}
    (popped : s.network.pop? = some (.method m, rest)) : step setting s =
      some (enter setting { s with network := rest, iterations := s.iterations + 1 } m) := by
  simp [step, popped]

omit wellFormed in
/-- A step that takes objects treats those that are new. -/
theorem step_objects {s : State} {id : NodeId} {set : ObjectSet} {rest : Network}
    (popped : s.network.pop? = some (.objects id set, rest)) : step setting s =
      some (react setting (s.takeObjects id set rest) id (rest.absorb id set).2) := by
  have unfolded : step setting s = some (if (rest.absorb id set).2.isEmpty then
      s.takeObjects id set rest
    else react setting (s.takeObjects id set rest) id (rest.absorb id set).2) := by
    simp only [step, popped]
    rfl
  rw [unfolded]
  split
  · rename_i nothing
    rw [react_of_isEmpty nothing]
  · rfl

/-- An abstract method demands nothing. -/
theorem methodDemands_of_abstract {D : Domain ContextId QualifiedObjectId} {c : ContextId}
    {m : MethodId} {fact : Fact ContextId QualifiedObjectId}
    (abstract : setting.program.isAbstract m = true) :
    ¬ MethodDemands setting.program D c m fact := by
  have empty := wellFormed.abstract abstract
  have nothing {s : Stmt} : s ∉ setting.program.bodyOf m := by simp [empty]
  intro demanded
  cases demanded with
  | new statement => exact nothing statement
  | copy statement => exact nothing statement
  | loadStatic statement => exact nothing statement
  | storeStatic statement => exact nothing statement
  | call statement => exact nothing (Program.mem_bodyOf_of_callAt? statement)

variable {s next : State} (consistent : s.Consistent setting)
include consistent

omit wellFormed consistent in
/-- Nothing happens when a method is reachable already. -/
theorem enter_of_isReachable {m : QualifiedMethod} {rest : Network}
    (known : s.calls.isReachable m = true) :
    enter setting { s with network := rest, iterations := s.iterations + 1 } m =
      s.takeMethod m rest := by
  simp [enter, takeMethod, CallGraph.reach, known]

omit wellFormed consistent in
/-- A method without a body is only reported when it becomes reachable. -/
theorem enter_of_isAbstract {m : QualifiedMethod} {rest : Network}
    (new : s.calls.isReachable m = false) (abstract : setting.program.isAbstract m.method = true) :
    enter setting { s with network := rest, iterations := s.iterations + 1 } m =
      ((s.takeMethod m rest).report
        (.processing m.method (setting.policy.contextOf s.contexts m.context))).report
          (.bodiless m.method) := by
  simp only [enter, takeMethod, CallGraph.reach, new, Program.summary?, abstract, if_true]
  rfl

omit wellFormed consistent in
/-- The body of a method takes effect after reports when the method becomes reachable. -/
theorem exists_reports_of_enter {m : QualifiedMethod} (rest : Network)
    (new : s.calls.isReachable m = false) (body : setting.program.isAbstract m.method = false) :
    ∃ reported, Runs setting (s.takeMethod m rest) reported ∧
      enter setting { s with network := rest, iterations := s.iterations + 1 } m =
        applySummary setting reported m.context
          (Summary.ofBody m.method (setting.program.bodyOf m.method)) := by
  have processing : Runs setting (s.takeMethod m rest) ((s.takeMethod m rest).report
      (.processing m.method (setting.policy.contextOf s.contexts m.context))) := runs_report _
  simp only [enter, CallGraph.reach, new, Program.summary?, body]
  cases s.calls.reachable.any fun other => other.method = m.method with
  | true => exact ⟨_, processing, by simp only [takeMethod, CallGraph.reach, new]; rfl⟩
  | false =>
      refine ⟨_, processing.trans (runs_report (.summarised m.method)), ?_⟩
      simp only [takeMethod, CallGraph.reach, new]
      rfl

/-- Entering a method that was not reachable leaves nothing open that it demands. -/
theorem enter_spec {m : QualifiedMethod} {rest : Network}
    (popped : s.network.pop? = some (.method m, rest)) (new : s.calls.isReachable m = false) :
    Runs setting (s.takeMethod m rest)
        (enter setting { s with network := rest, iterations := s.iterations + 1 } m) ∧
      ∀ fact, MethodDemands setting.program
          ((enter setting { s with network := rest, iterations := s.iterations + 1 } m).domain setting)
          m.context m.method fact →
        (enter setting { s with network := rest, iterations := s.iterations + 1 } m).Expected fact := by
  have taken := consistent_takeMethod consistent popped
  obtain ⟨-, -, members⟩ := CallGraph.reach_spec s.calls m
  have reached : (s.takeMethod m rest).Expected (.reach m.context m.method) :=
    .inl ((members m).mpr (.inr rfl))
  cases abstract : setting.program.isAbstract m.method with
  | true =>
      rw [enter_of_isAbstract new abstract]
      exact ⟨(runs_report _).trans (runs_report _),
        fun fact demanded => absurd demanded (methodDemands_of_abstract wellFormed abstract)⟩
  | false =>
      obtain ⟨reported, reports, entered⟩ := exists_reports_of_enter rest new abstract
      have before := reports.consistent wellFormed taken
      obtain ⟨runs, done⟩ := applySummary_spec wellFormed before (reports.grows.expected reached)
      rw [entered]
      exact ⟨reports.trans runs, done⟩

/-- A step takes a piece of work and runs until nothing is open that this piece demands. -/
theorem step_cases (taken : step setting s = some next) :
    (∃ m rest, s.network.pop? = some (.method m, rest) ∧ Runs setting (s.takeMethod m rest) next ∧
      (m ∉ s.calls.reachable → ∀ fact,
        MethodDemands setting.program (next.domain setting) m.context m.method fact →
          next.Expected fact)) ∨
    ∃ id set rest, s.network.pop? = some (.objects id set, rest) ∧
      Runs setting (s.takeObjects id set rest) next ∧
      ∀ c v, s.network.graph.pointer? id = some (.var c v) →
        ∀ o, o ∈ set → ¬ o ∈ s.network.points.points id →
          ∀ fact, ObjectDemands setting.program (next.domain setting) c
            (setting.program.methodOfVar v) v o fact → next.Expected fact := by
  cases popped : s.network.pop? with
  | none => simp [step, popped] at taken
  | some work =>
      obtain ⟨item, rest⟩ := work
      cases item with
      | method m =>
          refine .inl ⟨m, rest, rfl, ?_⟩
          rw [step_method popped, Option.some.injEq] at taken
          subst taken
          cases new : s.calls.isReachable m with
          | true =>
              have known : m ∈ s.calls.reachable := CallGraph.isReachable_iff.mp new
              rw [enter_of_isReachable new]
              exact ⟨.refl _, fun unknown => absurd known unknown⟩
          | false =>
              obtain ⟨runs, done⟩ := enter_spec wellFormed consistent popped new
              exact ⟨runs, fun _ => done⟩
      | objects id set =>
          refine .inr ⟨id, set, rest, rfl, ?_⟩
          rw [step_objects popped, Option.some.injEq] at taken
          subst taken
          obtain ⟨-, -, points⟩ := Network.toList_of_pop? popped
          obtain ⟨-, -, added, fresh, -⟩ := Network.absorb_spec rest id set
          have before := consistent_takeObjects consistent popped
          have arrives : ∀ o, o ∈ (rest.absorb id set).2 →
              (s.takeObjects id set rest).network.Arrives id o :=
            fun o member => .inl ((added id o).mpr (.inr ⟨rfl, ((fresh o).mp member).1⟩))
          obtain ⟨runs, done⟩ := react_spec wellFormed before arrives
          refine ⟨runs, fun c v pointer o member unknown => ?_⟩
          exact done c v (by rw [graph_takeObjects popped]; exact pointer) o
            ((fresh o).mpr ⟨member, by rw [points]; exact unknown⟩)

end Step

/-! ## Runs of the solver -/

section Run

variable {setting : Setting}

/-- At the start only the entry is expected. -/
theorem expected_start {fact : Fact ContextId QualifiedObjectId}
    (expected : (start setting).Expected fact) : fact = .reach ContextTable.emptyId setting.entry := by
  have calls : (start setting).calls.reachable = #[] ∧ (start setting).calls.edges = #[] := by
    simp [start, CallGraph.addEntry, CallGraph.empty]
  have edges : (start setting).network.graph.edges = #[] := rfl
  cases fact with
  | reach c m =>
      rcases expected with known | announced
      · simp [calls.1] at known
      · rcases (Network.announces_announce _ _ _).mp announced with old | same
        · simp [Network.Announces, Network.empty, Worklist.toList] at old
        · cases same
          rfl
  | call c site d m =>
      obtain ⟨e, edge, -⟩ := expected
      simp [calls.2] at edge
  | flow p q =>
      obtain ⟨e, edge, -⟩ := expected
      simp [edges] at edge
  | holds p o =>
      obtain ⟨id, pointer, -⟩ := expected
      exact absurd (Table.lt_of_key? pointer) (Nat.not_lt_zero id)

theorem consistent_start : (start setting).Consistent setting where
  contexts := ContextTable.valid_initial setting.policy
  elements := by
    intro context member o inside
    rcases Table.mem_toList_intern.mp member with old | rfl
    · cases old
    · cases inside
  heap := Heap.Valid.empty setting.heapModel setting.program
  objects := List.nodup_nil
  parts := fun member => by cases member
  nodes := List.nodup_nil
  edges := fun edge => by simp [start, Network.empty, Network.announce] at edge
  arrivals := by
    intro id o arrives
    rcases (Network.arrives_announce _ _ _ _).mp arrives with held | ⟨set, queued, -⟩
    · simp [Network.empty, PointsMap.points, PointsMap.get?] at held
    · cases queued
  facts := fun expected => by
    rw [expected_start expected]
    exact (ContextTable.valid_initial setting.policy).initial_lt
  rooted := fun member => by cases member
  called := fun expected => by cases expected_start expected
  delivered := fun e edge => by simp [start, Network.empty, Network.announce] at edge

theorem Reached.consistent (wellFormed : setting.program.WellFormed) {s : State}
    (run : Reached setting s) : s.Consistent setting := by
  induction run with
  | start => exact consistent_start
  | step before taken ih =>
      rcases step_cases wellFormed ih taken with
        ⟨m, rest, popped, runs, -⟩ | ⟨id, set, rest, popped, runs, -⟩
      · exact runs.consistent wellFormed (consistent_takeMethod ih popped)
      · exact runs.consistent wellFormed (consistent_takeObjects ih popped)

/-- What holds at the start and is kept by changes and by taking work holds in every state of a run. -/
theorem Reached.invariant {holds : State → Prop} (wellFormed : setting.program.WellFormed)
    (first : holds (State.start setting))
    (change : ∀ {s t : State}, s.Consistent setting → Change setting s t → holds s → holds t)
    (method : ∀ {s : State} {m : QualifiedMethod} {rest : Network}, s.Consistent setting →
      s.network.pop? = some (.method m, rest) → holds s → holds (s.takeMethod m rest))
    (objects : ∀ {s : State} {id : NodeId} {set : ObjectSet} {rest : Network}, s.Consistent setting →
      s.network.pop? = some (.objects id set, rest) → holds s → holds (s.takeObjects id set rest))
    {s : State} (run : Reached setting s) : holds s := by
  have all {s t : State} (changes : Changes setting s t) (consistent : s.Consistent setting)
      (before : holds s) : holds t := by
    induction changes with
    | refl => exact before
    | tail rest last ih => exact change (Changes.consistent wellFormed rest consistent) last ih
  induction run with
  | start => exact first
  | step before taken ih =>
      have consistent := before.consistent wellFormed
      rcases step_cases wellFormed consistent taken with
        ⟨m, rest, popped, runs, -⟩ | ⟨id, set, rest, popped, runs, -⟩
      · exact all runs.changes (consistent_takeMethod consistent popped) (method consistent popped ih)
      · exact all runs.changes (consistent_takeObjects consistent popped) (objects consistent popped ih)

/-- The states after any number of steps belong to the run. -/
theorem Reached.steps {s : State} (run : Reached setting s) (count : Nat) :
    Reached setting (State.steps setting count s) := by
  induction count generalizing s with
  | zero => exact run
  | succ count ih =>
      unfold State.steps
      split
      · exact run
      · rename_i next taken
        exact ih (run.step taken)

section Closed

variable {known : State → Fact ContextId QualifiedObjectId → Prop}
  (closed : ∀ s : State, s.Consistent setting → s.Closed setting (known s))
  (keeps : ∀ s t : State, s.Consistent setting → s.Grows t → ∀ fact, known s fact → known t fact)
  (wellFormed : setting.program.WellFormed)
include closed keeps wellFormed

theorem Changes.expected_subset {s t : State} (changes : Changes setting s t)
    (consistent : s.Consistent setting) (before : ∀ fact, s.Expected fact → known s fact) :
    ∀ fact, t.Expected fact → known t fact := by
  induction changes with
  | refl => exact before
  | tail rest change ih =>
      have middle := Changes.consistent wellFormed rest consistent
      intro fact expected
      exact keeps _ _ middle change.grows fact
        (change.least middle (change.consistent wellFormed middle) (closed _ middle) ih fact expected)

/-- What a run expects is in every family of closed sets that goes along with the states. -/
theorem Reached.expected_subset {s : State} (run : Reached setting s) :
    ∀ fact, s.Expected fact → known s fact := by
  induction run with
  | start =>
      intro fact expected
      rw [expected_start expected]
      exact closed _ consistent_start _ .entry consistent_start.contexts.initial_lt
  | step before taken ih =>
      have consistent := before.consistent wellFormed
      rcases step_cases wellFormed consistent taken with
        ⟨m, rest, popped, runs, -⟩ | ⟨id, set, rest, popped, runs, -⟩
      · refine runs.changes.expected_subset closed keeps wellFormed
          (consistent_takeMethod consistent popped) fun fact expected => ?_
        exact keeps _ _ consistent (grows_takeMethod popped) fact
          (ih fact (expected_takeMethod popped expected))
      · have after := consistent_takeObjects consistent popped
        refine runs.changes.expected_subset closed keeps wellFormed after fun fact expected => ?_
        refine keeps _ _ consistent (grows_takeObjects popped) fact ?_
        rcases expected_takeObjects consistent popped expected with old | ⟨p, q, o, rfl, edge, held⟩
        · exact ih fact old
        · exact closed _ consistent _ (.subset (ih _ edge) (ih _ held)) (after.facts expected)

end Closed

end Run

end PointsTo.State
