/- # Saturation -- a finished run has found everything

While the solver runs, a fact can be missing only because work is pending: every reachable method, every
object in a set and every call has all that it demands recorded or queued (`State.Saturated`).  When the
queue is empty nothing is queued, so the recorded facts are closed under the rules.

Main statement: `solution_of_finished`, the facts of a finished run are a solution. -/
import PointsTo.Proofs.Loaded
import PointsTo.Proofs.Steps

set_option autoImplicit false

namespace PointsTo.State

/-- Whatever is recorded has all that it demands recorded or queued. -/
structure Saturated (setting : Setting) (s : State) : Prop where
  entry : s.Expected (.reach ContextTable.emptyId setting.entry)
  methods : ∀ {c m}, ⟨c, m⟩ ∈ s.calls.reachable →
    ∀ fact, MethodDemands setting.program (s.domain setting) c m fact → s.Expected fact
  objects : ∀ {id c v o}, s.network.graph.pointer? id = some (.var c v) →
    o ∈ s.network.points.points id →
    ∀ fact, ObjectDemands setting.program (s.domain setting) c (setting.program.methodOfVar v) v o
      fact → s.Expected fact
  calls : ∀ {c site d m}, s.Expected (.call c site d m) →
    ∀ fact, CallDemands setting.program c site d m fact → s.Expected fact

section Step

variable {setting : Setting} {s next : State} (consistent : s.Consistent setting)
  (after : next.Consistent setting) (saturated : s.Saturated setting) (grown : s.Grows next)

include consistent after saturated grown

/-- What was demanded before a step stays answered. -/
theorem Saturated.methods_of_grows {c : ContextId} {m : MethodId} (reached : ⟨c, m⟩ ∈ s.calls.reachable)
    {fact : Fact ContextId QualifiedObjectId}
    (demanded : MethodDemands setting.program (next.domain setting) c m fact) : next.Expected fact := by
  have known : s.Expected (.reach c m) := .inl reached
  exact methodDemands_of_grows consistent.toValid after.toValid grown (consistent.facts known)
    (saturated.methods reached) demanded

theorem Saturated.objects_of_grows {id : NodeId} {c : ContextId} {v : VarId} {o : QualifiedObjectId}
    (pointer : next.network.graph.pointer? id = some (.var c v)) (held : o ∈ s.network.points.points id)
    {fact : Fact ContextId QualifiedObjectId}
    (demanded : ObjectDemands setting.program (next.domain setting) c (setting.program.methodOfVar v) v
      o fact) : next.Expected fact := by
  have arrives : s.network.Arrives id o := .inl held
  have before := pointer?_of_extends grown.network.nodes (consistent.arrivals arrives) pointer
  have known : s.Expected (.holds (.var c v) o) := ⟨id, before, arrives⟩
  obtain ⟨context, object⟩ := consistent.facts known
  exact objectDemands_of_grows consistent.toValid after.toValid grown context object
    (saturated.objects before held) demanded

omit consistent after in
theorem Saturated.calls_of_runs {t : State} (runs : Runs setting t next)
    (old : ∀ {c site d m}, t.Expected (.call c site d m) → s.Expected (.call c site d m))
    {c : ContextId} {site : CallSite} {d : ContextId} {m : MethodId}
    (called : next.Expected (.call c site d m)) {fact : Fact ContextId QualifiedObjectId}
    (demanded : CallDemands setting.program c site d m fact) : next.Expected fact := by
  rcases runs.bound called with before | bound
  · exact grown.expected (saturated.calls (old before) fact demanded)
  · exact bound fact demanded

end Step

section Run

variable {setting : Setting} (wellFormed : setting.program.WellFormed)

theorem saturated_start : (start setting).Saturated setting where
  entry := .inr ((Network.announces_announce _ _ _).mpr (.inr rfl))
  methods := fun {c m} reached => by
    have none : (start setting).calls.reachable = #[] := by
      simp [start, CallGraph.addEntry, CallGraph.empty]
    simp [none] at reached
  objects := fun pointer held => absurd (Table.lt_of_key? pointer) (Nat.not_lt_zero _)
  calls := fun called => by cases expected_start called

include wellFormed

theorem Saturated.step {s next : State} (consistent : s.Consistent setting)
    (saturated : s.Saturated setting) (taken : step setting s = some next) :
    next.Saturated setting := by
  rcases step_cases wellFormed consistent taken with
    ⟨m, rest, popped, runs, entered⟩ | ⟨id, set, rest, popped, runs, reacted⟩
  · have grown := (grows_takeMethod popped).trans runs.grows
    have after := runs.consistent wellFormed (consistent_takeMethod consistent popped)
    obtain ⟨-, -, members⟩ := CallGraph.reach_spec s.calls m
    obtain ⟨-, graph, points⟩ := Network.toList_of_pop? popped
    refine ⟨grown.expected saturated.entry, ?_, ?_, ?_⟩
    · intro c m' reached fact demanded
      rw [runs.changes.reachable] at reached
      by_cases old : ⟨c, m'⟩ ∈ s.calls.reachable
      · exact saturated.methods_of_grows consistent after grown old demanded
      · rcases (members _).mp reached with known | rfl
        · exact absurd known old
        · exact entered old fact demanded
    · intro x c v o pointer held fact demanded
      rw [runs.changes.points] at held
      exact saturated.objects_of_grows consistent after grown pointer (points ▸ held) demanded
    · exact fun called fact demanded => saturated.calls_of_runs grown runs
        (fun expected => expected_takeMethod popped expected) called demanded
  · have grown := (grows_takeObjects popped).trans runs.grows
    have after := runs.consistent wellFormed (consistent_takeObjects consistent popped)
    obtain ⟨-, -, added, -, -⟩ := Network.absorb_spec rest id set
    obtain ⟨-, graph, points⟩ := Network.toList_of_pop? popped
    refine ⟨grown.expected saturated.entry, ?_, ?_, ?_⟩
    · intro c m reached fact demanded
      rw [runs.changes.reachable] at reached
      exact saturated.methods_of_grows consistent after grown reached demanded
    · intro x c v o pointer held fact demanded
      rw [runs.changes.points] at held
      by_cases old : o ∈ s.network.points.points x
      · exact saturated.objects_of_grows consistent after grown pointer old demanded
      · rcases (added x o).mp held with known | ⟨rfl, member⟩
        · exact absurd (points ▸ known) old
        · have arrives : s.network.Arrives x o := by
            refine .inr ⟨set, ?_, member⟩
            rw [(Network.toList_of_pop? popped).1]
            exact List.mem_cons_self
          have before :=
            pointer?_of_extends grown.network.nodes (consistent.arrivals arrives) pointer
          exact reacted c v before o member old fact demanded
    · exact fun called fact demanded => saturated.calls_of_runs grown runs
        (fun expected => expected) called demanded

theorem Reached.saturated {s : State} (run : Reached setting s) : s.Saturated setting := by
  induction run with
  | start => exact saturated_start
  | step before taken ih => exact ih.step wellFormed (before.consistent wellFormed) taken

/-- A variable that something can be demanded through belongs to the method that demands it. -/
theorem owns_of_objectDemands {C O : Type} {D : Domain C O} {c : C} {m : MethodId} {v : VarId} {o : O}
    {fact : Fact C O} (demanded : ObjectDemands setting.program D c m v o fact) :
    setting.program.Owns m v := by
  cases demanded with
  | loadField statement => exact wellFormed.body statement (by simp [Statement.mentions])
  | storeField statement => exact wellFormed.body statement (by simp [Statement.mentions])
  | loadArray statement => exact wellFormed.body statement (by simp [Statement.mentions])
  | storeArray statement => exact wellFormed.body statement (by simp [Statement.mentions])
  | call statement receiver =>
      exact wellFormed.owns_of_callAt? statement (by simp [Invocation.mentions, receiver])
  | this statement receiver =>
      exact wellFormed.owns_of_callAt? statement (by simp [Invocation.mentions, receiver])

omit wellFormed in
/-- Without pending work all that is expected is recorded. -/
theorem present_of_expected {s : State} (consistent : s.Consistent setting)
    (finished : step setting s = none) {fact : Fact ContextId QualifiedObjectId}
    (expected : s.Expected fact) : s.Present fact := by
  have idle : s.network.pending.toList = [] := by
    apply (Network.pop?_eq_none_iff s.network).mp
    unfold step at finished
    split at finished
    · assumption
    · split at finished <;> cases finished
  cases fact with
  | reach c m =>
      rcases expected with known | announced
      · exact known
      · simp [Network.Announces, idle] at announced
  | call c site d m => exact expected
  | flow p q => exact expected
  | holds p o =>
      obtain ⟨id, pointer, held | ⟨set, queued, -⟩⟩ := expected
      · exact (mem_points_iff consistent.nodes).mpr ⟨id, pointer, held⟩
      · simp [idle] at queued

theorem Reached.solution {s : State} (run : Reached setting s) (finished : State.step setting s = none) :
    Solution setting.program (s.domain setting) setting.entry s.Present := by
  have consistent := run.consistent wellFormed
  have saturated := run.saturated wellFormed
  intro fact follows
  refine present_of_expected consistent finished ?_
  cases follows with
  | entry => exact saturated.entry
  | ofMethod reached demanded => exact saturated.methods reached fact demanded
  | ofObject reached held demanded =>
      obtain ⟨id, pointer, member⟩ := (mem_points_iff consistent.nodes).mp held
      rw [← (owns_of_objectDemands wellFormed demanded).methodOfVar] at demanded
      exact saturated.objects pointer member fact demanded
  | ofCall called demanded => exact saturated.calls called fact demanded
  | subset edge held =>
      obtain ⟨e, member, source, target⟩ := edge
      obtain ⟨id, pointer, inside⟩ := (mem_points_iff consistent.nodes).mp held
      have same : id = e.source := Table.key?_injective consistent.nodes pointer source
      exact ⟨e.target, target, consistent.delivered e member _ (same ▸ inside)⟩

omit wellFormed in
/-- In the final state of a run every rule is answered: what a reachable method, an object in one of its
variables, a call or an edge demands is there, under the numbers that the state gives to contexts and
objects. -/
theorem solution_of_finished (loaded : setting.program.Loaded) {s : State} (run : Reached setting s)
    (finished : step setting s = none) :
    Solution setting.program (s.domain setting) setting.entry s.Present :=
  run.solution loaded.wellFormed finished

end Run

/-- The sample is finished after fewer than twenty steps. -/
theorem solution_of_finished_sample :
    Solution Program.sample ((steps Setting.sample 20 (start Setting.sample)).domain Setting.sample) 0
      (steps Setting.sample 20 (start Setting.sample)).Present := by
  have finished : step Setting.sample (steps Setting.sample 20 (start Setting.sample)) = none :=
    Option.isNone_iff_eq_none.mp (by decide +kernel)
  exact solution_of_finished Program.loaded_sample (Reached.start.steps 20) finished

end PointsTo.State
