/- # Precision -- the solver finds nothing spurious

Every change of a state is justified by a rule, so whatever a state has recorded or queued is, read with
contexts and objects spelled out, in every set of facts that is closed under the rules.  What a finished
run has found is itself such a set, so it is the least one (`least_of_reached`).

The rules read in both directions: what follows under numbers follows without (`follows_read`), and what
follows without numbers from the facts of a solution follows under numbers (`solution_read`). -/
import PointsTo.Proofs.Reading
import PointsTo.Proofs.Saturation

set_option autoImplicit false

namespace PointsTo.State

/-! ## Rules under numbers as rules without -/

section Down

variable {setting : Setting} {s : State} (valid : s.Valid setting)
include valid

theorem methodDemands_read {c : ContextId} (inUse : c < s.contexts.size) {m : MethodId}
    {fact : Fact ContextId QualifiedObjectId} (below : fact.Below s.contexts.size s.objects.size)
    (demanded : MethodDemands setting.program (s.domain setting) c m fact) :
    MethodDemands setting.program setting.domain (s.readContext setting c) m (s.read setting fact) := by
  cases demanded with
  | new statement =>
      simp only [read, Fact.map, read_object valid below.2]
      exact .new statement
  | copy statement => exact .copy statement
  | loadStatic statement => exact .loadStatic statement
  | storeStatic statement => exact .storeStatic statement
  | call statement static resolved =>
      simp only [read, Fact.map, read_callStatic valid inUse below.2]
      exact .call statement static resolved

theorem objectDemands_read {c : ContextId} {m : MethodId} {v : VarId} {o : QualifiedObjectId}
    (inUse : o < s.objects.size) {fact : Fact ContextId QualifiedObjectId}
    (below : fact.Below s.contexts.size s.objects.size)
    (demanded : ObjectDemands setting.program (s.domain setting) c m v o fact) :
    ObjectDemands setting.program setting.domain (s.readContext setting c) m v
      (s.readObject setting o) (s.read setting fact) := by
  cases demanded with
  | loadField statement => exact .loadField statement
  | storeField statement => exact .storeField statement
  | loadArray statement => exact .loadArray statement
  | storeArray statement => exact .storeArray statement
  | call statement receiver resolved =>
      rw [← read_type valid inUse] at resolved
      simp only [read, Fact.map, read_callInstance valid inUse below.2]
      exact .call statement receiver resolved
  | this statement receiver resolved own =>
      rw [← read_type valid inUse] at resolved
      simp only [read, Fact.map, PointerOf.map, read_callInstance valid inUse below.1]
      exact .this statement receiver resolved own

/-- What follows from facts under numbers follows from what they read as. -/
theorem follows_read {known : Fact (ContextOf Origin) QualifiedOrigin → Prop}
    {fact : Fact ContextId QualifiedObjectId} (below : fact.Below s.contexts.size s.objects.size)
    (follows : Follows setting.program (s.domain setting) setting.entry
      (fun fact => fact.Below s.contexts.size s.objects.size ∧ known (s.read setting fact)) fact) :
    Follows setting.program setting.domain setting.entry known (s.read setting fact) := by
  cases follows with
  | entry =>
      simp only [read, Fact.map, domain, read_initial valid]
      exact .entry
  | ofMethod reached demanded =>
      exact .ofMethod reached.2 (methodDemands_read valid reached.1 below demanded)
  | ofObject reached held demanded =>
      exact .ofObject reached.2 held.2 (objectDemands_read valid held.1.2 below demanded)
  | ofCall called demanded => exact .ofCall called.2 demanded.map
  | subset edge held => exact .subset edge.2 held.2

end Down

/-! ## Rules without numbers as rules under numbers -/

section Up

variable {setting : Setting} {s : State} (valid : s.Valid setting)
include valid

theorem exists_methodDemands {c : ContextId} (inUse : c < s.contexts.size) {m : MethodId}
    {fact : Fact (ContextOf Origin) QualifiedOrigin}
    (demanded : MethodDemands setting.program setting.domain (s.readContext setting c) m fact) :
    ∃ numbered, MethodDemands setting.program (s.domain setting) c m numbered ∧
      (numbered.Below s.contexts.size s.objects.size → s.read setting numbered = fact) := by
  cases demanded with
  | new statement =>
      refine ⟨_, .new statement, fun below => ?_⟩
      simp only [read, Fact.map, read_object valid below.2]
      rfl
  | copy statement => exact ⟨_, .copy statement, fun _ => rfl⟩
  | loadStatic statement => exact ⟨_, .loadStatic statement, fun _ => rfl⟩
  | storeStatic statement => exact ⟨_, .storeStatic statement, fun _ => rfl⟩
  | call statement static resolved =>
      refine ⟨_, .call statement static resolved, fun below => ?_⟩
      simp only [read, Fact.map, read_callStatic valid inUse below.2]

theorem exists_objectDemands {c : ContextId} {m : MethodId} {v : VarId} {o : QualifiedObjectId}
    (inUse : o < s.objects.size) {fact : Fact (ContextOf Origin) QualifiedOrigin}
    (demanded : ObjectDemands setting.program setting.domain (s.readContext setting c) m v
      (s.readObject setting o) fact) :
    ∃ numbered, ObjectDemands setting.program (s.domain setting) c m v o numbered ∧
      (numbered.Below s.contexts.size s.objects.size → s.read setting numbered = fact) := by
  cases demanded with
  | loadField statement => exact ⟨_, .loadField statement, fun _ => rfl⟩
  | storeField statement => exact ⟨_, .storeField statement, fun _ => rfl⟩
  | loadArray statement => exact ⟨_, .loadArray statement, fun _ => rfl⟩
  | storeArray statement => exact ⟨_, .storeArray statement, fun _ => rfl⟩
  | call statement receiver resolved =>
      rw [read_type valid inUse] at resolved
      refine ⟨_, .call statement receiver resolved, fun below => ?_⟩
      simp only [read, Fact.map, read_callInstance valid inUse below.2]
  | this statement receiver resolved own =>
      rw [read_type valid inUse] at resolved
      refine ⟨_, .this statement receiver resolved own, fun below => ?_⟩
      simp only [read, Fact.map, PointerOf.map, read_callInstance valid inUse below.1]

omit valid in
theorem exists_callDemands {c : ContextId} {site : CallSite} {d : ContextId} {m : MethodId}
    {fact : Fact (ContextOf Origin) QualifiedOrigin}
    (demanded : CallDemands setting.program (s.readContext setting c) site (s.readContext setting d) m
      fact) :
    ∃ numbered, CallDemands setting.program c site d m numbered ∧ s.read setting numbered = fact := by
  cases demanded with
  | callee => exact ⟨_, .callee, rfl⟩
  | argument statement passed => exact ⟨_, .argument statement passed, rfl⟩
  | result statement wanted given => exact ⟨_, .result statement wanted given, rfl⟩

/-- A fact that reads as a pointer holding an object is about that pointer and that object. -/
theorem holds_of_read {p : Pointer} {o : QualifiedOrigin} {numbered : Fact ContextId QualifiedObjectId}
    (inUse : p.Below s.contexts.size s.objects.size)
    (below : numbered.Below s.contexts.size s.objects.size)
    (same : s.read setting numbered =
      .holds (p.map (s.readContext setting) (s.readObject setting)) o) :
    ∃ o', numbered = .holds p o' ∧ s.readObject setting o' = o := by
  cases numbered with
  | holds p' o' =>
      simp only [read, Fact.map, Fact.holds.injEq] at same
      rw [readPointer_injective valid below.1 inUse same.1]
      exact ⟨o', rfl, same.2⟩
  | _ => cases same

/-- What follows from what the facts of a solution read as is what a fact of the solution reads as. -/
theorem solution_read {known : Fact ContextId QualifiedObjectId → Prop}
    (below : ∀ fact, known fact → fact.Below s.contexts.size s.objects.size)
    (solution : Solution setting.program (s.domain setting) setting.entry known) :
    Solution setting.program setting.domain setting.entry
      (fun fact => ∃ numbered, known numbered ∧ s.read setting numbered = fact) := by
  intro fact follows
  cases follows with
  | entry =>
      refine ⟨_, solution _ .entry, ?_⟩
      simp only [read, Fact.map, domain, read_initial valid]
      rfl
  | ofMethod reached demanded =>
      obtain ⟨numbered, knownReached, same⟩ := reached
      cases numbered <;> cases same
      obtain ⟨answer, demands, reads⟩ :=
        exists_methodDemands valid (below _ knownReached) demanded
      have knownAnswer := solution _ (.ofMethod knownReached demands)
      exact ⟨answer, knownAnswer, reads (below _ knownAnswer)⟩
  | @ofObject _ m v _ _ reached held demanded =>
      obtain ⟨numbered, knownReached, same⟩ := reached
      obtain ⟨other, knownHeld, sameHeld⟩ := held
      cases numbered <;> cases same
      rename_i c
      have inUse : PointerOf.Below s.contexts.size s.objects.size (.var c v) := below _ knownReached
      obtain ⟨o, rfl, rfl⟩ := holds_of_read valid inUse (below _ knownHeld) sameHeld
      obtain ⟨answer, demands, reads⟩ :=
        exists_objectDemands valid (below _ knownHeld).2 demanded
      have knownAnswer := solution _ (.ofObject knownReached knownHeld demands)
      exact ⟨answer, knownAnswer, reads (below _ knownAnswer)⟩
  | ofCall called demanded =>
      obtain ⟨numbered, knownCalled, same⟩ := called
      cases numbered <;> cases same
      obtain ⟨answer, demands, reads⟩ := exists_callDemands demanded
      exact ⟨answer, solution _ (.ofCall knownCalled demands), reads⟩
  | subset edge held =>
      obtain ⟨numbered, knownEdge, same⟩ := edge
      obtain ⟨other, knownHeld, sameHeld⟩ := held
      cases numbered <;> cases same
      obtain ⟨o, rfl, rfl⟩ := holds_of_read valid (below _ knownEdge).1 (below _ knownHeld) sameHeld
      exact ⟨_, solution _ (.subset knownEdge knownHeld), rfl⟩

end Up

/-! ## Runs -/

section Run

variable {setting : Setting} {known : Fact (ContextOf Origin) QualifiedOrigin → Prop}

/-- A fact about numbers in use that reads as a known one. -/
def Knows (setting : Setting) (known : Fact (ContextOf Origin) QualifiedOrigin → Prop) (s : State)
    (fact : Fact ContextId QualifiedObjectId) : Prop :=
  fact.Below s.contexts.size s.objects.size ∧ known (s.read setting fact)

theorem Reached.knows (wellFormed : setting.program.WellFormed)
    (solution : Solution setting.program setting.domain setting.entry known) {s : State}
    (run : Reached setting s) {fact : Fact ContextId QualifiedObjectId} (expected : s.Expected fact) :
    Knows setting known s fact := by
  refine run.expected_subset ?_ ?_ wellFormed fact expected
  · intro s consistent fact follows below
    exact ⟨below, solution _ (follows_read consistent.toValid below follows)⟩
  · rintro s t consistent grown fact ⟨below, reads⟩
    refine ⟨below.mono grown.contexts.size_le grown.objects.size_le, ?_⟩
    rw [read_of_grows consistent.toValid grown below]
    exact reads

/-- What is recorded in a state, with contexts and objects spelled out. -/
def Recorded (setting : Setting) (s : State) (fact : Fact (ContextOf Origin) QualifiedOrigin) : Prop :=
  ∃ numbered, s.Present numbered ∧ s.read setting numbered = fact

/-- What a finished run has recorded is closed under the rules. -/
theorem Reached.solution_recorded (wellFormed : setting.program.WellFormed) {s : State}
    (run : Reached setting s) (finished : State.step setting s = none) :
    Solution setting.program setting.domain setting.entry (Recorded setting s) := by
  have consistent := run.consistent wellFormed
  exact solution_read consistent.toValid
    (fun fact present => consistent.facts (consistent.expected_of_present present))
    (run.solution wellFormed finished)

/-- What is recorded is in every solution. -/
theorem Reached.known_of_recorded (wellFormed : setting.program.WellFormed)
    (solution : Solution setting.program setting.domain setting.entry known) {s : State}
    (run : Reached setting s) {fact : Fact (ContextOf Origin) QualifiedOrigin}
    (recorded : Recorded setting s fact) : known fact := by
  obtain ⟨numbered, present, rfl⟩ := recorded
  have consistent := run.consistent wellFormed
  exact (run.knows wellFormed solution (consistent.expected_of_present present)).2

end Run

/-- Whatever a run has found or queued at any time is in every solution, and what a finished run has found
is a solution: the least one. -/
theorem least_of_reached {setting : Setting} (loaded : setting.program.Loaded) {s : State}
    (run : Reached setting s) :
    (∀ known, Solution setting.program setting.domain setting.entry known →
      ∀ fact, s.Expected fact → known (s.read setting fact)) ∧
    (step setting s = none → Solution setting.program setting.domain setting.entry
      fun fact => ∃ numbered, s.Present numbered ∧ s.read setting numbered = fact) := by
  have wellFormed := loaded.wellFormed
  have consistent := run.consistent wellFormed
  refine ⟨fun known solution fact expected => ?_, fun finished => ?_⟩
  · exact (run.knows wellFormed solution expected).2
  · exact solution_read consistent.toValid
      (fun fact present => consistent.facts (consistent.expected_of_present present))
      (run.solution wellFormed finished)

theorem least_of_reached_sample :
    (∀ known, Solution Program.sample Setting.sample.domain 0 known →
      ∀ fact, (steps Setting.sample 20 (start Setting.sample)).Expected fact →
        known ((steps Setting.sample 20 (start Setting.sample)).read Setting.sample fact)) ∧
    (step Setting.sample (steps Setting.sample 20 (start Setting.sample)) = none →
      Solution Program.sample Setting.sample.domain 0 fun fact =>
        ∃ numbered, (steps Setting.sample 20 (start Setting.sample)).Present numbered ∧
          (steps Setting.sample 20 (start Setting.sample)).read Setting.sample numbered = fact) := by
  have run : Reached Setting.sample (steps Setting.sample 20 (start Setting.sample)) :=
    Reached.start.steps 20
  exact least_of_reached Program.loaded_sample run

end PointsTo.State
