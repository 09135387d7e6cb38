/- # Safety -- the analyses of a loaded program look up only what is there

Every number that an analysis handles was handed out: a loaded program uses every number that it mentions, and
a state of the solver queues methods with bodies, nodes of its graph and objects of its tables
(`Reached.runnable`, `State.Consistent`).  So the analyses with all their lookups (`Checked`) never stop at a
missing part, and they give what the analyses give.

Main statement: `Checked.analyses_never_fault`. -/
import PointsTo.Proofs.Bounds
import PointsTo.Proofs.CheckedHierarchy
import PointsTo.Proofs.CheckedSolver
import PointsTo.Proofs.FilledSets
import PointsTo.Proofs.Termination

set_option autoImplicit false

namespace PointsTo

/-! ## Methods with bodies -/

/-- A call is dispatched to a method with a body. -/
theorem Program.isAbstract_of_dispatch {p : Program} {c : ClassId} {subsignature : String} {m : MethodId}
    (found : p.dispatch c subsignature = some m) : p.isAbstract m = false := by
  obtain ⟨d, -, implemented⟩ := List.exists_of_findSome?_eq_some found
  simpa using (Option.filter_eq_some_iff.mp implemented).2

/-- A setting of a loaded program, whose entry has a body. -/
structure Setting.Prepared (setting : Setting) : Prop where
  loaded : setting.program.Loaded
  entry : setting.entry < setting.program.methods.size
  body : setting.program.isAbstract setting.entry = false

/-- The settings that are made for a loaded program are prepared. -/
theorem Setting.prepared_of_make {p : Program} (loaded : p.Loaded) {text : Option String} {policy : Policy}
    {model : HeapModel} {setting : Setting} (made : Setting.make p text policy model = .ok setting) :
    setting.Prepared := by
  obtain ⟨entry, chosen, same⟩ := bind_eq_ok_iff.mp made
  cases same
  obtain ⟨inUse, body⟩ := Checked.runnable_of_entryMethod loaded.inRange chosen
  exact ⟨loaded, inUse, body⟩

namespace State

/-- The facts in which methods are declared and have bodies. -/
def Runnable (setting : Setting) : Fact ContextId QualifiedObjectId → Prop
  | .reach _ m | .call _ _ _ m => m < setting.program.methods.size ∧ setting.program.isAbstract m = false
  | _ => True

variable {setting : Setting}

theorem runnable_of_resolveCall {V : Type} {receiver : Option TypeRef} {call : Invocation V} {m : MethodId}
    (resolved : (setting.program.resolveCall receiver call).target? = some m) :
    m < setting.program.methods.size ∧ setting.program.isAbstract m = false := by
  obtain ⟨c, dispatched⟩ := Program.exists_dispatch_of_resolveCall resolved
  exact ⟨Program.lt_of_dispatch dispatched, Program.isAbstract_of_dispatch dispatched⟩

theorem closed_runnable (prepared : setting.Prepared) (s : State) :
    s.Closed setting (Runnable setting) := by
  intro fact follows _
  cases follows with
  | entry => exact ⟨prepared.entry, prepared.body⟩
  | ofMethod _ demanded =>
      cases demanded with
      | call _ _ resolved => exact runnable_of_resolveCall resolved
      | _ => trivial
  | ofObject _ _ demanded =>
      cases demanded with
      | call _ _ resolved => exact runnable_of_resolveCall resolved
      | _ => trivial
  | ofCall called demanded =>
      cases demanded with
      | callee => exact called
      | _ => trivial
  | subset => trivial

/-- A method that is reachable or queued is declared and has a body. -/
theorem Reached.runnable (prepared : setting.Prepared) {s : State} (run : Reached setting s) {c : ContextId}
    {m : MethodId} (expected : s.Expected (.reach c m)) :
    m < setting.program.methods.size ∧ setting.program.isAbstract m = false := by
  have all : ∀ fact, s.Expected fact → Runnable setting fact :=
    run.expected_subset (fun s _ => closed_runnable prepared s) (fun _ _ _ _ _ => id)
      prepared.loaded.wellFormed
  exact all _ expected

/-- The objects of a run are those of sites of the program. -/
theorem Reached.placed (loaded : setting.program.Loaded) {s : State} (run : Reached setting s) :
    s.heap.Placed setting.program := by
  have listed := run.listed loaded.wellFormed
  have consistent := run.consistent loaded.wellFormed
  intro o object made
  exact ⟨loaded.inRange.site_lt (listed.sites made), (consistent.heap.made made).1⟩

end State

namespace Checked

variable {setting : Setting} (prepared : setting.Prepared)
include prepared

/-- In every state of a run the lookups of a step succeed. -/
theorem step_eq_ok {s : State} (run : State.Reached setting s) :
    step setting s = .ok (State.step setting s) := by
  have wellFormed := prepared.loaded.wellFormed
  have inRange := prepared.loaded.inRange
  have consistent := run.consistent wellFormed
  unfold step State.step
  cases popped : s.network.pop? with
  | none => rfl
  | some work =>
      obtain ⟨item, rest⟩ := work
      obtain ⟨whole, graph, points⟩ := Network.toList_of_pop? popped
      cases item with
      | method m =>
          have queued : s.Expected (.reach m.context m.method) := .inr (by simp [Network.Announces, whole])
          obtain ⟨inUse, body⟩ := run.runnable prepared queued
          simp only [enter_eq_ok inRange _ inUse body]
          rfl
      | objects id set =>
          simp only
          split
          · rfl
          · rename_i something
            -- A new object arrives at the node, so the node is there and the object was handed out.
            obtain ⟨-, -, -, fresh, -⟩ := Network.absorb_spec rest id set
            have arrives {o : QualifiedObjectId} (new : o ∈ (rest.absorb id set).2) : s.network.Arrives id o :=
              .inr ⟨set, by simp [whole], ((fresh o).mp new).1⟩
            obtain ⟨o, new⟩ := ObjectSet.exists_mem_of_isEmpty (Bool.eq_false_iff.mpr something)
            obtain ⟨pointer, here⟩ := Table.exists_key?_of_lt (consistent.arrivals (arrives new))
            have still : (s.takeObjects id set rest).network.graph.pointer? id = some pointer :=
              (congrArg (FlowGraph.pointer? · id) (State.graph_takeObjects popped)).trans here
            have rooted : ∀ c v, pointer = .var c v → ∃ m, setting.program.Owns m v ∧
                m < setting.program.methods.size ∧ setting.program.isAbstract m = false := by
              rintro c v rfl
              obtain ⟨m, owned, reached⟩ := consistent.rooted (Table.mem_of_key? here)
              exact ⟨m, owned, run.runnable prepared reached⟩
            have handedOut : ∀ x ∈ (rest.absorb id set).2.toList,
                ∃ answer, (s.takeObjects id set rest).receiver? x = some answer := by
              intro x member
              have holds : s.Expected (.holds pointer x) :=
                ⟨id, here, arrives ((ObjectSet.mem_toList _ _).mp member)⟩
              exact consistent.exists_receiver? (consistent.facts holds).2
            have placed : (s.takeObjects id set rest).heap.Placed setting.program :=
              run.placed prepared.loaded
            have reacts := react_eq_ok inRange placed still rooted handedOut
            rw [State.takeObjects] at reacts
            simp only [reacts]
            rfl

theorem steps_eq_ok (count : Nat) {s : State} (run : State.Reached setting s) :
    steps setting count s = .ok (State.steps setting count s) := by
  induction count generalizing s with
  | zero => rfl
  | succ count ih =>
      unfold steps State.steps
      rw [step_eq_ok prepared run, Lookup.ok_bind]
      cases taken : State.step setting s with
      | none => rfl
      | some next => exact ih (run.step taken)

theorem settle_eq_ok (rounds length : Nat) {s : State} (run : State.Reached setting s) :
    settle setting rounds length s = .ok (State.settle setting rounds length s) := by
  induction rounds generalizing length s with
  | zero => rfl
  | succ rounds ih =>
      unfold settle State.settle
      rw [steps_eq_ok prepared length run, Lookup.ok_bind]
      simp only
      split
      · rfl
      · exact ih (2 * length) (run.steps length)

/-- A run comes to its end without a failed lookup. -/
theorem run_eq_ok : run setting = .ok (State.run setting) :=
  settle_eq_ok prepared setting.rounds 1 .start

/-- An entry that is not declared stops the solver in its first step. -/
example : (match run { Setting.sample with entry := 7 } with
    | .ok _ => none
    | .error fault => some fault) = some (.missingMethod 7) := by decide +kernel

end Checked

/-! ## What is read off the last state -/

/-- The names of the contexts, in the order of their numbers. -/
def Result.contextNames (r : Result) : List String :=
  (List.range r.state.contexts.size).map r.contextName

namespace Checked

open Lookup (found)

def elementName (p : Program) (h : Heap) (model : HeapModel) : ContextElement → Lookup String
  | .site value => callSiteName p value
  | .object value => objectName p h model value
  | .type value => className p value

def contextNames (r : Result) : Lookup (List String) :=
  (List.range r.state.contexts.size).mapM fun c => do
    return listed (← (r.state.contexts.context c).mapM
      (elementName r.setting.program r.state.heap r.setting.heapModel))

/-- The pointer of a node is read, and at a variable its objects for what they are without their contexts.
A variable is given with the count of its set and these objects. -/
def readSet (s : State) (id : NodeId) (set : ObjectSet) : Lookup (Option (VarId × Nat × List ObjectId)) := do
  match ← readNode s.network.graph id with
  | .var _ v => do
    let objects ← set.toList.mapM fun o => do
      return (← found (s.objects.key? o) (.missingQualifiedObject o)).object
    return some (v, set.count, objects)
  | _ => return none

/-- Only sets with objects are read and counted. -/
def statistics (r : Result) : Lookup AnalysisStatistics := do
  let filled := r.state.network.points.toList.filter fun entry => !entry.2.isEmpty
  let read ← filled.mapM fun entry => readSet r.state entry.1 entry.2
  let sets := read.filterMap id
  let vars := (sets.map fun entry => entry.1).eraseDups
  let objects (v : VarId) := sets.flatMap fun entry => if entry.1 = v then entry.2.2 else []
  return { r.statistics with
    allSets := .ofSizes (filled.map fun entry => entry.2.count)
    variableSets := .ofSizes (sets.map fun entry => entry.2.1)
    mergedSets := .ofSizes (vars.map fun v => (ascending (objects v)).length) }

/-- The pointer analysis from its start to its statistics. -/
def analyse (setting : Setting) : Lookup (Result × List String × AnalysisStatistics) := do
  let r : Result := ⟨setting, ← run setting⟩
  return (r, ← contextNames r, ← statistics r)

section Elements

variable {p : Program} (inRange : p.InRange)
include inRange

/-- What the contexts of a run are made of has a name. -/
theorem elementName_eq_ok {h : Heap} (placed : h.Placed p) (model : HeapModel) {e : ContextElement}
    (listed : e ∈ p.elements) (objects : ∀ o, e = .object o → o < h.size) :
    elementName p h model e = .ok (e.name h model p) := by
  simp only [Program.elements, List.mem_append, List.mem_map] at listed
  rcases listed with (⟨site, calls, rfl⟩ | ⟨o, -, rfl⟩) | ⟨site, allocated, rfl⟩
  · obtain ⟨m, declared, indices⟩ := List.mem_flatMap.mp calls
    obtain ⟨i, -, rfl⟩ := List.mem_map.mp indices
    exact callSiteName_eq_ok inRange _ (List.mem_range.mp declared)
  · exact objectName_eq_ok inRange placed model (objects o rfl)
  · obtain ⟨s, statement, made⟩ := List.mem_filterMap.mp allocated
    obtain ⟨m, -, inBody⟩ := List.mem_flatMap.mp statement
    obtain ⟨lhs, rfl⟩ := Statement.exists_of_allocation? made
    exact className_eq_ok (inRange.container_lt (inRange.site_lt ⟨m, lhs, inBody⟩))

end Elements

section Results

variable {setting : Setting} (prepared : setting.Prepared) {s : State} (run : State.Reached setting s)
include prepared run

theorem contextNames_eq_ok : contextNames ⟨setting, s⟩ = .ok (Result.contextNames ⟨setting, s⟩) := by
  have inRange := prepared.loaded.inRange
  have consistent := run.consistent prepared.loaded.wellFormed
  have listed := run.listed prepared.loaded.wellFormed
  refine mapM_eq_ok_of fun c member => ?_
  have read : s.contexts.key? c = some (s.contexts.context c) :=
    ContextTable.key?_context (List.mem_range.mp member)
  have elements := mapM_eq_ok_of fun e (inside : e ∈ s.contexts.context c) =>
    elementName_eq_ok inRange (run.placed prepared.loaded) setting.heapModel (listed.mem_elements inside)
      fun o same => consistent.elements (Table.mem_of_key? read) (same ▸ inside)
  simp only [elements, Lookup.ok_bind]
  rfl

/-- A set that is not empty belongs to a node, and its objects were handed out. -/
theorem readSet_eq_ok {id : NodeId} {set : ObjectSet} (entered : (id, set) ∈ s.network.points.toList)
    (something : set.isEmpty = false) :
    readSet s id set = .ok ((Result.variableSet? ⟨setting, s⟩ (id, set)).map fun entry =>
      (entry.1, entry.2.count, Result.underlying ⟨setting, s⟩ entry.2)) := by
  have consistent := run.consistent prepared.loaded.wellFormed
  have held : s.network.points.points id = set := by
    have entry := Std.TreeMap.mem_toList_iff_getElem?_eq_some.mp entered
    simp [PointsMap.points, PointsMap.get?, entry]
  have arrives {o : QualifiedObjectId} (inSet : o ∈ set) : s.network.Arrives id o := .inl (held ▸ inSet)
  obtain ⟨o, inSet⟩ := ObjectSet.exists_mem_of_isEmpty something
  obtain ⟨pointer, known⟩ := Table.exists_key?_of_lt (consistent.arrivals (arrives inSet))
  have here : s.network.graph.pointer? id = some pointer := known
  rw [readSet, readNode_eq_ok here, Lookup.ok_bind]
  cases pointer with
  | var c v =>
      have objects : set.toList.mapM (fun o => do
          return (← found (s.objects.key? o) (.missingQualifiedObject o)).object) =
          .ok (Result.underlying ⟨setting, s⟩ set) := by
        refine mapM_eq_ok_filterMap fun x inList => ?_
        have holds : s.Expected (.holds (.var c v) x) :=
          ⟨id, here, arrives ((ObjectSet.mem_toList _ _).mp inList)⟩
        obtain ⟨object, known⟩ := Table.exists_key?_of_lt (consistent.facts holds).2
        exact ⟨object.object, by simp [Result.underlying?, known], by simp [known]⟩
      simp only [objects, Result.variableSet?, here]
      rfl
  | _ => simp [Result.variableSet?, here]

theorem statistics_eq_ok : statistics ⟨setting, s⟩ = .ok (Result.statistics ⟨setting, s⟩) := by
  let r : Result := ⟨setting, s⟩
  let filled := s.network.points.toList.filter fun entry => !entry.2.isEmpty
  have reads : filled.mapM (fun entry => readSet s entry.1 entry.2) =
      .ok (filled.map fun entry => (r.variableSet? entry).map fun entry =>
        (entry.1, entry.2.count, r.underlying entry.2)) :=
    mapM_eq_ok_of fun entry member =>
      readSet_eq_ok prepared run (List.mem_filter.mp member).1 (by simpa using (List.mem_filter.mp member).2)
  have sets : (filled.map fun entry => (r.variableSet? entry).map fun entry =>
      (entry.1, entry.2.count, r.underlying entry.2)).filterMap id =
      r.filledSets.map fun entry => (entry.1, entry.2.count, r.underlying entry.2) := by
    rw [List.filterMap_map, Function.id_comp, ← List.map_filterMap]
    exact congrArg _ (r.filterMap_variableSet? s.network.points.toList)
  simp only [statistics]
  rw [reads, Lookup.ok_bind, sets]
  simp only [List.map_map, List.flatMap_map, Function.comp_def]
  exact congrArg Except.ok r.statistics_of_filled

end Results

/-- On a loaded program nothing is looked up that is not there: not when an analysis is prepared, not in any
step of the pointer analysis, whatever its policy and heap model are, not when its contexts are named and its
sets are counted, and not in the analysis by declared types.  All of them give what they give without the
lookups. -/
theorem analyses_never_fault {p : Program} (loaded : p.Loaded) (text : Option String) (policy : Policy)
    (model : HeapModel) : make p text policy model = .ok (Setting.make p text policy model) ∧
      ∀ setting, Setting.make p text policy model = .ok setting →
        (∀ s, State.Reached setting s → step setting s = .ok (State.step setting s)) ∧
        analyse setting = .ok (setting.analyse, setting.analyse.contextNames, setting.analyse.statistics) ∧
        Hierarchy.run p setting.entry = .ok (HierarchyAnalysis.run p setting.entry) := by
  refine ⟨make_eq_ok loaded.inRange text policy model, fun setting made => ?_⟩
  have prepared := Setting.prepared_of_make loaded made
  obtain ⟨entry, -, same⟩ := bind_eq_ok_iff.mp made
  cases same
  obtain ⟨reached, -⟩ := State.reached_run prepared.loaded.wellFormed
  refine ⟨fun s run => step_eq_ok prepared run, ?_, Hierarchy.run_eq_ok loaded.inRange prepared.entry⟩
  rw [analyse, run_eq_ok prepared, Lookup.ok_bind]
  simp only [contextNames_eq_ok prepared reached, statistics_eq_ok prepared reached, Lookup.ok_bind]
  rfl

/-- The analyses of the sample, where the called method has the object as its context. -/
theorem analyses_never_fault_sample :
    (∃ outcome, analyse Setting.sample = .ok outcome ∧
      outcome.2.1 = ["[]", "[NewObj\x7b<A: main/0>[0]: new A\x7d]"] ∧ outcome.2.2.qualifiedObjects = 1) ∧
    ∃ a, Hierarchy.run Program.sample 0 = .ok a ∧ a.calls.reachable = #[0, 1] := by
  obtain ⟨-, safe⟩ := analyses_never_fault Program.loaded_sample none ⟨.object, 1, 1⟩ .site
  obtain ⟨-, analysed, visited⟩ := safe Setting.sample rfl
  exact ⟨⟨_, analysed, by decide +kernel, by decide +kernel⟩, ⟨_, visited, by decide +kernel⟩⟩

end Checked

end PointsTo
