/- # Precedence -- code is analysed before its data arrives

The queue is first in, first out, and a rule queues objects only when the methods that they are there for have
been queued before: the method of the variable that they are on their way to, and the method that allocated
them.  So a property of objects at pointers that queued methods justify is justified by reachable methods
once the objects arrive (`Reached.justified`): what stands before objects in the queue has been taken when
they are.

Main statements: `timely_of_reached`, objects come to a variable only after its method is reachable and has
taken effect; `Reached.allocated`, an object that a set holds was allocated by a reachable method. -/
import PointsTo.Proofs.Saturation
import PointsTo.Proofs.Termination
import PointsTo.Result

set_option autoImplicit false

namespace PointsTo

/-! ## What operations queue -/

/-- An element of two lists together has in front of it what it has in the first, or all of the first. -/
theorem append_cases {α : Type} {xs ys : List α} {i : Nat} {x : α} (here : (xs ++ ys)[i]? = some x) :
    xs[i]? = some x ∧ (xs ++ ys).take i = xs.take i ∨ x ∈ ys ∧ xs ⊆ (xs ++ ys).take i := by
  rw [List.getElem?_append] at here
  split at here
  · rename_i early
    exact .inl ⟨here, List.take_append_of_le_length (Nat.le_of_lt early)⟩
  · rename_i late
    rw [List.take_append, List.take_of_length_le (Nat.le_of_not_lt late)]
    exact .inr ⟨List.mem_of_getElem? here, List.subset_append_left _ _⟩

namespace Network

variable (n : Network)

/-- Connecting queues nothing, or the objects of the source for the target if there are some. -/
theorem queued_connect (e : FlowEdge) : ∃ added, (n.connect e).1.pending.toList = n.pending.toList ++ added ∧
    ∀ item ∈ added, item = .objects e.target (n.points.points e.source) ∧
      (n.points.points e.source).isEmpty = false := by
  unfold connect
  simp only
  split
  · exact ⟨[], by simp, by simp⟩
  · split
    · exact ⟨[], by simp, by simp⟩
    · rename_i something
      refine ⟨[_], Worklist.toList_push _ _, fun item member => ⟨List.mem_singleton.mp member, ?_⟩⟩
      simpa using something

theorem queued_sendAll (targets : List NodeId) (set : ObjectSet) :
    (targets.foldl (fun n target => n.send target set) n).pending.toList =
      n.pending.toList ++ targets.map (.objects · set) := by
  induction targets generalizing n with
  | nil => simp
  | cons target rest ih =>
      rw [List.foldl_cons, ih, List.map_cons, send, Worklist.toList_push, List.append_assoc]
      rfl

/-- Absorbing queues what is new, if there is something, for the successors. -/
theorem queued_absorb (id : NodeId) (set : ObjectSet) :
    ∃ added, (n.absorb id set).1.pending.toList = n.pending.toList ++ added ∧
      ∀ item ∈ added, (∃ target ∈ n.graph.successors id, item = .objects target (n.absorb id set).2) ∧
        (n.absorb id set).2.isEmpty = false := by
  unfold absorb
  simp only
  split
  · exact ⟨[], by simp, by simp⟩
  · rename_i something
    refine ⟨_, queued_sendAll _ _ _, fun item member => ⟨?_, by simpa using something⟩⟩
    obtain ⟨target, next, same⟩ := List.mem_map.mp member
    exact ⟨target, next, same.symm⟩

end Network

namespace State

/-- Objects that may be queued for a pointer: there are some, the pointer is called for, and every one of them
is expected somewhere or was allocated for the pointer. -/
structure Sendable (setting : Setting) (s : State) (p : Pointer) (set : ObjectSet) : Prop where
  rooted : s.Rooted setting p
  filled : ∃ o, o ∈ set
  source : ∀ o, o ∈ set → (∃ q, s.Expected (.holds q o)) ∨
    o < s.objects.size ∧ ∃ c m, s.Expected (.reach c m) ∧
      MethodDemands setting.program (s.domain setting) c m (.holds p o)

section Queued

variable {setting : Setting} {s t : State}

/-- An object that follows by a rule is expected somewhere or allocated. -/
theorem source_of_follows {p : Pointer} {o : QualifiedObjectId}
    (follows : Follows setting.program (s.domain setting) setting.entry s.Expected (.holds p o)) :
    (∃ q, s.Expected (.holds q o)) ∨ ∃ c m, s.Expected (.reach c m) ∧
      MethodDemands setting.program (s.domain setting) c m (.holds p o) := by
  cases follows with
  | ofMethod reached demanded => exact .inr ⟨_, _, reached, demanded⟩
  | ofObject reached held demanded =>
      cases demanded with
      | this statement receiver resolved own => exact .inl ⟨_, held⟩
  | ofCall called demanded => cases demanded
  | subset edge held => exact .inl ⟨_, held⟩

/-- A change only adds to the end of the queue, and only objects that may be queued. -/
theorem Change.queued (change : Change setting s t) (wellFormed : setting.program.WellFormed)
    (consistent : s.Consistent setting) :
    ∃ added, t.network.pending.toList = s.network.pending.toList ++ added ∧
      ∀ id set, .objects id set ∈ added →
        ∃ p, t.network.graph.pointer? id = some p ∧ s.Sendable setting p set := by
  cases change with
  | @flow p q kind follows =>
      obtain ⟨-, rooted⟩ := consistent.rooted_of_follows wellFormed follows
      obtain ⟨added, queue, items⟩ := Network.queued_connect ((s.network.node p).1.node q).1
        ⟨(s.network.node p).2, ((s.network.node p).1.node q).2, kind⟩
      refine ⟨added, queue, fun id set member => ?_⟩
      obtain ⟨same, something⟩ := items _ member
      cases same
      refine ⟨q, (Network.grows_connect _ _).nodes.key? (Network.pointer?_node _ q), rooted,
        ObjectSet.exists_mem_of_isEmpty something, fun o held => .inl ⟨p, (s.network.node p).2, ?_, .inl held⟩⟩
      exact pointer?_of_extends (Network.grows_node s.network p).nodes (consistent.arrivals (.inl held))
        (Network.pointer?_node s.network p)
  | @seed p o follows rooted inUse =>
      refine ⟨[.objects (s.network.node p).2 (.singleton o)], Worklist.toList_push _ _,
        fun id set member => ?_⟩
      cases List.mem_singleton.mp member
      refine ⟨p, Network.pointer?_node s.network p, rooted, ⟨o, (ObjectSet.mem_singleton o o).mpr rfl⟩,
        fun o' inside => ?_⟩
      cases (ObjectSet.mem_singleton o o').mp inside
      exact (source_of_follows follows).imp_right fun allocated => ⟨inUse, allocated⟩
  | @call c site d m kind follows inUse =>
      refine ⟨[.method ⟨d, m⟩], Worklist.toList_push _ _, fun id set member => ?_⟩
      cases List.mem_singleton.mp member
  | _ => exact ⟨[], (List.append_nil _).symm, fun _ _ member => absurd member List.not_mem_nil⟩

end Queued

/-! ## Justified objects -/

/-- A method is reachable or queued. -/
def Awaited (s : State) (m : QualifiedMethod) : Prop :=
  m ∈ s.calls.reachable ∨ .method m ∈ s.network.pending.toList

/-- A method is reachable or queued before a position of the queue. -/
def AwaitedBefore (s : State) (i : Nat) (m : QualifiedMethod) : Prop :=
  m ∈ s.calls.reachable ∨ .method m ∈ s.network.pending.toList.take i

/-- A property of objects at pointers that comes from methods: that a method allocates an object justifies it,
and so does that the pointer is called for when the object has it somewhere else. -/
structure Justification (setting : Setting)
    (warrant : State → (QualifiedMethod → Prop) → Pointer → QualifiedObjectId → Prop) : Prop where
  mono : ∀ {s t : State} {ready more : QualifiedMethod → Prop} {p : Pointer} {o : QualifiedObjectId},
    s.Grows t → (∀ m, ready m → more m) → warrant s ready p o → warrant t more p o
  allocated : ∀ {s : State} {p : Pointer} {o : QualifiedObjectId} {c : ContextId} {m : MethodId},
    s.Consistent setting → s.Rooted setting p → o < s.objects.size → s.Expected (.reach c m) →
      MethodDemands setting.program (s.domain setting) c m (.holds p o) → warrant s s.Awaited p o
  moved : ∀ {s : State} {p q : Pointer} {o : QualifiedObjectId},
    s.Rooted setting q → warrant s s.Awaited p o → warrant s s.Awaited q o

/-- Objects are justified by reachable methods in the sets of a state, and by these and the methods before
them in its queue, where there are no empty sets. -/
structure Justified (warrant : State → (QualifiedMethod → Prop) → Pointer → QualifiedObjectId → Prop)
    (s : State) : Prop where
  held : ∀ {id p o}, s.network.graph.pointer? id = some p → o ∈ s.network.points.points id →
    warrant s (· ∈ s.calls.reachable) p o
  queued : ∀ {i id set p o}, s.network.pending.toList[i]? = some (.objects id set) →
    s.network.graph.pointer? id = some p → o ∈ set → warrant s (s.AwaitedBefore i) p o
  filled : ∀ {id set}, .objects id set ∈ s.network.pending.toList → ∃ o, o ∈ set

theorem AwaitedBefore.awaited {s : State} {i : Nat} {m : QualifiedMethod}
    (awaited : s.AwaitedBefore i m) : s.Awaited m :=
  awaited.imp_right List.mem_of_mem_take

section Preserved

variable {setting : Setting}
  {warrant : State → (QualifiedMethod → Prop) → Pointer → QualifiedObjectId → Prop}
  (justification : Justification setting warrant)
include justification

/-- An object that is expected at a pointer is justified by the methods that are expected. -/
theorem Justified.expected {s : State} (before : s.Justified warrant) {p : Pointer}
    {o : QualifiedObjectId} (expected : s.Expected (.holds p o)) : warrant s s.Awaited p o := by
  obtain ⟨id, pointer, held | ⟨set, queued, inside⟩⟩ := expected
  · exact justification.mono (.refl s) (fun m => .inl) (before.held pointer held)
  · obtain ⟨i, here⟩ := List.mem_iff_getElem?.mp queued
    exact justification.mono (.refl s) (fun m => AwaitedBefore.awaited) (before.queued here pointer inside)

/-- So is an object that may be queued. -/
theorem Justified.sendable {s : State} (before : s.Justified warrant)
    (consistent : s.Consistent setting) {p : Pointer} {set : ObjectSet}
    (sendable : s.Sendable setting p set) {o : QualifiedObjectId} (inside : o ∈ set) :
    warrant s s.Awaited p o := by
  rcases sendable.source o inside with ⟨q, expected⟩ | ⟨inUse, c, m, reached, demanded⟩
  · exact justification.moved sendable.rooted (before.expected justification expected)
  · exact justification.allocated consistent sendable.rooted inUse reached demanded

theorem Justified.change {s t : State} (before : s.Justified warrant)
    (wellFormed : setting.program.WellFormed) (consistent : s.Consistent setting)
    (change : Change setting s t) : t.Justified warrant := by
  have grown := change.grows
  have reachable := change.changes.reachable
  have points := change.changes.points
  obtain ⟨added, queue, items⟩ := change.queued wellFormed consistent
  refine ⟨fun {id p o} pointer held => ?_, fun {i id set p o} here pointer inside => ?_,
    fun {id set} member => ?_⟩
  · rw [points] at held
    have there := pointer?_of_extends grown.network.nodes (consistent.arrivals (.inl held)) pointer
    exact justification.mono grown (fun m => (reachable ▸ ·)) (before.held there held)
  · rw [queue] at here
    rcases append_cases here with ⟨old, same⟩ | ⟨new, behind⟩
    · have arrives : s.network.Arrives id o := .inr ⟨set, List.mem_of_getElem? old, inside⟩
      have there := pointer?_of_extends grown.network.nodes (consistent.arrivals arrives) pointer
      refine justification.mono grown (fun m awaited => ?_) (before.queued old there inside)
      exact awaited.imp (reachable ▸ ·) fun queued => by rwa [queue, same]
    · obtain ⟨q, target, sendable⟩ := items id set new
      cases target.symm.trans pointer
      refine justification.mono grown (fun m awaited => ?_)
        (before.sendable justification consistent sendable inside)
      exact awaited.imp (reachable ▸ ·) fun queued => by rw [queue]; exact behind queued
  · rw [queue] at member
    rcases List.mem_append.mp member with old | new
    · exact before.filled old
    · obtain ⟨q, -, sendable⟩ := items id set new
      exact sendable.filled

/-- A method that is taken from the front of the queue is reachable from then on. -/
theorem Justified.takeMethod {s : State} (before : s.Justified warrant) {m : QualifiedMethod}
    {rest : Network} (popped : s.network.pop? = some (.method m, rest)) :
    (s.takeMethod m rest).Justified warrant := by
  have grown : s.Grows (s.takeMethod m rest) := grows_takeMethod popped
  obtain ⟨whole, graph, points⟩ := Network.toList_of_pop? popped
  obtain ⟨-, -, members⟩ := CallGraph.reach_spec s.calls m
  refine ⟨fun pointer held => ?_, fun {i id set p o} here pointer inside => ?_, fun member => ?_⟩
  · exact justification.mono grown (fun other known => (members other).mpr (.inl known))
      (before.held (graph ▸ pointer) (points ▸ held))
  · have next : s.network.pending.toList[i + 1]? = some (.objects id set) := by rw [whole]; exact here
    refine justification.mono grown (fun other awaited => ?_) (before.queued next (graph ▸ pointer) inside)
    rcases awaited with known | queued
    · exact .inl ((members other).mpr (.inl known))
    · rw [whole, List.take_succ_cons, List.mem_cons] at queued
      rcases queued with same | later
      · cases same
        exact .inl ((members m).mpr (.inr rfl))
      · exact .inr later
  · exact before.filled (by rw [whole]; exact List.mem_cons_of_mem _ member)

/-- Nothing stands before the objects that are taken, so reachable methods justify them. -/
theorem Justified.takeObjects {s : State} (before : s.Justified warrant)
    (consistent : s.Consistent setting) {id : NodeId} {set : ObjectSet} {rest : Network}
    (popped : s.network.pop? = some (.objects id set, rest)) :
    (s.takeObjects id set rest).Justified warrant := by
  have grown : s.Grows (s.takeObjects id set rest) := grows_takeObjects popped
  have graph := graph_takeObjects popped
  obtain ⟨whole, restGraph, points⟩ := Network.toList_of_pop? popped
  obtain ⟨-, -, added, fresh, -⟩ := Network.absorb_spec rest id set
  obtain ⟨sent, queue, items⟩ := Network.queued_absorb rest id set
  have first : s.network.pending.toList[0]? = some (.objects id set) := by rw [whole]; rfl
  -- The item that is taken is not a method.
  have isMethod {m : QualifiedMethod} {queue : List Pending}
      (queued : .method m ∈ .objects id set :: queue) : .method m ∈ queue :=
    (List.mem_cons.mp queued).resolve_left fun same => by cases same
  refine ⟨fun {x p o} pointer held => ?_, fun {i x sets p o} here pointer inside => ?_,
    fun {x sets} member => ?_⟩
  · rw [graph] at pointer
    rcases (added x o).mp held with old | ⟨rfl, inside⟩
    · exact justification.mono grown (fun _ known => known) (before.held pointer (points ▸ old))
    · refine justification.mono grown (fun m awaited => ?_) (before.queued first pointer inside)
      exact awaited.resolve_right fun impossible => by simp at impossible
  · rw [graph] at pointer
    have here : (rest.absorb id set).1.pending.toList[i]? = some (.objects x sets) := here
    rw [queue] at here
    rcases append_cases here with ⟨old, same⟩ | ⟨new, behind⟩
    · have next : s.network.pending.toList[i + 1]? = some (.objects x sets) := by rw [whole]; exact old
      refine justification.mono grown (fun m awaited => awaited.imp_right fun queued => ?_)
        (before.queued next pointer inside)
      show _ ∈ (rest.absorb id set).1.pending.toList.take i
      rw [whole, List.take_succ_cons] at queued
      rw [queue, same]
      exact isMethod queued
    · obtain ⟨⟨target, next, same⟩, -⟩ := items _ new
      cases same
      obtain ⟨taken, -⟩ := (fresh o).mp inside
      have arrives : s.network.Arrives id o := .inr ⟨set, List.mem_of_getElem? first, taken⟩
      obtain ⟨q, source⟩ := Table.exists_key?_of_lt (consistent.arrivals arrives)
      have known := before.expected justification ⟨id, source, arrives⟩
      have rooted := consistent.rooted (Table.mem_of_key? pointer)
      refine justification.mono grown (fun m awaited => awaited.imp_right fun queued => ?_)
        (justification.moved rooted known)
      show _ ∈ (rest.absorb id set).1.pending.toList.take i
      rw [whole] at queued
      rw [queue]
      exact behind (isMethod queued)
  · have member : .objects x sets ∈ (rest.absorb id set).1.pending.toList := member
    rw [queue] at member
    rcases List.mem_append.mp member with old | new
    · exact before.filled (by rw [whole]; exact List.mem_cons_of_mem _ old)
    · obtain ⟨⟨target, -, same⟩, something⟩ := items _ new
      cases same
      exact ObjectSet.exists_mem_of_isEmpty something

/-- What queued methods justify is justified by reachable methods once it has arrived. -/
theorem Reached.justified (wellFormed : setting.program.WellFormed) {s : State}
    (run : Reached setting s) : s.Justified warrant := by
  refine run.invariant wellFormed ?_ ?_ ?_ ?_
  · refine ⟨fun pointer => absurd (Table.lt_of_key? pointer) (Nat.not_lt_zero _),
      fun _ pointer => absurd (Table.lt_of_key? pointer) (Nat.not_lt_zero _), fun member => ?_⟩
    cases List.mem_singleton.mp member
  · exact fun consistent change before => before.change justification wellFormed consistent change
  · exact fun _ popped before => before.takeMethod justification popped
  · exact fun consistent popped before => before.takeObjects justification consistent popped

end Preserved

/-! ## The method of an object -/

/-- An object is justified by a method that allocates it. -/
theorem justification_allocator {setting : Setting} : Justification setting fun s ready _ o =>
    ∃ c m lhs site, .new lhs site ∈ setting.program.bodyOf m ∧ c < s.contexts.size ∧
      s.Allocates setting c site o ∧ ready ⟨c, m⟩ where
  mono := by
    rintro s t ready more p o grown wider ⟨c, m, lhs, site, statement, inUse, allocates, known⟩
    exact ⟨c, m, lhs, site, statement, Nat.lt_of_lt_of_le inUse grown.contexts.size_le,
      allocates.mono grown inUse, wider _ known⟩
  allocated := by
    intro s p o c m consistent _ inUse reached demanded
    cases demanded with
    | new statement =>
        exact ⟨c, m, _, _, statement, consistent.facts reached, consistent.allocates_of_lt inUse, reached⟩
  moved := fun _ known => known

/-- A set holds only what reachable methods allocate. -/
theorem Reached.allocated {setting : Setting} (wellFormed : setting.program.WellFormed) {s : State}
    (run : Reached setting s) {p : Pointer} {o : QualifiedObjectId} (held : o ∈ s.points p) :
    ∃ c m lhs site, .new lhs site ∈ setting.program.bodyOf m ∧ s.Allocates setting c site o ∧
      ⟨c, m⟩ ∈ s.calls.reachable := by
  obtain ⟨id, pointer, member⟩ := (mem_points_iff (run.consistent wellFormed).nodes).mp held
  obtain ⟨c, m, lhs, site, statement, -, allocates, reachable⟩ :=
    (run.justified justification_allocator wellFormed).held pointer member
  exact ⟨c, m, lhs, site, statement, allocates, reachable⟩

/-! ## The method of a variable -/

section Timely

variable {setting : Setting}

/-- Objects of a variable are justified by the method of the variable. -/
theorem justification_owner : Justification setting
    (fun _ ready p _ => ∀ c v, p = .var c v → ready ⟨c, setting.program.methodOfVar v⟩) where
  mono := fun _ more owner c v same => more _ (owner c v same)
  allocated := fun _ rooted _ _ _ c v same => by
    subst same
    exact rooted.reach
  moved := fun rooted _ c v same => by
    subst same
    exact rooted.reach

/-- The analysis of code goes before the arrival of its data. -/
structure Timely (setting : Setting) (s : State) : Prop where
  /-- The method of a variable that has a node is reachable in its context or waits to be. -/
  nodes : ∀ {c v}, .var c v ∈ s.network.graph.nodes.toList →
    ⟨c, setting.program.methodOfVar v⟩ ∈ s.calls.reachable ∨
      .method ⟨c, setting.program.methodOfVar v⟩ ∈ s.network.pending.toList
  /-- Objects on their way to a variable stand behind its method in the queue, unless that is reachable. -/
  queued : ∀ {i id set c v}, s.network.pending.toList[i]? = some (.objects id set) →
    s.network.graph.pointer? id = some (.var c v) →
    ⟨c, setting.program.methodOfVar v⟩ ∈ s.calls.reachable ∨
      .method ⟨c, setting.program.methodOfVar v⟩ ∈ s.network.pending.toList.take i
  /-- A variable that holds something belongs to a reachable method. -/
  held : ∀ {c v}, (s.points (.var c v)).isEmpty = false →
    ⟨c, setting.program.methodOfVar v⟩ ∈ s.calls.reachable
  /-- When objects for a variable are taken, its method has been, and nothing that it demands is open. -/
  taken : ∀ {id set rest c v}, s.network.pop? = some (.objects id set, rest) →
    s.network.graph.pointer? id = some (.var c v) →
    ⟨c, setting.program.methodOfVar v⟩ ∈ s.calls.reachable ∧
      ∀ fact, MethodDemands setting.program (s.domain setting) c (setting.program.methodOfVar v) fact →
        s.Expected fact

theorem Reached.timely (wellFormed : setting.program.WellFormed) {s : State} (run : Reached setting s) :
    s.Timely setting := by
  have consistent := run.consistent wellFormed
  have justified := run.justified (@justification_owner setting) wellFormed
  have behind : ∀ {i id set c v}, s.network.pending.toList[i]? = some (.objects id set) →
      s.network.graph.pointer? id = some (.var c v) →
      s.AwaitedBefore i ⟨c, setting.program.methodOfVar v⟩ := by
    intro i id set c v here pointer
    obtain ⟨o, inside⟩ := justified.filled (List.mem_of_getElem? here)
    exact justified.queued here pointer inside c v rfl
  refine ⟨fun member => (consistent.rooted member).reach, behind, fun {c v} something => ?_,
    fun {id set rest c v} popped pointer => ?_⟩
  · obtain ⟨o, member⟩ := ObjectSet.exists_mem_of_isEmpty something
    obtain ⟨id, pointer, held⟩ := (mem_points_iff consistent.nodes).mp member
    exact justified.held pointer held c v rfl
  · obtain ⟨whole, -, -⟩ := Network.toList_of_pop? popped
    have reachable : ⟨c, setting.program.methodOfVar v⟩ ∈ s.calls.reachable :=
      (behind (i := 0) (by rw [whole]; rfl) pointer).resolve_right fun impossible => by simp at impossible
    exact ⟨reachable, (run.saturated wellFormed).methods reachable⟩

/-- Every state of a run analyses code before its data arrives, and at the end every context in which a
variable was met is one in which its method is reachable. -/
theorem timely_of_reached (loaded : setting.program.Loaded) {s : State} (run : Reached setting s) :
    s.Timely setting ∧ ∀ v c, c ∈ setting.analyse.contextsOf v →
      ⟨c, setting.program.methodOfVar v⟩ ∈ setting.analyse.state.calls.reachable := by
  refine ⟨run.timely loaded.wellFormed, fun v c met => ?_⟩
  obtain ⟨whole, finished⟩ := reached_run loaded.wellFormed
  have consistent := whole.consistent loaded.wellFormed
  obtain ⟨⟨p, id⟩, node, matched⟩ := List.mem_filterMap.mp ((mem_ascending c _).mp met)
  cases p with
  | var d w =>
      obtain ⟨same, here⟩ := Option.ite_none_right_eq_some.mp matched
      cases here
      subst same
      have member := List.fst_mem_of_mem_zipIdx node
      exact present_of_expected consistent finished (consistent.rooted member).reach
  | _ => cases matched

/-- The sample, three steps after its start and at its end. -/
theorem timely_of_reached_sample :
    (steps Setting.sample 3 (start Setting.sample)).Timely Setting.sample ∧
      ∀ v c, c ∈ Setting.sample.analyse.contextsOf v →
        ⟨c, Program.sample.methodOfVar v⟩ ∈ Setting.sample.analyse.state.calls.reachable :=
  timely_of_reached Program.loaded_sample (Reached.start.steps 3)

end Timely

end State

end PointsTo
