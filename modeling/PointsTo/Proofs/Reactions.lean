/- # Reactions -- every object is reacted to once

A solver that keeps a history does what the solver does (`Traced.state_steps`) and notes on the way which
objects a piece of work turned out to be new for, which of them it let the statements through a variable take
effect for, and which calls it resolved for them.  The notes are exact (`Traced.Exact`): what was new at a
node makes up its set, no object was new twice, and each object of a variable was treated once, with each
call on the variable resolved once for it.

Resolving a call changes contexts, calls and edges but no object (`SameObjects`), so the receivers of a delta
are there for each of its calls.

Main statement: `exact_of_run`. -/
import Mathlib.Data.List.Sigma
import PointsTo.Proofs.Saturation
import PointsTo.Proofs.Termination

set_option autoImplicit false

namespace PointsTo

/-! ## A solver with a history -/

/-- A call on an object that was resolved. -/
structure Attempt where
  context : ContextId
  site : CallSite
  object : QualifiedObjectId
  deriving DecidableEq, Repr

/-- What a run did; the notes are in the order in which they were taken. -/
structure History where
  /-- What was new at a node when a piece of work was taken. -/
  deltas : List (NodeId × ObjectSet) := []
  /-- The objects that the statements through a variable took effect for. -/
  handed : List (ContextId × VarId × QualifiedObjectId) := []
  attempts : List Attempt := []

namespace History

/-- Notes what was new at a node. -/
def find (h : History) (id : NodeId) (delta : ObjectSet) : History :=
  { h with deltas := h.deltas ++ [(id, delta)] }

/-- Notes the objects that are handed to the statements through a variable. -/
def hand (h : History) (c : ContextId) (v : VarId) (objects : List QualifiedObjectId) : History :=
  { h with handed := h.handed ++ objects.map fun o => (c, v, o) }

/-- Notes calls that are resolved. -/
def attempt (h : History) (attempts : List Attempt) : History :=
  { h with attempts := h.attempts ++ attempts }

@[simp] theorem attempt_nil (h : History) : h.attempt [] = h := by simp [attempt]

@[simp] theorem attempt_attempt (h : History) (first second : List Attempt) :
    (h.attempt first).attempt second = h.attempt (first ++ second) := by
  simp [attempt]

end History

/-- A state with what was done on the way to it. -/
structure Traced where
  state : State
  history : History := {}

namespace Traced

variable (setting : Setting)

/-- Resolves a call for one receiver object, and notes that it was. -/
def callInstance (t : Traced) (c : ContextId) (site : CallSite) (o : QualifiedObjectId) : Traced :=
  match setting.program.callAt? site, t.state.receiver? o with
  | some _, some _ =>
    { state := State.callInstance setting t.state c site o
      history := t.history.attempt [⟨c, site, o⟩] }
  | _, _ => t

/-- The statements through a variable take effect for one object. -/
def applyAccesses (t : Traced) (c : ContextId) (accesses : Accesses) (o : QualifiedObjectId) : Traced :=
  accesses.calls.foldl (fun t site => t.callInstance setting c site o)
    { t with state := State.applyAccesses setting t.state c { accesses with calls := [] } o }

/-- Objects are new at a node; those of a variable are handed to the statements through it. -/
def react (t : Traced) (id : NodeId) (delta : ObjectSet) : Traced :=
  match t.state.network.graph.pointer? id with
  | some (.var c v) =>
    let t := { t with history := t.history.hand c v delta.toList }
    match setting.program.summary? (setting.program.methodOfVar v) with
    | some summary => delta.toList.foldl (fun t o => t.applyAccesses setting c (summary.accessesOf v) o) t
    | none => t
  | _ => t

/-- The history is empty at the start. -/
def start : Traced := { state := State.start setting }

/-- Does the oldest piece of work, if there is one, and notes what was new. -/
def step (t : Traced) : Option Traced :=
  match t.state.network.pop? with
  | none => none
  | some (item, network) =>
    let s := { t.state with network, iterations := t.state.iterations + 1 }
    match item with
    | .method m => some { t with state := State.enter setting s m }
    | .objects id set =>
      let (network, delta) := s.network.absorb id set
      let t := { state := { s with network }, history := t.history.find id delta }
      some (if delta.isEmpty then t else t.react setting id delta)

/-- At most `count` steps. -/
def steps : Nat → Traced → Traced
  | 0, t => t
  | count + 1, t =>
    match step setting t with
    | none => t
    | some next => steps count next

/-! ## The history changes nothing -/

section Erasure

variable {setting} (t : Traced)

@[simp] theorem state_callInstance (c : ContextId) (site : CallSite) (o : QualifiedObjectId) :
    (t.callInstance setting c site o).state = State.callInstance setting t.state c site o := by
  unfold callInstance State.callInstance
  cases setting.program.callAt? site with
  | none => rfl
  | some call =>
      cases found : t.state.receiver? o with
      | none => rfl
      | some answer => simp

theorem state_foldl {α : Type} {f : Traced → α → Traced} {g : State → α → State}
    (one : ∀ t x, (f t x).state = g t.state x) (xs : List α) :
    (xs.foldl f t).state = xs.foldl g t.state := by
  induction xs generalizing t with
  | nil => rfl
  | cons x rest ih => rw [List.foldl_cons, List.foldl_cons, ih, one]

@[simp] theorem state_applyAccesses (c : ContextId) (accesses : Accesses) (o : QualifiedObjectId) :
    (t.applyAccesses setting c accesses o).state = State.applyAccesses setting t.state c accesses o :=
  state_foldl _ (fun t site => state_callInstance t c site o) _

@[simp] theorem state_react (id : NodeId) (delta : ObjectSet) :
    (t.react setting id delta).state = State.react setting t.state id delta := by
  unfold react State.react
  cases t.state.network.graph.pointer? id with
  | none => rfl
  | some p =>
      cases p with
      | var c v =>
          simp only
          cases setting.program.summary? (setting.program.methodOfVar v) with
          | none => rfl
          | some summary =>
              exact state_foldl _ (fun t o => state_applyAccesses t c (summary.accessesOf v) o) _
      | _ => rfl

theorem state_step : (step setting t).map (·.state) = State.step setting t.state := by
  unfold step State.step
  cases t.state.network.pop? with
  | none => rfl
  | some work =>
      obtain ⟨item, network⟩ := work
      cases item with
      | method m => rfl
      | objects id set =>
          simp only [Option.map_some]
          split <;> simp

/-- A solver with a history goes through the states of the solver. -/
theorem state_steps (count : Nat) : (steps setting count t).state = State.steps setting count t.state := by
  induction count generalizing t with
  | zero => rfl
  | succ count ih =>
      have same := @state_step setting t
      unfold steps State.steps
      cases taken : step setting t with
      | none =>
          rw [taken] at same
          rw [← same]
          rfl
      | some next =>
          rw [taken] at same
          rw [← same]
          exact ih next

end Erasure

end Traced

/-! ## Objects stay as they are -/

namespace State

/-- Two states have the same objects under the same numbers. -/
structure SameObjects (s t : State) : Prop where
  objects : t.objects = s.objects
  heap : t.heap = s.heap

section SameObjects

variable (setting : Setting) (s : State)

theorem SameObjects.refl : s.SameObjects s := ⟨rfl, rfl⟩

variable {s}

theorem SameObjects.trans {t u : State} (first : s.SameObjects t) (second : t.SameObjects u) :
    s.SameObjects u :=
  ⟨second.objects.trans first.objects, second.heap.trans first.heap⟩

theorem SameObjects.after {t u : State} (later : t.SameObjects u) (objects : t.objects = s.objects)
    (heap : t.heap = s.heap) : s.SameObjects u :=
  ⟨later.objects.trans objects, later.heap.trans heap⟩

theorem SameObjects.receiver? {t : State} (same : s.SameObjects t) (o : QualifiedObjectId) :
    t.receiver? o = s.receiver? o := by
  simp only [State.receiver?, same.objects, same.heap]

theorem SameObjects.foldl {α : Type} {f : State → α → State} (one : ∀ s x, SameObjects s (f s x))
    (xs : List α) (s : State) : s.SameObjects (xs.foldl f s) := by
  induction xs generalizing s with
  | nil => exact .refl s
  | cons x rest ih => exact (one s x).trans (ih (f s x))

variable (s)

theorem sameObjects_reportAll (events : List Event) : s.SameObjects (s.reportAll events) := by
  refine .foldl (fun t event => ?_) events s
  exact ⟨rfl, rfl⟩

theorem sameObjects_exchange (caller callee : QualifiedMethod) (call : Invocation VarId) :
    s.SameObjects (exchange setting s caller callee call) := by
  have passed : s.SameObjects (s.passArguments caller.context callee.context call.args
      (setting.program.paramsOf callee.method)) := by
    refine .foldl (fun t pair => ?_) _ s
    exact ⟨rfl, rfl⟩
  unfold exchange
  cases call.result with
  | none => exact passed
  | some result =>
      refine passed.trans (.after (.foldl (fun t v => ?_) _ _) rfl rfl)
      exact ⟨rfl, rfl⟩

theorem sameObjects_bindCall (caller callee : QualifiedMethod) (call : Invocation VarId) :
    s.SameObjects (bindCall setting s caller callee call) := by
  unfold bindCall
  simp only
  split
  · exact .after (sameObjects_exchange setting _ caller callee call) rfl rfl
  · exact .after (sameObjects_exchange setting _ caller callee call) rfl rfl

theorem sameObjects_addCall (site : QualifiedSite) (callee : QualifiedMethod) (call : Invocation VarId) :
    s.SameObjects (addCall setting s site callee call) := by
  unfold addCall
  simp only
  split
  · exact .after (sameObjects_bindCall setting _ site.caller callee call) rfl rfl
  · exact .refl s

theorem sameObjects_receive (callee : QualifiedMethod) (o : QualifiedObjectId) :
    s.SameObjects (receive setting s callee o) := by
  unfold receive
  split <;> exact ⟨rfl, rfl⟩

theorem sameObjects_callInstance (c : ContextId) (site : CallSite) (o : QualifiedObjectId) :
    s.SameObjects (callInstance setting s c site o) := by
  unfold callInstance
  split
  · rename_i call receiver type _ _
    have reports := sameObjects_reportAll s (setting.program.resolveCall (some type) call).events
    simp only
    split
    · exact reports.trans ⟨rfl, rfl⟩
    · refine reports.trans (.trans ?_ (sameObjects_receive setting _ _ o))
      exact .after (sameObjects_addCall setting _ _ _ call) rfl rfl
  · exact .refl s

/-- The statements through a variable make no objects. -/
theorem sameObjects_applyAccesses (c : ContextId) (accesses : Accesses) (o : QualifiedObjectId) :
    s.SameObjects (applyAccesses setting s c accesses o) := by
  unfold applyAccesses
  refine .trans ?_ (.foldl (fun t site => sameObjects_callInstance setting t c site o) _ _)
  refine .trans (.trans (.trans (.foldl ?_ _ _) (.foldl ?_ _ _)) (.foldl ?_ _ _)) (.foldl ?_ _ _)
  all_goals exact fun t x => ⟨rfl, rfl⟩

end SameObjects

/-! ## Sets along a run -/

section Sets

variable {setting : Setting} {s t : State}

/-- Changes put nothing into the sets of pointers, also when they make nodes for them. -/
theorem mem_points_of_changes (before : s.Consistent setting) (after : t.Consistent setting)
    (changes : Changes setting s t) {p : Pointer} {o : QualifiedObjectId} :
    o ∈ t.points p ↔ o ∈ s.points p := by
  rw [mem_points_iff before.nodes, mem_points_iff after.nodes, changes.points]
  constructor
  · rintro ⟨id, pointer, held⟩
    exact ⟨id, pointer?_of_extends changes.grows.network.nodes (before.arrivals (.inl held)) pointer, held⟩
  · rintro ⟨id, pointer, held⟩
    exact ⟨id, changes.grows.network.nodes.key? pointer, held⟩

/-- Absorbing adds what is new to the set of its node. -/
theorem mem_points_absorb_iff (n : Network) (id x : NodeId) (set : ObjectSet) (o : QualifiedObjectId) :
    o ∈ (n.absorb id set).1.points.points x ↔
      o ∈ n.points.points x ∨ x = id ∧ o ∈ (n.absorb id set).2 := by
  obtain ⟨-, -, added, fresh, -⟩ := Network.absorb_spec n id set
  rw [added, fresh]
  by_cases known : o ∈ n.points.points x
  · simp [known]
  · refine or_congr_right (and_congr_right fun here => ?_)
    subst here
    simp [known]

/-- Taking objects puts those that are new into the set of their pointer. -/
theorem mem_points_takeObjects (consistent : s.Consistent setting) {id : NodeId} {set : ObjectSet}
    {rest : Network} (popped : s.network.pop? = some (.objects id set, rest)) {p : Pointer}
    {o : QualifiedObjectId} : o ∈ (s.takeObjects id set rest).points p ↔
      o ∈ s.points p ∨ s.network.graph.pointer? id = some p ∧ o ∈ (rest.absorb id set).2 := by
  have after := consistent_takeObjects consistent popped
  have added : ∀ x, o ∈ (s.takeObjects id set rest).network.points.points x ↔
      o ∈ s.network.points.points x ∨ x = id ∧ o ∈ (rest.absorb id set).2 := by
    obtain ⟨-, -, points⟩ := Network.toList_of_pop? popped
    exact fun x => points ▸ mem_points_absorb_iff rest id x set o
  rw [mem_points_iff consistent.nodes, mem_points_iff after.nodes, graph_takeObjects popped]
  constructor
  · rintro ⟨x, pointer, held⟩
    rcases (added x).mp held with old | ⟨rfl, new⟩
    · exact .inl ⟨x, pointer, old⟩
    · exact .inr ⟨pointer, new⟩
  · rintro (⟨x, pointer, held⟩ | ⟨pointer, new⟩)
    · exact ⟨x, pointer, (added x).mpr (.inl held)⟩
    · exact ⟨id, pointer, (added id).mpr (.inr ⟨rfl, new⟩)⟩

/-- What is new at a node was not in the set of its pointer. -/
theorem not_mem_points_of_new (consistent : s.Consistent setting) {id : NodeId} {set : ObjectSet}
    {rest : Network} (popped : s.network.pop? = some (.objects id set, rest)) {p : Pointer}
    (pointer : s.network.graph.pointer? id = some p) {o : QualifiedObjectId}
    (new : o ∈ (rest.absorb id set).2) : ¬ o ∈ s.points p := by
  obtain ⟨-, -, points⟩ := Network.toList_of_pop? popped
  obtain ⟨-, -, -, fresh, -⟩ := Network.absorb_spec rest id set
  rw [mem_points_iff consistent.nodes]
  rintro ⟨x, same, held⟩
  cases Table.key?_injective consistent.nodes pointer same
  exact ((fresh o).mp new).2 (points ▸ held)

end Sets

end State

/-! ## What a piece of work notes -/

namespace Traced

section Notes

variable {setting : Setting} {t : Traced} {c : ContextId}

/-- What is new at a variable of a method leads to a resolution of every call on the variable. -/
def attemptsFor (setting : Setting) (c : ContextId) (v : VarId) (o : QualifiedObjectId) : List Attempt :=
  (callSitesOf (setting.program.methodOfVar v) (setting.program.bodyOf (setting.program.methodOfVar v))
    (some v)).map (⟨c, ·, o⟩)

theorem mem_attemptsFor (wellFormed : setting.program.WellFormed) {v : VarId} {o : QualifiedObjectId}
    {attempt : Attempt} : attempt ∈ attemptsFor setting c v o ↔
      attempt.context = c ∧ attempt.object = o ∧
        ∃ call, setting.program.callAt? attempt.site = some call ∧ call.receiver = some v := by
  obtain ⟨d, site, x⟩ := attempt
  simp only [attemptsFor, List.mem_map, Attempt.mk.injEq]
  constructor
  · rintro ⟨other, member, rfl, rfl, rfl⟩
    exact ⟨rfl, rfl, (mem_callSitesOf_bodyOf.mp member).2⟩
  · rintro ⟨rfl, rfl, call, statement, receiver⟩
    have owned := wellFormed.owns_of_callAt? statement (v := v) (by simp [Invocation.mentions, receiver])
    exact ⟨site, mem_callSitesOf_bodyOf.mpr ⟨owned.methodOfVar.symm, call, statement, receiver⟩,
      rfl, rfl, rfl⟩

theorem nodup_attemptsFor (v : VarId) (o : QualifiedObjectId) : (attemptsFor setting c v o).Nodup :=
  (nodup_callSitesOf _ _ _).map fun _ _ same => congrArg Attempt.site same

/-- For a receiver that has its number, calls are resolved in their order. -/
theorem history_calls {o : QualifiedObjectId} (sites : List CallSite)
    (calls : ∀ site ∈ sites, ∃ call, setting.program.callAt? site = some call)
    (found : ∃ answer, t.state.receiver? o = some answer) :
    (sites.foldl (fun t site => t.callInstance setting c site o) t).history =
      t.history.attempt (sites.map (⟨c, ·, o⟩)) := by
  induction sites generalizing t with
  | nil => exact (t.history.attempt_nil).symm
  | cons site rest ih =>
      obtain ⟨call, here⟩ := calls site List.mem_cons_self
      obtain ⟨answer, receiver⟩ := found
      have still : (t.callInstance setting c site o).state.receiver? o = some answer := by
        rw [state_callInstance]
        exact ((State.sameObjects_callInstance setting t.state c site o).receiver? o).trans receiver
      rw [List.foldl_cons, ih (fun other member => calls other (List.mem_cons_of_mem site member))
        ⟨answer, still⟩]
      simp [callInstance, here, receiver]

section Accesses

variable {v : VarId} {accesses : Accesses} (listed : accesses.calls = callSitesOf
  (setting.program.methodOfVar v) (setting.program.bodyOf (setting.program.methodOfVar v)) (some v))
include listed

theorem history_applyAccesses {o : QualifiedObjectId} (found : ∃ answer, t.state.receiver? o = some answer) :
    (t.applyAccesses setting c accesses o).history = t.history.attempt (attemptsFor setting c v o) := by
  have calls : ∀ site ∈ accesses.calls, ∃ call, setting.program.callAt? site = some call := by
    intro site member
    rw [listed] at member
    obtain ⟨-, call, here, -⟩ := mem_callSitesOf_bodyOf.mp member
    exact ⟨call, here⟩
  obtain ⟨answer, receiver⟩ := found
  have same := State.sameObjects_applyAccesses setting t.state c { accesses with calls := [] } o
  have resolved := history_calls (c := c) (o := o)
    (t := { t with state := State.applyAccesses setting t.state c { accesses with calls := [] } o })
    accesses.calls calls ⟨answer, (same.receiver? o).trans receiver⟩
  rw [attemptsFor, ← listed]
  exact resolved

theorem history_objects (objects : List QualifiedObjectId)
    (found : ∀ o ∈ objects, ∃ answer, t.state.receiver? o = some answer) :
    (objects.foldl (fun t o => t.applyAccesses setting c accesses o) t).history =
      t.history.attempt (objects.flatMap (attemptsFor setting c v)) := by
  induction objects generalizing t with
  | nil => exact (t.history.attempt_nil).symm
  | cons o rest ih =>
      have still : ∀ x ∈ rest,
          ∃ answer, (t.applyAccesses setting c accesses o).state.receiver? x = some answer := by
        intro x member
        obtain ⟨answer, receiver⟩ := found x (List.mem_cons_of_mem o member)
        rw [state_applyAccesses]
        exact ⟨answer, ((State.sameObjects_applyAccesses setting t.state c _ o).receiver? x).trans receiver⟩
      rw [List.foldl_cons, ih still, history_applyAccesses listed (found o List.mem_cons_self),
        History.attempt_attempt, List.flatMap_cons]

end Accesses

/-- What is noted when objects are new at a variable. -/
theorem history_react (wellFormed : setting.program.WellFormed) {id : NodeId} {delta : ObjectSet}
    {v : VarId} (pointer : t.state.network.graph.pointer? id = some (.var c v))
    (found : ∀ o, o ∈ delta → ∃ answer, t.state.receiver? o = some answer) :
    (t.react setting id delta).history =
      (t.history.hand c v delta.toList).attempt (delta.toList.flatMap (attemptsFor setting c v)) := by
  cases abstract : setting.program.isAbstract (setting.program.methodOfVar v) with
  | true =>
      have nothing (o : QualifiedObjectId) : attemptsFor setting c v o = [] := by
        simp [attemptsFor, wellFormed.abstract abstract, callSitesOf]
      have none : delta.toList.flatMap (attemptsFor setting c v) = [] :=
        List.flatMap_eq_nil_iff.mpr fun o _ => nothing o
      simp [react, pointer, Program.summary?, abstract, none]
  | false =>
      simp only [react, pointer, Program.summary?, abstract, Bool.false_eq_true, if_false]
      exact history_objects (t := { t with history := t.history.hand c v delta.toList }) rfl delta.toList
        fun o member => found o ((ObjectSet.mem_toList delta o).mp member)

/-- Nothing more is noted when objects are new at something else. -/
theorem history_react_of_ne {id : NodeId} {delta : ObjectSet}
    (other : ∀ c v, t.state.network.graph.pointer? id ≠ some (.var c v)) :
    (t.react setting id delta).history = t.history := by
  unfold react
  split
  · rename_i c v pointer
    exact absurd pointer (other c v)
  · rfl

/-- Without new objects there is nothing to react to and nothing to note. -/
theorem react_of_isEmpty {id : NodeId} {delta : ObjectSet} (nothing : delta.isEmpty = true) :
    t.react setting id delta = t := by
  have empty := ObjectSet.toList_of_isEmpty nothing
  unfold react
  split
  · simp only [empty, History.hand, List.map_nil, List.append_nil]
    split <;> rfl
  · rfl

end Notes

/-! ## Exact histories -/

/-- What was noted is what happened to the sets of pointers, and nothing happened twice. -/
structure Exact (setting : Setting) (t : Traced) : Prop where
  /-- No object is new at a node twice. -/
  disjoint : t.history.deltas.Pairwise fun earlier later =>
    earlier.1 = later.1 → ∀ o, o ∈ earlier.2 → ¬ o ∈ later.2
  /-- What was new at a node makes up its set. -/
  union : ∀ id o, (∃ delta, (id, delta) ∈ t.history.deltas ∧ o ∈ delta) ↔
    o ∈ t.state.network.points.points id
  /-- No object of a variable is handed on twice. -/
  once : t.history.handed.Nodup
  /-- The objects of a variable are handed on when they enter its set, and no others are. -/
  handed : ∀ c v o, (c, v, o) ∈ t.history.handed ↔ o ∈ t.state.points (.var c v)
  /-- No call is resolved twice for one receiver object. -/
  distinct : t.history.attempts.Nodup
  /-- A call is resolved for the objects of its receiver, and for no others. -/
  resolved : ∀ c site o, ⟨c, site, o⟩ ∈ t.history.attempts ↔ ∃ call v,
    setting.program.callAt? site = some call ∧ call.receiver = some v ∧ o ∈ t.state.points (.var c v)

section Step

variable {setting : Setting} {t : Traced}

/-- A history is exact as long as sets do not change. -/
theorem Exact.of_points (exact : t.Exact setting) {s : State}
    (points : s.network.points = t.state.network.points)
    (same : ∀ p o, o ∈ s.points p ↔ o ∈ t.state.points p) :
    ({ t with state := s } : Traced).Exact setting where
  disjoint := exact.disjoint
  union id o := by rw [exact.union, points]
  once := exact.once
  handed c v o := by rw [exact.handed, same]
  distinct := exact.distinct
  resolved c site o := by simp only [exact.resolved, same]

section Objects

variable (exact : t.Exact setting) (consistent : t.state.Consistent setting) {id : NodeId}
  {set : ObjectSet} {rest : Network} (popped : t.state.network.pop? = some (.objects id set, rest))
include exact popped

/-- What is new at a node was not new there before. -/
theorem Exact.disjoint_find : (t.history.find id (rest.absorb id set).2).deltas.Pairwise
    fun earlier later => earlier.1 = later.1 → ∀ o, o ∈ earlier.2 → ¬ o ∈ later.2 := by
  obtain ⟨-, -, points⟩ := Network.toList_of_pop? popped
  obtain ⟨-, -, -, fresh, -⟩ := Network.absorb_spec rest id set
  refine List.pairwise_append.mpr ⟨exact.disjoint, List.pairwise_singleton _ _, ?_⟩
  intro earlier before later last same o inside new
  rw [List.mem_singleton.mp last] at same new
  have held := (exact.union earlier.1 o).mp ⟨earlier.2, before, inside⟩
  rw [same, ← points] at held
  exact ((fresh o).mp new).2 held

theorem Exact.union_find (x : NodeId) (o : QualifiedObjectId) :
    (∃ delta, (x, delta) ∈ (t.history.find id (rest.absorb id set).2).deltas ∧ o ∈ delta) ↔
      o ∈ (rest.absorb id set).1.points.points x := by
  obtain ⟨-, -, points⟩ := Network.toList_of_pop? popped
  rw [State.mem_points_absorb_iff, points, ← exact.union]
  simp only [History.find, List.mem_append, List.mem_singleton, Prod.mk.injEq]
  constructor
  · rintro ⟨delta, old | ⟨rfl, rfl⟩, inside⟩
    · exact .inl ⟨delta, old, inside⟩
    · exact .inr ⟨rfl, inside⟩
  · rintro (⟨delta, old, inside⟩ | ⟨rfl, inside⟩)
    · exact ⟨delta, .inl old, inside⟩
    · exact ⟨_, .inr ⟨rfl, rfl⟩, inside⟩

include consistent

/-- The objects that are new at a variable have not been handed on. -/
theorem Exact.once_hand (ordered : (rest.absorb id set).2.Ordered) {c : ContextId} {v : VarId}
    (pointer : t.state.network.graph.pointer? id = some (.var c v)) :
    (t.history.hand c v (rest.absorb id set).2.toList).handed.Nodup := by
  have nodup : (rest.absorb id set).2.toList.Nodup := Ascends.nodup ordered
  refine exact.once.append (nodup.map fun _ _ same => (Prod.mk.inj (Prod.mk.inj same).2).2) ?_
  intro entry before now
  obtain ⟨o, member, rfl⟩ := List.mem_map.mp now
  have new := (ObjectSet.mem_toList _ o).mp member
  exact State.not_mem_points_of_new consistent popped pointer new ((exact.handed c v o).mp before)

theorem Exact.mem_hand {c : ContextId} {v : VarId}
    (pointer : t.state.network.graph.pointer? id = some (.var c v)) (d : ContextId) (w : VarId)
    (o : QualifiedObjectId) : (d, w, o) ∈ (t.history.hand c v (rest.absorb id set).2.toList).handed ↔
      o ∈ (t.state.takeObjects id set rest).points (.var d w) := by
  rw [State.mem_points_takeObjects consistent popped, ← exact.handed, pointer]
  simp only [History.hand, List.mem_append, List.mem_map, ObjectSet.mem_toList, Prod.mk.injEq,
    Option.some.injEq, PointerOf.var.injEq]
  refine or_congr_right ⟨?_, ?_⟩
  · rintro ⟨x, new, rfl, rfl, rfl⟩
    exact ⟨⟨rfl, rfl⟩, new⟩
  · rintro ⟨⟨rfl, rfl⟩, new⟩
    exact ⟨o, new, rfl, rfl, rfl⟩

variable (wellFormed : setting.program.WellFormed)
include wellFormed

/-- A call on a variable has not been resolved for an object that is new there. -/
theorem Exact.distinct_attempt (ordered : (rest.absorb id set).2.Ordered) {c : ContextId} {v : VarId}
    (pointer : t.state.network.graph.pointer? id = some (.var c v)) :
    (t.history.attempt ((rest.absorb id set).2.toList.flatMap (attemptsFor setting c v))).attempts.Nodup := by
  have nodup : (rest.absorb id set).2.toList.Nodup := Ascends.nodup ordered
  refine exact.distinct.append (List.nodup_flatMap.mpr ⟨fun o _ => nodup_attemptsFor v o, ?_⟩) ?_
  · refine nodup.imp fun {first second} differ attempt one other => differ ?_
    exact ((mem_attemptsFor wellFormed).mp one).2.1.symm.trans ((mem_attemptsFor wellFormed).mp other).2.1
  · intro attempt before now
    obtain ⟨o, member, listed⟩ := List.mem_flatMap.mp now
    obtain ⟨rfl, rfl, call, statement, receiver⟩ := (mem_attemptsFor wellFormed).mp listed
    obtain ⟨other, w, there, onVariable, held⟩ := (exact.resolved _ _ _).mp before
    cases statement.symm.trans there
    cases receiver.symm.trans onVariable
    have new := (ObjectSet.mem_toList _ _).mp member
    exact State.not_mem_points_of_new consistent popped pointer new held

theorem Exact.mem_attempt {c : ContextId} {v : VarId}
    (pointer : t.state.network.graph.pointer? id = some (.var c v)) (d : ContextId) (site : CallSite)
    (o : QualifiedObjectId) : ⟨d, site, o⟩ ∈
        (t.history.attempt ((rest.absorb id set).2.toList.flatMap (attemptsFor setting c v))).attempts ↔
      ∃ call w, setting.program.callAt? site = some call ∧ call.receiver = some w ∧
        o ∈ (t.state.takeObjects id set rest).points (.var d w) := by
  simp only [History.attempt, List.mem_append, exact.resolved, List.mem_flatMap, ObjectSet.mem_toList,
    mem_attemptsFor wellFormed, State.mem_points_takeObjects consistent popped, pointer,
    Option.some.injEq, PointerOf.var.injEq]
  constructor
  · rintro (⟨call, w, statement, receiver, held⟩ | ⟨x, new, rfl, rfl, call, statement, receiver⟩)
    · exact ⟨call, w, statement, receiver, .inl held⟩
    · exact ⟨call, v, statement, receiver, .inr ⟨⟨rfl, rfl⟩, new⟩⟩
  · rintro ⟨call, w, statement, receiver, held | ⟨⟨rfl, rfl⟩, new⟩⟩
    · exact .inl ⟨call, w, statement, receiver, held⟩
    · exact .inr ⟨o, new, rfl, rfl, call, statement, receiver⟩

/-- Taking objects of a variable, handing the new ones on and resolving the calls on it for them keeps a
history exact. -/
theorem Exact.take (ordered : (rest.absorb id set).2.Ordered) {c : ContextId} {v : VarId}
    (pointer : t.state.network.graph.pointer? id = some (.var c v)) : Exact setting
      ⟨t.state.takeObjects id set rest,
        ((t.history.find id (rest.absorb id set).2).hand c v (rest.absorb id set).2.toList).attempt
          ((rest.absorb id set).2.toList.flatMap (attemptsFor setting c v))⟩ where
  disjoint := exact.disjoint_find popped
  union := exact.union_find popped
  once := exact.once_hand consistent popped ordered pointer
  handed := exact.mem_hand consistent popped pointer
  distinct := exact.distinct_attempt consistent popped wellFormed ordered pointer
  resolved := exact.mem_attempt consistent popped wellFormed pointer

omit wellFormed in
/-- So does taking objects of something else. -/
theorem Exact.take_of_ne (other : ∀ c v, t.state.network.graph.pointer? id ≠ some (.var c v)) :
    Exact setting ⟨t.state.takeObjects id set rest, t.history.find id (rest.absorb id set).2⟩ := by
  have same (c : ContextId) (v : VarId) (o : QualifiedObjectId) :
      o ∈ (t.state.takeObjects id set rest).points (.var c v) ↔ o ∈ t.state.points (.var c v) := by
    rw [State.mem_points_takeObjects consistent popped, or_iff_left]
    exact fun ⟨pointer, _⟩ => other c v pointer
  refine ⟨exact.disjoint_find popped, exact.union_find popped, exact.once, ?_, exact.distinct, ?_⟩
  · intro c v o
    rw [same]
    exact exact.handed c v o
  · intro c site o
    simp only [same]
    exact exact.resolved c site o

/-- Reacting to what is new keeps the history exact. -/
theorem Exact.react (ordered : (rest.absorb id set).2.Ordered) :
    ((⟨t.state.takeObjects id set rest, t.history.find id (rest.absorb id set).2⟩ : Traced).react setting id
      (rest.absorb id set).2).Exact setting := by
  have after := State.consistent_takeObjects consistent popped
  have graph := State.graph_takeObjects popped
  have arrives : ∀ o, o ∈ (rest.absorb id set).2 → (t.state.takeObjects id set rest).network.Arrives id o :=
    fun o new => .inl ((State.mem_points_absorb_iff rest id id set o).mpr (.inr ⟨rfl, new⟩))
  obtain ⟨runs, -⟩ := State.react_spec wellFormed after arrives
  have same := fun (p : Pointer) (o : QualifiedObjectId) =>
    State.mem_points_of_changes after (runs.consistent wellFormed after) runs.changes (p := p) (o := o)
  -- What is noted decides about the history, and the changes of the reaction leave the sets alone.
  have whole {h : History} (taken : Exact setting ⟨t.state.takeObjects id set rest, h⟩)
      (noted : ((⟨t.state.takeObjects id set rest, t.history.find id (rest.absorb id set).2⟩ : Traced).react
        setting id (rest.absorb id set).2).history = h) :
      ((⟨t.state.takeObjects id set rest, t.history.find id (rest.absorb id set).2⟩ : Traced).react setting
        id (rest.absorb id set).2).Exact setting := by
    have reacted := taken.of_points runs.changes.points same
    rw [← noted, ← @state_react setting
      ⟨t.state.takeObjects id set rest, t.history.find id (rest.absorb id set).2⟩] at reacted
    exact reacted
  by_cases held : ∃ c v, t.state.network.graph.pointer? id = some (.var c v)
  · obtain ⟨c, v, pointer⟩ := held
    refine whole (exact.take consistent popped wellFormed ordered pointer) ?_
    refine history_react wellFormed (by rw [graph]; exact pointer) fun o new => ?_
    have expected : (t.state.takeObjects id set rest).Expected (.holds (.var c v) o) :=
      ⟨id, by rw [graph]; exact pointer, arrives o new⟩
    exact after.exists_receiver? (after.facts expected).2
  · have other : ∀ c v, t.state.network.graph.pointer? id ≠ some (.var c v) :=
      fun c v pointer => held ⟨c, v, pointer⟩
    refine whole (exact.take_of_ne consistent popped other) (history_react_of_ne ?_)
    rw [graph]
    exact other

end Objects

/-- A step keeps the history exact. -/
theorem Exact.step (wellFormed : setting.program.WellFormed) (run : State.Reached setting t.state)
    (exact : t.Exact setting) {next : Traced} (taken : Traced.step setting t = some next) :
    next.Exact setting := by
  have consistent := run.consistent wellFormed
  cases popped : t.state.network.pop? with
  | none => simp [Traced.step, popped] at taken
  | some work =>
      obtain ⟨item, rest⟩ := work
      obtain ⟨whole, graph, points⟩ := Network.toList_of_pop? popped
      cases item with
      | method m =>
          have erased : State.step setting t.state = some next.state := by
            rw [← state_step, taken]
            rfl
          simp only [Traced.step, popped, Option.some.injEq] at taken
          rcases State.step_cases wellFormed consistent erased with
            ⟨m', rest', popped', runs, -⟩ | ⟨id, set, rest', popped', -⟩
          · cases popped.symm.trans popped'
            have before := State.consistent_takeMethod consistent popped
            have same := fun (p : Pointer) (o : QualifiedObjectId) => State.mem_points_of_changes before
              (runs.consistent wellFormed before) runs.changes (p := p) (o := o)
            have entered := exact.of_points (runs.changes.points.trans points) fun p o => by
              rw [same]
              simp only [State.points, State.takeMethod, graph, points]
            rw [← taken] at entered ⊢
            exact entered
          · cases popped.symm.trans popped'
      | objects id set =>
          have ordered := run.ordered wellFormed
          have sent : set.Ordered := ordered.pending id set (by rw [whole]; exact List.mem_cons_self)
          have new := (Network.ordered_absorb (Network.ordered_of_pop ordered popped) id sent).2
          have reacted := exact.react consistent popped wellFormed new
          simp only [Traced.step, popped, Option.some.injEq] at taken
          rw [← taken]
          split
          · rename_i nothing
            rw [react_of_isEmpty nothing] at reacted
            exact reacted
          · exact reacted

/-- At the start nothing was noted and no set has an object. -/
theorem exact_start : (start setting).Exact setting := by
  have empty (p : Pointer) (o : QualifiedObjectId) : ¬ o ∈ (State.start setting).points p := fun held => by
    have present : (State.start setting).Present (.holds p o) := held
    cases State.expected_start (State.consistent_start.expected_of_present present)
  refine ⟨List.Pairwise.nil, fun id o => ?_, List.nodup_nil, fun c v o => ?_, List.nodup_nil,
    fun c site o => ?_⟩
  · simp [start, State.start, Network.empty, Network.announce, PointsMap.points, PointsMap.get?]
  · exact ⟨fun member => absurd member List.not_mem_nil, fun held => absurd held (empty _ o)⟩
  · refine ⟨fun member => absurd member List.not_mem_nil, ?_⟩
    rintro ⟨call, v, -, -, held⟩
    exact absurd held (empty _ o)

theorem Exact.steps (wellFormed : setting.program.WellFormed) (run : State.Reached setting t.state)
    (exact : t.Exact setting) (count : Nat) : (Traced.steps setting count t).Exact setting := by
  induction count generalizing t with
  | zero => exact exact
  | succ count ih =>
      unfold Traced.steps
      cases taken : Traced.step setting t with
      | none => exact exact
      | some next =>
          have erased : State.step setting t.state = some next.state := by
            rw [← state_step, taken]
            rfl
          exact ih (run.step erased) (exact.step wellFormed run taken)

end Step

/-- The solver reacts once to everything that it finds: after any number of steps the history that goes with
them is exact, and after some number of steps they are the whole run. -/
theorem exact_of_run (setting : Setting) (loaded : setting.program.Loaded) :
    (∀ count, (steps setting count (start setting)).state = State.steps setting count (State.start setting) ∧
      (steps setting count (start setting)).Exact setting) ∧
    ∃ count, (steps setting count (start setting)).state = State.run setting ∧
      State.step setting (State.run setting) = none := by
  have wellFormed := loaded.wellFormed
  refine ⟨fun count => ⟨state_steps _ count, exact_start.steps wellFormed .start count⟩, ?_⟩
  obtain ⟨count, finished, same⟩ := State.exists_steps_run wellFormed
  refine ⟨count, ?_, ?_⟩
  · rw [state_steps, same]
    rfl
  · rw [same]
    exact finished

/-- The sample resolves its call once, for its only object. -/
theorem exact_of_run_sample :
    (steps Setting.sample 20 (start Setting.sample)).Exact Setting.sample ∧
      (steps Setting.sample 20 (start Setting.sample)).history.attempts = [⟨0, ⟨0, 1⟩, 0⟩] := by
  constructor
  · exact ((exact_of_run Setting.sample Program.loaded_sample).1 20).2
  · decide +kernel

end Traced

end PointsTo
