/- # Depths -- contexts are as deep as their policy says

A number that a policy gives out stands for a list that is cut from the lists of its arguments
(`Policy.Lists`), in the table of a run and in every table that further requests make of it.  The lengths
follow along a run (`State.Shallow`): an object is made in the context of a method, so its heap context has at
most as many elements as both depths allow, and a method that is called on an object has at most one element
more.  Each bound rests on the other, so they are kept together.

Main statement: `depths_of_reached`. -/
import PointsTo.Proofs.Bounds
import PointsTo.Proofs.Refinement

set_option autoImplicit false

namespace PointsTo

/-! ## Lengths -/

namespace Policy

variable {O : Type} {policy : Policy} {caller heap : ContextOf O}

theorem methodLength_le_depth (policy : Policy) : policy.methodLength ≤ policy.depth := by
  unfold methodLength
  cases policy.sensitivity <;> simp

theorem methodLength_le_heapDepth_succ
    (onObjects : policy.sensitivity = .object ∨ policy.sensitivity = .type) :
    policy.methodLength ≤ policy.heapDepth + 1 := by
  unfold methodLength
  rcases onObjects with same | same <;> simp [same]

theorem heapLength_le_min (policy : Policy) : policy.heapLength ≤ min policy.depth policy.heapDepth := by
  unfold heapLength
  cases policy.sensitivity <;> simp

theorem heapLength_le_methodLength (policy : Policy) : policy.heapLength ≤ policy.methodLength := by
  unfold heapLength methodLength
  cases policy.sensitivity <;> simp only <;> omega

theorem length_staticContext (short : caller.length ≤ policy.methodLength) (site : CallSite) :
    (policy.staticContext caller site).length ≤ policy.methodLength := by
  cases same : policy.sensitivity with
  | insensitive => simp [staticContext, same]
  | callSite =>
      simp only [staticContext, methodLength, Context.extend, same]
      exact List.length_take_le _ _
  | object | type => simpa only [staticContext, same] using short

/-- The context of a method on an object has at most one element more than the heap context. -/
theorem length_instanceContext (short : heap.length ≤ policy.heapLength) (site : CallSite) (object : O)
    (container : ClassId) :
    (policy.instanceContext caller site heap object container).length ≤ policy.methodLength := by
  cases same : policy.sensitivity with
  | insensitive => simp [instanceContext, same]
  | callSite =>
      simp only [instanceContext, methodLength, Context.extend, same]
      exact List.length_take_le _ _
  | object | type =>
      simp only [heapLength, same] at short
      simp only [instanceContext, methodLength, Context.extend, same, List.length_take, List.length_cons]
      omega

theorem length_heapContext (short : caller.length ≤ policy.methodLength) :
    (policy.heapContext caller).length ≤ policy.heapLength := by
  cases same : policy.sensitivity with
  | insensitive => simp [heapContext, same]
  | callSite | object | type =>
      simp only [methodLength, same] at short
      simp only [heapContext, heapLength, Context.truncate, same, List.length_take]
      omega

end Policy

/-! ## Lists -/

namespace Policy

/-- Every request for a number in a table is answered with that of a list: the first elements of the list of
the caller, the receiver or the method, with the call site, the receiver or its class in front for a call. -/
structure Lists (policy : Policy) (t : ContextTable) : Prop where
  /-- Without contexts there is only the empty one. -/
  insensitive : policy.sensitivity = .insensitive → ∀ caller site receiver,
    t.Numbers policy (policy.internStatic t caller site) [] ∧
      t.Numbers policy (policy.internInstance t caller site receiver) []
  callSite : policy.sensitivity = .callSite → ∀ caller site receiver,
    t.Numbers policy (policy.internStatic t caller site)
        ((.site site :: t.context caller).take policy.depth) ∧
      t.Numbers policy (policy.internInstance t caller site receiver)
        ((.site site :: t.context caller).take policy.depth)
  object : policy.sensitivity = .object → ∀ caller site receiver,
    policy.internStatic t caller site = (t, caller) ∧
      t.Numbers policy (policy.internInstance t caller site receiver)
        ((.object receiver.object :: t.context receiver.context).take policy.depth)
  type : policy.sensitivity = .type → ∀ caller site receiver,
    policy.internStatic t caller site = (t, caller) ∧
      t.Numbers policy (policy.internInstance t caller site receiver)
        ((.type receiver.container :: t.context receiver.context).take policy.depth)
  heap : ∀ c < t.size,
    t.Numbers policy (policy.internHeap t c) ((t.context c).take policy.heapDepth)

/-- A table that further requests make of a table; the caller of a call has a number in use. -/
inductive Requests (policy : Policy) (t : ContextTable) : ContextTable → Prop
  | none : Requests policy t t
  | static {u : ContextTable} (before : Requests policy t u) {caller : ContextId}
      (inUse : caller < u.size) (site : CallSite) :
      Requests policy t (policy.internStatic u caller site).1
  | onObject {u : ContextTable} (before : Requests policy t u) (caller : ContextId) (site : CallSite)
      (receiver : Receiver) : Requests policy t (policy.internInstance u caller site receiver).1
  | heap {u : ContextTable} (before : Requests policy t u) (c : ContextId) :
      Requests policy t (policy.internHeap u c).1

variable {t u : ContextTable} {policy : Policy}

theorem Requests.valid (requests : policy.Requests t u) (valid : t.Valid policy) : u.Valid policy := by
  induction requests with
  | none => exact valid
  | static _ inUse site ih => exact (ContextTable.numbers_internStatic ih inUse site).valid
  | onObject _ caller site receiver ih =>
      exact (ContextTable.numbers_internInstance ih caller site receiver).valid
  | heap _ c ih => exact (ContextTable.numbers_internHeap ih c).valid

theorem lists_of_valid (valid : t.Valid policy) : policy.Lists t := by
  have called := ContextTable.numbers_internInstance valid
  constructor
  case insensitive =>
    intro same caller site receiver
    have numbers := called caller site receiver
    simp only [instanceContext, same] at numbers
    have static : policy.internStatic t caller site = policy.internInstance t caller site receiver := by
      simp [internStatic, internInstance, intern, same]
    exact ⟨static ▸ numbers, numbers⟩
  case callSite =>
    intro same caller site receiver
    have numbers := called caller site receiver
    simp only [instanceContext, same, Context.extend] at numbers
    have static : policy.internStatic t caller site = policy.internInstance t caller site receiver := by
      simp [internStatic, internInstance, staticContext, instanceContext, same]
    exact ⟨static ▸ numbers, numbers⟩
  case object =>
    intro same caller site receiver
    have numbers := called caller site receiver
    simp only [instanceContext, same, Context.extend] at numbers
    exact ⟨by simp [internStatic, same], numbers⟩
  case type =>
    intro same caller site receiver
    have numbers := called caller site receiver
    simp only [instanceContext, same, Context.extend] at numbers
    exact ⟨by simp [internStatic, same], numbers⟩
  case heap =>
    intro c inUse
    have numbers := ContextTable.numbers_internHeap valid c
    cases same : policy.sensitivity with
    | insensitive =>
        have single := valid.single same
        have only : c = ContextTable.emptyId := Nat.lt_one_iff.mp (single ▸ inUse)
        rw [only, ContextTable.context_of_key? valid.initial] at numbers ⊢
        simpa [heapContext, same] using numbers
    | _ =>
        simp only [heapContext, same] at numbers
        exact numbers

end Policy

namespace State

variable {setting : Setting} {s t : State}

/-- No context is longer than those of methods may be, and no heap context longer than those of objects. -/
structure Shallow (setting : Setting) (s : State) : Prop where
  contexts : ∀ {context}, context ∈ s.contexts.toList → context.length ≤ setting.policy.methodLength
  objects : ∀ {held}, held ∈ s.objects.toList →
    (s.contexts.context held.context).length ≤ setting.policy.heapLength

/-- The context of a number is short, also when the number is not in use. -/
theorem Shallow.length_context_le (shallow : s.Shallow setting) (c : ContextId) :
    (s.contexts.context c).length ≤ setting.policy.methodLength := by
  rcases s.contexts.context_eq_nil_or_mem c with unused | inTable
  · rw [unused]
    exact Nat.zero_le _
  · exact shallow.contexts inTable

/-- A request adds one context, and the heap contexts of objects stay. -/
theorem Shallow.of_numbers (shallow : s.Shallow setting) (valid : s.Valid setting)
    {answer : ContextTable × ContextId} {context : Context}
    (numbers : s.contexts.Numbers setting.policy answer context)
    (short : context.length ≤ setting.policy.methodLength) :
    ({ s with contexts := answer.1 } : State).Shallow setting where
  contexts member := by
    rcases numbers.new _ member with old | rfl
    · exact shallow.contexts old
    · exact short
  objects member := by
    have same := ContextTable.context_of_extends numbers.grown (valid.parts member).1
    rw [show ({ s with contexts := answer.1 } : State).contexts = answer.1 from rfl, same]
    exact shallow.objects member

theorem Change.shallow (consistent : s.Consistent setting) (change : Change setting s t)
    (shallow : s.Shallow setting) : t.Shallow setting := by
  have valid := consistent.toValid
  cases change with
  | report _ => exact ⟨shallow.contexts, shallow.objects⟩
  | node _ => exact ⟨shallow.contexts, shallow.objects⟩
  | flow _ _ => exact ⟨shallow.contexts, shallow.objects⟩
  | seed _ _ _ => exact ⟨shallow.contexts, shallow.objects⟩
  | call _ _ _ => exact ⟨shallow.contexts, shallow.objects⟩
  | @numberObject c site allocates =>
      have numbers := ContextTable.numbers_internHeap consistent.contexts c
      have short := Policy.length_heapContext (shallow.length_context_le c)
      have kept := shallow.of_numbers valid numbers
        (Nat.le_trans short (Policy.heapLength_le_methodLength _))
      refine ⟨kept.contexts, fun {held} member => ?_⟩
      rcases Table.mem_toList_intern.mp member with old | rfl
      · exact kept.objects old
      · simp only [withObject, ContextTable.context_of_key? numbers.read]
        exact short
  | @numberStatic c inUse site call statement =>
      exact shallow.of_numbers valid (ContextTable.numbers_internStatic consistent.contexts inUse site)
        (Policy.length_staticContext (shallow.length_context_le c) site)
  | @numberInstance c site call statement o receiver type found =>
      obtain ⟨held, object, read, -, rfl, -⟩ := receiver?_eq_some found
      exact shallow.of_numbers valid (ContextTable.numbers_internInstance consistent.contexts c site _)
        (Policy.length_instanceContext (shallow.objects (Table.mem_of_key? read)) site _ _)

theorem Reached.shallow (wellFormed : setting.program.WellFormed) (run : Reached setting s) :
    s.Shallow setting := by
  refine run.invariant wellFormed ?_ Change.shallow ?_ ?_
  · refine ⟨fun member => ?_, fun member => ?_⟩
    · rcases Table.mem_toList_intern.mp member with old | rfl
      · cases old
      · exact Nat.zero_le _
    · cases member
  · exact fun _ _ shallow => ⟨shallow.contexts, shallow.objects⟩
  · exact fun _ _ shallow => ⟨shallow.contexts, shallow.objects⟩

/-- The contexts of reachable methods and of objects are in use, and no longer than their depths. -/
structure WithinDepths (setting : Setting) (s : State) : Prop where
  methods : ∀ m ∈ s.calls.reachable, ∃ context, s.contexts.key? m.context = some context ∧
    context.length ≤ setting.policy.depth ∧
    (setting.policy.sensitivity = .object ∨ setting.policy.sensitivity = .type →
      context.length ≤ setting.policy.heapDepth + 1)
  objects : ∀ held ∈ s.objects.toList, ∃ context, s.contexts.key? held.context = some context ∧
    context.length ≤ min setting.policy.depth setting.policy.heapDepth

theorem Shallow.withinDepths (shallow : s.Shallow setting) (valid : s.Valid setting) :
    s.WithinDepths setting where
  methods m marked := by
    have expected : s.Expected (.reach m.context m.method) := .inl marked
    have inUse : m.context < s.contexts.size := valid.facts expected
    have short := shallow.length_context_le m.context
    exact ⟨_, ContextTable.key?_context inUse, Nat.le_trans short (Policy.methodLength_le_depth _),
      fun onObjects => Nat.le_trans short (Policy.methodLength_le_heapDepth_succ onObjects)⟩
  objects held member :=
    ⟨_, ContextTable.key?_context (valid.parts member).1,
      Nat.le_trans (shallow.objects member) (Policy.heapLength_le_min _)⟩

/-- In every state of a run the contexts of methods and objects are within the depths, and in its table, as in
those that further requests make of it, every request is answered with the list that it is meant to be. -/
theorem depths_of_reached (loaded : setting.program.Loaded) (run : Reached setting s) :
    s.WithinDepths setting ∧ ∀ t, setting.policy.Requests s.contexts t → setting.policy.Lists t := by
  have valid := (run.consistent loaded.wellFormed).toValid
  exact ⟨(run.shallow loaded.wellFormed).withinDepths valid,
    fun t requests => Policy.lists_of_valid (requests.valid valid.contexts)⟩

end State

/-- A node that makes a node, which makes a node, and so on. -/
def Description.nest : Description where
  classes := [
    { name := "Node"
      methods := [
        { name := "main", isStatic := true, body := [
          .new "first" "Node", .invoke .virtual "Node" "grow/0" (some "first") [] none] },
        { name := "grow", body := [
          .new "next" "Node", .invoke .virtual "Node" "grow/0" (some "next") [] none] }] }]
  entry := ⟨"Node", "main/0"⟩

namespace State

/-- Nodes within nodes, as deep as methods with three objects and heap contexts of one object can tell. -/
def nested : Setting := { Description.nest.setting with policy := ⟨.object, 3, 1⟩ }

/-- Heap contexts have one object, so no method has three; the heap context of the innermost method is that of
the node which it is called on. -/
theorem depths_of_reached_nest :
    ((State.run nested).WithinDepths nested ∧
      ∀ t, nested.policy.Requests (State.run nested).contexts t → nested.policy.Lists t) ∧
    (State.run nested).contexts.toList =
      [[], [.object 0], [.object 1, .object 0], [.object 1], [.object 1, .object 1]] ∧
    (State.run nested).objects.toList = [⟨0, 0⟩, ⟨1, 1⟩, ⟨3, 1⟩] ∧
    (nested.policy.internHeap (State.run nested).contexts 4).2 = 3 := by
  have loaded : nested.program.Loaded := ⟨Description.nest, by decide +kernel⟩
  exact ⟨depths_of_reached loaded (reached_run loaded.wellFormed).1, by decide +kernel, by decide +kernel,
    by decide +kernel⟩

end State

end PointsTo
