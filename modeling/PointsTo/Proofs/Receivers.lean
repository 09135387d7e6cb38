/- # Receivers -- receiver objects as contexts keep receivers apart

With receiver objects as contexts a call on an object puts the object in front of its heap context.  When a
method never assigns its receiver variable, only such calls put objects into it, so the context tells the
object: what the variable holds in a context is the first element of that context (`solution_fronted`).  A
heap context that the extension leaves whole tells the heap context as well, so there is one object at most.

Main statement: `receivers_of_reached`. -/
import PointsTo.Proofs.Refinement

set_option autoImplicit false

namespace PointsTo

/-- The variable that a statement assigns. -/
def Statement.target? {V A : Type} : Statement V A → Option V
  | .new lhs _ | .copy lhs _ | .loadStatic lhs _ | .loadField lhs _ _ | .loadArray lhs _ => some lhs
  | .invoke call => call.result
  | .storeStatic _ _ | .storeField _ _ _ | .storeArray _ _ | .ret _ | .nop => none

theorem Statement.target?_mem_mentions {V A : Type} {s : Statement V A} {v : V}
    (assigned : s.target? = some v) : v ∈ s.mentions := by
  cases s with
  | invoke call =>
      have result : call.result = some v := assigned
      simp [Statement.mentions, Invocation.mentions, result]
  | _ => simp_all [Statement.target?, Statement.mentions]

namespace Program

/-- A variable is the receiver of a method that takes it neither as a parameter nor assigns it. -/
structure KeepsReceiver (p : Program) (m : MethodId) (v : VarId) : Prop where
  this : p.thisOf m = some v
  params : v ∉ p.paramsOf m
  targets : ∀ s ∈ p.bodyOf m, s.target? ≠ some v

instance (p : Program) (m : MethodId) (v : VarId) : Decidable (p.KeepsReceiver m v) :=
  decidable_of_iff (p.thisOf m = some v ∧ v ∉ p.paramsOf m ∧ ∀ s ∈ p.bodyOf m, s.target? ≠ some v)
    ⟨fun ⟨this, params, targets⟩ => ⟨this, params, targets⟩,
      fun keeps => ⟨keeps.this, keeps.params, keeps.targets⟩⟩

section WellFormed

variable {p : Program} (wellFormed : p.WellFormed) {m n : MethodId} {v : VarId}
include wellFormed

/-- A kept receiver belongs to its method only. -/
theorem KeepsReceiver.eq_of_owns (keeps : p.KeepsReceiver m v) (owned : p.Owns n v) : m = n := by
  have own : p.Owns m v := wellFormed.this keeps.this
  rw [← own.methodOfVar, owned.methodOfVar]

theorem not_keepsReceiver_of_target {s : Stmt} (statement : s ∈ p.bodyOf n)
    (assigned : s.target? = some v) : ¬ p.KeepsReceiver m v := by
  intro keeps
  have owned := wellFormed.body statement (Statement.target?_mem_mentions assigned)
  have same := keeps.eq_of_owns wellFormed owned
  subst same
  exact keeps.targets s statement assigned

theorem not_keepsReceiver_of_param (parameter : v ∈ p.paramsOf n) : ¬ p.KeepsReceiver m v := by
  intro keeps
  have same := keeps.eq_of_owns wellFormed (wellFormed.params parameter)
  subst same
  exact keeps.params parameter

end WellFormed

end Program

/-! ## Extended contexts -/

namespace Context

variable {α : Type} {first second : List α} {a b : α} {depth : Nat}

/-- An extended context has the new element in front. -/
theorem exists_extend_eq_cons (context : List α) (a : α) (deep : 1 ≤ depth) :
    ∃ rest, extend context a depth = a :: rest := by
  obtain ⟨k, rfl⟩ := Nat.exists_eq_add_of_le' deep
  exact ⟨context.take k, rfl⟩

/-- Contexts that are short enough stay whole behind a new element. -/
theorem extend_injective (shortFirst : first.length < depth) (shortSecond : second.length < depth)
    (same : extend first a depth = extend second b depth) : a = b ∧ first = second := by
  have wholeFirst : extend first a depth = a :: first := List.take_of_length_le shortFirst
  have wholeSecond : extend second b depth = b :: second := List.take_of_length_le shortSecond
  rw [wholeFirst, wholeSecond] at same
  exact List.cons.inj same

end Context

/-! ## Receivers in front -/

section Fronted

variable (setting : Setting)

/-- Heap contexts have at most their depth, a kept receiver holds an object only in the context that has the
object in front of its heap context, and nothing flows to a kept receiver. -/
def Fronted : Fact (ContextOf Origin) QualifiedOrigin → Prop
  | .holds p o => o.context.length ≤ setting.policy.heapDepth ∧
      ∀ c m v, p = .var c v → setting.program.KeepsReceiver m v →
        c = Context.extend o.context (.object o.origin) setting.policy.depth
  | .flow _ target => ∀ c m v, target = .var c v → ¬ setting.program.KeepsReceiver m v
  | .reach _ _ | .call _ _ _ _ => True

variable {setting}

/-- Nothing flows to a variable that is not a kept receiver, by what it is. -/
theorem fronted_flow {source : PointerOf (ContextOf Origin) QualifiedOrigin} {c : ContextOf Origin}
    {v : VarId} (free : ∀ m, ¬ setting.program.KeepsReceiver m v) :
    Fronted setting (.flow source (.var c v)) := by
  intro c' m v' same keeps
  cases same
  exact free m keeps

theorem fronted_flow_of_target (wellFormed : setting.program.WellFormed)
    {source : PointerOf (ContextOf Origin) QualifiedOrigin} {c : ContextOf Origin} {m : MethodId}
    {s : Stmt} {v : VarId} (statement : s ∈ setting.program.bodyOf m) (assigned : s.target? = some v) :
    Fronted setting (.flow source (.var c v)) :=
  fronted_flow fun _ => Program.not_keepsReceiver_of_target wellFormed statement assigned

/-- What holds of receivers is closed under the rules: a call on an object is the only one that reaches a
kept receiver, and it puts the object in front. -/
theorem solution_fronted (wellFormed : setting.program.WellFormed)
    (sensitivity : setting.policy.sensitivity = .object) :
    Solution setting.program setting.domain setting.entry (Fronted setting) := by
  intro fact follows
  cases follows with
  | entry => trivial
  | ofMethod reached demanded =>
      cases demanded with
      | new statement =>
          refine ⟨setting.policy.length_heapContext_le _, fun c m v same keeps => ?_⟩
          cases same
          exact absurd keeps (Program.not_keepsReceiver_of_target wellFormed statement rfl)
      | copy statement => exact fronted_flow_of_target wellFormed statement rfl
      | loadStatic statement => exact fronted_flow_of_target wellFormed statement rfl
      | storeStatic statement =>
          intro c m v same
          cases same
      | call statement static resolved => trivial
  | ofObject reached held demanded =>
      cases demanded with
      | loadField statement => exact fronted_flow_of_target wellFormed statement rfl
      | storeField statement =>
          intro c m v same
          cases same
      | loadArray statement => exact fronted_flow_of_target wellFormed statement rfl
      | storeArray statement =>
          intro c m v same
          cases same
      | call statement receiver resolved => trivial
      | this statement receiver resolved own =>
          refine ⟨held.1, fun c m v same keeps => ?_⟩
          cases same
          simp only [Setting.domain, Policy.instanceContext, sensitivity]
  | ofCall called demanded =>
      cases demanded with
      | callee => trivial
      | argument statement passed =>
          have parameter := (List.of_mem_zip passed).2
          exact fronted_flow fun _ => Program.not_keepsReceiver_of_param wellFormed parameter
      | result statement wanted given =>
          exact fronted_flow_of_target wellFormed (Program.mem_bodyOf_of_callAt? statement) wanted
  | subset edge held =>
      refine ⟨held.1, fun c m v same keeps => ?_⟩
      exact absurd keeps (edge c m v same)

end Fronted

/-! ## Receivers in a state -/

namespace State

section Read

variable {setting : Setting} {s : State} (valid : s.Valid setting)
include valid

/-- A context that reads with an object in front has that object in front. -/
theorem exists_cons_of_readContext {c : ContextId} {context : Context} {o : ObjectId}
    {rest : ContextOf Origin} (numbered : s.contexts.key? c = some context) (inUse : o < s.heap.size)
    (reads : s.readContext setting c = .object (s.readOrigin setting o) :: rest) :
    ∃ others, context = .object o :: others := by
  rw [readContext_of_key? numbered] at reads
  obtain ⟨element, others, rfl, first, -⟩ := List.map_eq_cons_iff.mp reads
  refine ⟨others, ?_⟩
  cases element with
  | object o' =>
      have bound : o' < s.heap.size :=
        valid.elements (Table.mem_of_key? numbered) List.mem_cons_self
      simp only [ElementOf.map, ElementOf.object.injEq] at first
      rw [readOrigin_injective valid bound inUse first]
  | site value => cases first
  | type value => cases first

end Read

section Run

variable {setting : Setting} {s : State} {m : MethodId} {v : VarId}

/-- What a kept receiver holds in a context is what the context has in front. -/
theorem Reached.front (wellFormed : setting.program.WellFormed)
    (sensitivity : setting.policy.sensitivity = .object) (run : Reached setting s)
    (keeps : setting.program.KeepsReceiver m v) {c : ContextId} {o : QualifiedObjectId}
    (held : o ∈ s.points (.var c v)) :
    (s.readObject setting o).context.length ≤ setting.policy.heapDepth ∧
      s.readContext setting c = Context.extend (s.readObject setting o).context
        (.object (s.readObject setting o).origin) setting.policy.depth := by
  have consistent := run.consistent wellFormed
  have present : s.Present (.holds (.var c v) o) := held
  have known := run.knows wellFormed (solution_fronted wellFormed sensitivity)
    (consistent.expected_of_present present)
  exact ⟨known.2.1, known.2.2 _ m v rfl keeps⟩

/-- With receiver objects as contexts, a receiver that its method never assigns holds in each context only
the object in front of the context.  So contexts with different objects in front have no object in common,
and a context that keeps whole heap contexts behind that object has one object at most. -/
theorem receivers_of_reached (loaded : setting.program.Loaded) {k h : Nat}
    (policy : setting.policy = ⟨.object, k, h⟩) (deep : 1 ≤ k) (run : Reached setting s)
    (keeps : setting.program.KeepsReceiver m v) :
    (∀ c o, o ∈ s.points (.var c v) → ∃ held others, s.objects.key? o = some held ∧
      s.contexts.key? c = some (.object held.object :: others)) ∧
    (∀ c d, (s.contexts.context c).head? ≠ (s.contexts.context d).head? →
      ∀ o, ¬ (o ∈ s.points (.var c v) ∧ o ∈ s.points (.var d v))) ∧
    (h ≤ k - 1 → ∀ c a b, a ∈ s.points (.var c v) → b ∈ s.points (.var c v) → a = b) := by
  have wellFormed := loaded.wellFormed
  have sensitivity : setting.policy.sensitivity = .object := by rw [policy]
  have consistent := run.consistent wellFormed
  have inUse {c : ContextId} {o : QualifiedObjectId} (held : o ∈ s.points (.var c v)) :
      c < s.contexts.size ∧ o < s.objects.size := by
    have present : s.Present (.holds (.var c v) o) := held
    exact consistent.facts (consistent.expected_of_present present)
  have front {c : ContextId} {o : QualifiedObjectId} (member : o ∈ s.points (.var c v)) :
      ∃ held others, s.objects.key? o = some held ∧
        s.contexts.key? c = some (.object held.object :: others) := by
    obtain ⟨context, numbered⟩ := Table.exists_key?_of_lt (inUse member).1
    obtain ⟨held, key⟩ := Table.exists_key?_of_lt (inUse member).2
    obtain ⟨-, reads⟩ := run.front wellFormed sensitivity keeps member
    rw [readObject_of_key? key, policy] at reads
    obtain ⟨rest, extended⟩ := Context.exists_extend_eq_cons _ _ deep
    have object := (consistent.parts (Table.mem_of_key? key)).2
    obtain ⟨others, rfl⟩ :=
      exists_cons_of_readContext consistent.toValid numbered object (reads.trans extended)
    exact ⟨held, others, key, numbered⟩
  refine ⟨fun c o member => front member, ?_, ?_⟩
  · rintro c d differ o ⟨inFirst, inSecond⟩
    obtain ⟨held, others, key, first⟩ := front inFirst
    obtain ⟨held', others', key', second⟩ := front inSecond
    have same : held' = held := Option.some.inj (key'.symm.trans key)
    apply differ
    rw [ContextTable.context_of_key? first, ContextTable.context_of_key? second, same]
    rfl
  · intro short c a b first second
    obtain ⟨lengthFirst, readsFirst⟩ := run.front wellFormed sensitivity keeps first
    obtain ⟨lengthSecond, readsSecond⟩ := run.front wellFormed sensitivity keeps second
    rw [policy] at lengthFirst readsFirst lengthSecond readsSecond
    -- Behind the object there is room for the whole heap context.
    have room : h < k := by omega
    obtain ⟨object, context⟩ := Context.extend_injective (Nat.lt_of_le_of_lt lengthFirst room)
      (Nat.lt_of_le_of_lt lengthSecond room) (readsFirst.symm.trans readsSecond)
    apply readObject_injective consistent.toValid (inUse first).2 (inUse second).2
    exact congrArg₂ QualifiedOrigin.mk context (ElementOf.object.inj object)

end Run

end State

/-! ## A sample -/

/-- The analysis of the boxes with the receiver object as context. -/
def Setting.boxesByObject : Setting := { Description.boxes.setting with policy := ⟨.object, 1, 0⟩ }

/-- The variable through which a box is filled. -/
def Description.filled : VarId := 5

open State Setting Description in
/-- Both boxes of the sample are filled through one variable, each in a context of its own. -/
theorem State.receivers_of_reached_boxes :
    ((∀ c o, o ∈ (run boxesByObject).points (.var c filled) → ∃ held others,
        (run boxesByObject).objects.key? o = some held ∧
        (run boxesByObject).contexts.key? c = some (.object held.object :: others)) ∧
      (∀ c d, ((run boxesByObject).contexts.context c).head? ≠
          ((run boxesByObject).contexts.context d).head? →
        ∀ o, ¬ (o ∈ (run boxesByObject).points (.var c filled) ∧
          o ∈ (run boxesByObject).points (.var d filled))) ∧
      (0 ≤ 1 - 1 → ∀ c a b, a ∈ (run boxesByObject).points (.var c filled) →
        b ∈ (run boxesByObject).points (.var c filled) → a = b)) ∧
    (run boxesByObject).contexts.toList = [[], [.object 0], [.object 1]] ∧
    ((run boxesByObject).points (.var 1 filled)).toList = [0] ∧
    ((run boxesByObject).points (.var 2 filled)).toList = [1] := by
  have loaded : boxesByObject.program.Loaded := Program.loaded_boxes
  have keeps : boxesByObject.program.KeepsReceiver 1 filled := by decide +kernel
  constructor
  · exact receivers_of_reached loaded rfl (Nat.le_refl 1) (reached_run loaded.wellFormed).1 keeps
  · decide +kernel

end PointsTo
