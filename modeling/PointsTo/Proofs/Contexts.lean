/- # Contexts -- the numbers that a policy gives out

The contexts of a run are numbered in one table (`ContextTable.Valid`).  The functions of a policy on
numbers give out the number of what its functions on contexts say (`numbers_internStatic`,
`numbers_internInstance`, `numbers_internHeap`), and a number once given out is given out again. -/
import PointsTo.Context.Policy
import PointsTo.Proofs.Numbering

set_option autoImplicit false

namespace PointsTo

/-- Contexts have one number each, and the empty one comes first; without contexts there is no other. -/
structure ContextTable.Valid (t : ContextTable) (policy : Policy) : Prop where
  distinct : t.toList.Nodup
  initial : t.key? ContextTable.emptyId = some []
  single : policy.sensitivity = .insensitive → t.size = 1

/-- A request for the number of a context: the table afterwards, and the number. -/
structure ContextTable.Numbers (t : ContextTable) (policy : Policy)
    (answer : ContextTable × ContextId) (context : Context) : Prop where
  grown : t.Extends answer.1
  valid : answer.1.Valid policy
  read : answer.1.key? answer.2 = some context
  new : ∀ other ∈ answer.1.toList, other ∈ t.toList ∨ other = context

/-! ## Growth -/

section Growth

variable (policy : Policy) (t : ContextTable)

theorem Policy.extends_intern (context : Context) : t.Extends (policy.intern t context).1 := by
  cases same : policy.sensitivity with
  | insensitive =>
      rw [show policy.intern t context = (t, ContextTable.emptyId) by simp [Policy.intern, same]]
      exact .refl t
  | _ =>
      simp only [Policy.intern, same]
      exact Table.extends_intern t context

theorem Policy.extends_internStatic (c : ContextId) (site : CallSite) :
    t.Extends (policy.internStatic t c site).1 := by
  unfold Policy.internStatic
  split
  · exact .refl t
  · exact .refl t
  · exact policy.extends_intern t _

theorem Policy.extends_internInstance (c : ContextId) (site : CallSite) (receiver : Receiver) :
    t.Extends (policy.internInstance t c site receiver).1 :=
  policy.extends_intern t _

theorem Policy.extends_internHeap (c : ContextId) : t.Extends (policy.internHeap t c).1 :=
  policy.extends_intern t _

end Growth

/-! ## Elements -/

section Elements

variable {O : Type} {policy : Policy} {caller heap : ContextOf O} {element : ElementOf O}

theorem Policy.mem_heapContext (member : element ∈ policy.heapContext caller) : element ∈ caller := by
  unfold Policy.heapContext at member
  split at member
  · cases member
  · exact List.mem_of_mem_take member

theorem Policy.mem_staticContext {site : CallSite}
    (member : element ∈ policy.staticContext caller site) :
    element ∈ caller ∨ element = .site site := by
  unfold Policy.staticContext at member
  split at member
  · cases member
  · exact (List.mem_cons.mp (List.mem_of_mem_take member)).symm
  · exact .inl member
  · exact .inl member

theorem Policy.mem_instanceContext {site : CallSite} {object : O} {container : ClassId}
    (member : element ∈ policy.instanceContext caller site heap object container) :
    element ∈ caller ∨ element ∈ heap ∨ element = .site site ∨ element = .object object ∨
      element = .type container := by
  unfold Policy.instanceContext at member
  split at member
  · cases member
  · rcases List.mem_cons.mp (List.mem_of_mem_take member) with same | old
    · exact .inr (.inr (.inl same))
    · exact .inl old
  · rcases List.mem_cons.mp (List.mem_of_mem_take member) with same | old
    · exact .inr (.inr (.inr (.inl same)))
    · exact .inr (.inl old)
  · rcases List.mem_cons.mp (List.mem_of_mem_take member) with same | old
    · exact .inr (.inr (.inr (.inr same)))
    · exact .inr (.inl old)

end Elements

/-! ## Depths -/

section Depths

variable {O : Type} (policy : Policy) (caller heap : ContextOf O)

theorem Policy.length_heapContext_le : (policy.heapContext caller).length ≤ policy.heapDepth := by
  unfold Policy.heapContext
  split
  · exact Nat.zero_le _
  · exact List.length_take_le _ _

theorem Policy.length_staticContext_le (site : CallSite) :
    (policy.staticContext caller site).length ≤ max caller.length policy.depth := by
  unfold Policy.staticContext
  split
  · exact Nat.zero_le _
  · exact Nat.le_trans (List.length_take_le _ _) (Nat.le_max_right _ _)
  · exact Nat.le_max_left _ _
  · exact Nat.le_max_left _ _

theorem Policy.length_instanceContext_le (site : CallSite) (object : O) (container : ClassId) :
    (policy.instanceContext caller site heap object container).length ≤ policy.depth := by
  unfold Policy.instanceContext
  split
  · exact Nat.zero_le _
  · exact List.length_take_le _ _
  · exact List.length_take_le _ _
  · exact List.length_take_le _ _

end Depths

/-! ## Numbers and contexts -/

namespace ContextTable

theorem context_of_key? {t : ContextTable} {c : ContextId} {context : Context}
    (read : t.key? c = some context) : t.context c = context := by
  simp [ContextTable.context, read]

theorem key?_context {t : ContextTable} {c : ContextId} (inUse : c < t.size) :
    t.key? c = some (t.context c) := by
  obtain ⟨context, read⟩ := Table.exists_key?_of_lt inUse
  rw [read, context_of_key? read]

/-- The context of a number is in the table, or the number is not in use. -/
theorem context_eq_nil_or_mem (t : ContextTable) (c : ContextId) :
    t.context c = [] ∨ t.context c ∈ t.toList := by
  cases read : t.key? c with
  | none => exact .inl (by simp [ContextTable.context, read])
  | some context =>
      rw [context_of_key? read]
      exact .inr (Table.mem_of_key? read)

theorem context_of_extends {t u : ContextTable} (grown : t.Extends u) {c : ContextId}
    (inUse : c < t.size) : u.context c = t.context c :=
  context_of_key? (grown.key? (key?_context inUse))

theorem Valid.initial_lt {t : ContextTable} {policy : Policy} (valid : t.Valid policy) :
    ContextTable.emptyId < t.size :=
  Table.lt_of_key? valid.initial

theorem valid_initial (policy : Policy) : ContextTable.initial.Valid policy :=
  ⟨by simp [ContextTable.initial, Table.intern, Table.number?, Table.searchBelow, Table.empty,
      Table.toList],
    rfl, fun _ => rfl⟩

/-- A policy reads the context of a number as the table has it. -/
theorem Valid.contextOf {t : ContextTable} {policy : Policy} (valid : t.Valid policy) (c : ContextId) :
    policy.contextOf t c = t.context c := by
  cases same : policy.sensitivity with
  | insensitive =>
      have one := valid.single same
      simp only [Policy.contextOf, same, ContextTable.context]
      cases c with
      | zero => rw [show t.key? 0 = some [] from valid.initial, Option.getD_some]
      | succ c =>
          cases read : t.key? (c + 1) with
          | none => rfl
          | some context =>
              have := Table.lt_of_key? read
              omega
  | _ => simp [Policy.contextOf, same]

section Numbers

variable {t : ContextTable} {policy : Policy} {answer : ContextTable × ContextId} {context : Context}

/-- A number that was in use before had the context already. -/
theorem Numbers.read_of_lt (numbers : t.Numbers policy answer context) (inUse : answer.2 < t.size) :
    t.key? answer.2 = some context := by
  obtain ⟨old, read⟩ := Table.exists_key?_of_lt inUse
  rw [read]
  exact (numbers.grown.key? read).symm.trans numbers.read

/-- A context that had a number keeps it. -/
theorem Numbers.answer_of_key? (numbers : t.Numbers policy answer context) {c : ContextId}
    (read : t.key? c = some context) : answer.2 = c :=
  Table.key?_injective numbers.valid.distinct numbers.read (numbers.grown.key? read)

theorem Numbers.lt (numbers : t.Numbers policy answer context) : answer.2 < answer.1.size :=
  Table.lt_of_key? numbers.read

end Numbers

section Policies

variable {t : ContextTable} {policy : Policy} (valid : t.Valid policy)
include valid

theorem numbers_intern {context : Context}
    (plain : policy.sensitivity = .insensitive → context = []) :
    t.Numbers policy (policy.intern t context) context := by
  cases same : policy.sensitivity with
  | insensitive =>
      simp only [Policy.intern, same, plain same]
      exact ⟨.refl t, valid, valid.initial, fun other old => .inl old⟩
  | _ =>
      simp only [Policy.intern, same]
      refine ⟨Table.extends_intern t context, ⟨?_, ?_, ?_⟩, Table.key?_intern t context, ?_⟩
      · exact Table.nodup_intern t context valid.distinct
      · exact (Table.extends_intern t context).key? valid.initial
      · intro insensitive
        rw [same] at insensitive
        cases insensitive
      · exact fun other => Table.mem_toList_intern.mp

theorem numbers_internStatic {c : ContextId} (inUse : c < t.size) (site : CallSite) :
    t.Numbers policy (policy.internStatic t c site) (policy.staticContext (t.context c) site) := by
  have general (plain : policy.sensitivity = .insensitive →
      policy.staticContext (t.context c) site = []) := numbers_intern valid plain
  have stays : t.Numbers policy (t, c) (t.context c) :=
    ⟨.refl t, valid, key?_context inUse, fun other old => .inl old⟩
  cases same : policy.sensitivity <;>
    simp only [Policy.internStatic, Policy.staticContext, valid.contextOf, same] at general ⊢
  · exact general (by simp)
  · exact general (by simp)
  · exact stays
  · exact stays

theorem numbers_internInstance (c : ContextId) (site : CallSite) (receiver : Receiver) :
    t.Numbers policy (policy.internInstance t c site receiver)
      (policy.instanceContext (t.context c) site (t.context receiver.context) receiver.object
        receiver.container) := by
  simp only [Policy.internInstance, valid.contextOf]
  exact numbers_intern valid fun insensitive => by simp [Policy.instanceContext, insensitive]

theorem numbers_internHeap (c : ContextId) :
    t.Numbers policy (policy.internHeap t c) (policy.heapContext (t.context c)) := by
  simp only [Policy.internHeap, valid.contextOf]
  exact numbers_intern valid fun insensitive => by simp [Policy.heapContext, insensitive]

end Policies

end ContextTable

end PointsTo
