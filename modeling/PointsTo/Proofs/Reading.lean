/- # Reading -- facts with contexts and objects spelled out

The numbers of a state depend on the order in which it met contexts and objects.  Read through its tables, a
context is a list of elements and an object is an origin in such a context (`State.read`), and the rules have
a meaning that no state enters into (`Setting.domain`).  Reading is faithful: numbers in use read differently
when they differ (`readContext_injective`, `readObject_injective`), they read the same in all later states
(`read_of_grows`), and what the rules ask for under numbers reads as what they ask for (`read_object`,
`read_callStatic`, `read_callInstance`). -/
import PointsTo.Proofs.Facts

set_option autoImplicit false

namespace PointsTo

/-- What an object in a heap context stands for. -/
structure QualifiedOrigin where
  context : ContextOf Origin
  origin : Origin
  deriving DecidableEq, Repr

/-- What the rules mean without numbers. -/
def Setting.domain (setting : Setting) : Domain (ContextOf Origin) QualifiedOrigin where
  initial := []
  object context site :=
    ⟨setting.policy.heapContext context, setting.program.originAt setting.heapModel site⟩
  type o := o.origin.typeIn setting.program
  callStatic context site := setting.policy.staticContext context site
  callInstance context site o :=
    setting.policy.instanceContext context site o.context o.origin
      (o.origin.containerIn setting.program)

namespace State

variable (setting : Setting) (s : State)

/-- What an object stands for; a number that is not in use is read as the first site. -/
def readOrigin (o : ObjectId) : Origin :=
  ((s.heap.object? o).map (·.origin setting.heapModel)).getD (.site 0)

/-- The context of a number. -/
def readContext (c : ContextId) : ContextOf Origin :=
  (s.contexts.context c).map (ElementOf.map (s.readOrigin setting))

/-- What an object in a heap context stands for. -/
def readObject (o : QualifiedObjectId) : QualifiedOrigin :=
  match s.objects.key? o with
  | some held => ⟨s.readContext setting held.context, s.readOrigin setting held.object⟩
  | none => ⟨[], .site 0⟩

/-- The fact with contexts and objects spelled out. -/
def read (fact : Fact ContextId QualifiedObjectId) : Fact (ContextOf Origin) QualifiedOrigin :=
  fact.map (s.readContext setting) (s.readObject setting)

section Parts

variable {setting : Setting} {s : State}

theorem readOrigin_of_object? {o : ObjectId} {object : HeapObject} (made : s.heap.object? o = some object) :
    s.readOrigin setting o = object.origin setting.heapModel := by
  simp [readOrigin, made]

theorem readContext_of_key? {c : ContextId} {context : Context}
    (numbered : s.contexts.key? c = some context) :
    s.readContext setting c = context.map (ElementOf.map (s.readOrigin setting)) := by
  rw [readContext, ContextTable.context_of_key? numbered]

theorem readObject_of_key? {o : QualifiedObjectId} {held : QualifiedObject}
    (numbered : s.objects.key? o = some held) :
    s.readObject setting o = ⟨s.readContext setting held.context, s.readOrigin setting held.object⟩ := by
  simp [readObject, numbered]

end Parts

/-! ## The rules -/

section Rules

variable {setting : Setting} {s : State} (valid : s.Valid setting)
include valid

theorem read_initial : s.readContext setting ContextTable.emptyId = [] := by
  rw [readContext_of_key? valid.contexts.initial]
  rfl

theorem read_object {c : ContextId} {site : SiteId}
    (numbered : (s.domain setting).object c site < s.objects.size) :
    s.readObject setting ((s.domain setting).object c site) =
      setting.domain.object (s.readContext setting c) site := by
  obtain ⟨held, object, key, context, made, origin⟩ := valid.allocates_of_lt numbered
  rw [readObject_of_key? key, readContext_of_key? context, readOrigin_of_object? made, origin,
    ← heapContext_map]
  rfl

theorem read_type {o : QualifiedObjectId} (inUse : o < s.objects.size) :
    setting.domain.type (s.readObject setting o) = (s.domain setting).type o := by
  obtain ⟨⟨receiver, type⟩, found⟩ := valid.exists_receiver? inUse
  obtain ⟨held, object, key, made, rfl, rfl⟩ := receiver?_eq_some found
  rw [readObject_of_key? key, readOrigin_of_object? made]
  simp only [domain, found, Option.map_some, Option.getD_some]
  exact (valid.heap.parts made).1

theorem read_callStatic {c : ContextId} (inUse : c < s.contexts.size) {site : CallSite}
    (numbered : (s.domain setting).callStatic c site < s.contexts.size) :
    s.readContext setting ((s.domain setting).callStatic c site) =
      setting.domain.callStatic (s.readContext setting c) site := by
  rw [readContext_of_key? (valid.selectsStatic_of_lt inUse numbered), ← staticContext_map]
  rfl

theorem read_callInstance {c : ContextId} {site : CallSite} {o : QualifiedObjectId}
    (objectInUse : o < s.objects.size)
    (numbered : (s.domain setting).callInstance c site o < s.contexts.size) :
    s.readContext setting ((s.domain setting).callInstance c site o) =
      setting.domain.callInstance (s.readContext setting c) site (s.readObject setting o) := by
  obtain ⟨receiver, type, found, selected⟩ := valid.selectsInstance_of_lt objectInUse numbered
  obtain ⟨held, object, key, made, rfl, rfl⟩ := receiver?_eq_some found
  rw [readContext_of_key? selected, readObject_of_key? key, ← instanceContext_map,
    readOrigin_of_object? made]
  simp only [Setting.domain, (valid.heap.parts made).2]
  rfl

end Rules

/-! ## Later states -/

section Later

variable {setting : Setting} {s t : State} (valid : s.Valid setting) (grown : s.Grows t)
include grown

theorem readOrigin_of_grows {o : ObjectId} (inUse : o < s.heap.size) :
    t.readOrigin setting o = s.readOrigin setting o := by
  obtain ⟨object, made⟩ := Heap.exists_object?_of_lt inUse
  rw [readOrigin_of_object? made, readOrigin_of_object? (grown.heap.object? made)]

include valid

theorem readContext_of_grows {c : ContextId} (inUse : c < s.contexts.size) :
    t.readContext setting c = s.readContext setting c := by
  obtain ⟨context, key⟩ := Table.exists_key?_of_lt inUse
  rw [readContext_of_key? key, readContext_of_key? (grown.contexts.key? key)]
  refine List.map_congr_left fun element member => ?_
  cases element with
  | object o =>
      have objectInUse := valid.elements (Table.mem_of_key? key) member
      simp only [ElementOf.map, readOrigin_of_grows grown objectInUse]
  | _ => rfl

theorem readObject_of_grows {o : QualifiedObjectId} (inUse : o < s.objects.size) :
    t.readObject setting o = s.readObject setting o := by
  obtain ⟨held, key⟩ := Table.exists_key?_of_lt inUse
  obtain ⟨context, object⟩ := valid.parts (Table.mem_of_key? key)
  rw [readObject_of_key? key, readObject_of_key? (grown.objects.key? key),
    readContext_of_grows valid grown context, readOrigin_of_grows grown object]

theorem readPointer_of_grows {p : Pointer} (below : p.Below s.contexts.size s.objects.size) :
    p.map (t.readContext setting) (t.readObject setting) =
      p.map (s.readContext setting) (s.readObject setting) := by
  cases p with
  | var c v => simp only [PointerOf.map, readContext_of_grows valid grown below]
  | static f => rfl
  | field o f => simp only [PointerOf.map, readObject_of_grows valid grown below]
  | array o => simp only [PointerOf.map, readObject_of_grows valid grown below]

/-- A fact about numbers in use reads the same later. -/
theorem read_of_grows {fact : Fact ContextId QualifiedObjectId}
    (below : fact.Below s.contexts.size s.objects.size) : t.read setting fact = s.read setting fact := by
  cases fact with
  | reach c m => simp only [read, Fact.map, readContext_of_grows valid grown below]
  | call c site d m =>
      simp only [read, Fact.map, readContext_of_grows valid grown below.1,
        readContext_of_grows valid grown below.2]
  | flow p q =>
      simp only [read, Fact.map, readPointer_of_grows valid grown below.1,
        readPointer_of_grows valid grown below.2]
  | holds p o =>
      simp only [read, Fact.map, readPointer_of_grows valid grown below.1,
        readObject_of_grows valid grown below.2]

end Later

/-! ## Faithfulness -/

section Injective

variable {setting : Setting} {s : State} (valid : s.Valid setting)
include valid

theorem readOrigin_injective {i j : ObjectId} (first : i < s.heap.size) (second : j < s.heap.size)
    (same : s.readOrigin setting i = s.readOrigin setting j) : i = j := by
  obtain ⟨a, madeFirst⟩ := Heap.exists_object?_of_lt first
  obtain ⟨b, madeSecond⟩ := Heap.exists_object?_of_lt second
  rw [readOrigin_of_object? madeFirst, readOrigin_of_object? madeSecond] at same
  exact valid.heap.distinct madeFirst madeSecond same

theorem readElements_injective {first second : Context}
    (firstInUse : ∀ {o}, .object o ∈ first → o < s.heap.size)
    (secondInUse : ∀ {o}, .object o ∈ second → o < s.heap.size)
    (same : first.map (ElementOf.map (s.readOrigin setting)) =
      second.map (ElementOf.map (s.readOrigin setting))) : first = second := by
  induction first generalizing second with
  | nil =>
      cases second with
      | nil => rfl
      | cons element rest => cases same
  | cons element rest ih =>
      cases second with
      | nil => cases same
      | cons other others =>
          obtain ⟨head, tail⟩ := List.cons.inj same
          have rests := ih (fun member => firstInUse (List.mem_cons_of_mem _ member))
            (fun member => secondInUse (List.mem_cons_of_mem _ member)) tail
          rw [rests]
          congr 1
          cases element <;> cases other <;> simp only [ElementOf.map, ElementOf.site.injEq,
            ElementOf.object.injEq, ElementOf.type.injEq, reduceCtorEq] at head ⊢
          · exact head
          · exact readOrigin_injective valid (firstInUse List.mem_cons_self)
              (secondInUse List.mem_cons_self) head
          · exact head

theorem readContext_injective {c d : ContextId} (first : c < s.contexts.size)
    (second : d < s.contexts.size) (same : s.readContext setting c = s.readContext setting d) :
    c = d := by
  obtain ⟨a, keyFirst⟩ := Table.exists_key?_of_lt first
  obtain ⟨b, keySecond⟩ := Table.exists_key?_of_lt second
  rw [readContext_of_key? keyFirst, readContext_of_key? keySecond] at same
  have equal := readElements_injective valid (valid.elements (Table.mem_of_key? keyFirst))
    (valid.elements (Table.mem_of_key? keySecond)) same
  exact Table.key?_injective valid.contexts.distinct keyFirst (equal ▸ keySecond)

theorem readObject_injective {i j : QualifiedObjectId} (first : i < s.objects.size)
    (second : j < s.objects.size) (same : s.readObject setting i = s.readObject setting j) : i = j := by
  obtain ⟨a, keyFirst⟩ := Table.exists_key?_of_lt first
  obtain ⟨b, keySecond⟩ := Table.exists_key?_of_lt second
  rw [readObject_of_key? keyFirst, readObject_of_key? keySecond, QualifiedOrigin.mk.injEq] at same
  obtain ⟨contextFirst, objectFirst⟩ := valid.parts (Table.mem_of_key? keyFirst)
  obtain ⟨contextSecond, objectSecond⟩ := valid.parts (Table.mem_of_key? keySecond)
  have sameContext := readContext_injective valid contextFirst contextSecond same.1
  have sameObject := readOrigin_injective valid objectFirst objectSecond same.2
  have equal : a = b := by
    cases a
    cases b
    cases sameContext
    cases sameObject
    rfl
  exact Table.key?_injective valid.objects keyFirst (equal ▸ keySecond)

theorem readPointer_injective {p q : Pointer} (first : p.Below s.contexts.size s.objects.size)
    (second : q.Below s.contexts.size s.objects.size)
    (same : p.map (s.readContext setting) (s.readObject setting) =
      q.map (s.readContext setting) (s.readObject setting)) : p = q := by
  cases p <;> cases q <;> simp only [PointerOf.map, PointerOf.var.injEq, PointerOf.static.injEq,
    PointerOf.field.injEq, PointerOf.array.injEq, reduceCtorEq] at same ⊢
  · exact ⟨readContext_injective valid first second same.1, same.2⟩
  · exact same
  · exact ⟨readObject_injective valid first second same.1, same.2⟩
  · exact readObject_injective valid first second same

end Injective

end State

end PointsTo
