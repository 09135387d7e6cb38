/- # Origins -- what objects and contexts stand for

The number of an object depends on the order of requests; its origin does not: with the site model the
allocation site, with the type model the type and the class that allocates it.  In a `Heap.Valid` heap an
origin has one object, so numbers and origins determine each other.  Contexts are read in the same way, with
objects replaced by their origins; the policies do not look at objects, so they commute with reading
(`staticContext_map`, `instanceContext_map`, `heapContext_map`). -/
import PointsTo.Context.Policy
import PointsTo.Proofs.Numbering

set_option autoImplicit false

namespace PointsTo

/-- What an abstract object stands for. -/
inductive Origin
  | site (site : SiteId)
  | type (type : TypeRef) (container : ClassId)
  deriving DecidableEq, Repr

/-- The origin of an object. -/
def HeapObject.origin (model : HeapModel) (object : HeapObject) : Origin :=
  match model with
  | .site => .site object.site
  | .type => .type object.type object.container

/-- The type of the objects of an origin. -/
def Origin.typeIn (p : Program) : Origin → TypeRef
  | .site s => (p.objectAt s).type
  | .type allocated _ => allocated

/-- The class that allocates the objects of an origin. -/
def Origin.containerIn (p : Program) : Origin → ClassId
  | .site s => (p.objectAt s).container
  | .type _ container => container

/-- The origin of what a site allocates. -/
def Program.originAt (p : Program) (model : HeapModel) (s : SiteId) : Origin :=
  (p.objectAt s).origin model

@[simp] theorem Program.site_objectAt (p : Program) (s : SiteId) : (p.objectAt s).site = s := by
  unfold Program.objectAt
  split <;> rfl

/-! ## Heaps -/

namespace Heap

/-- Every object was made for a site that it is the object of, sites have objects of their origin, and no
two objects have one origin. -/
structure Valid (h : Heap) (model : HeapModel) (p : Program) : Prop where
  made : ∀ {o object}, h.object? o = some object →
    object = p.objectAt object.site ∧ h.known? object.site = some o
  known : ∀ {s o}, h.known? s = some o →
    ∃ object, h.object? o = some object ∧ object.origin model = p.originAt model s
  distinct : ∀ {i j a b}, h.object? i = some a → h.object? j = some b →
    a.origin model = b.origin model → i = j

/-- The later heap has the objects of the earlier one, and the sites keep theirs. -/
structure Extends (h k : Heap) : Prop where
  objects : h.objects.toList <+: k.objects.toList
  known : ∀ {s o}, h.known? s = some o → k.known? s = some o

theorem Extends.refl (h : Heap) : h.Extends h := ⟨List.prefix_refl _, id⟩

theorem Extends.trans {h k l : Heap} (first : h.Extends k) (second : k.Extends l) : h.Extends l :=
  ⟨first.objects.trans second.objects, fun read => second.known (first.known read)⟩

theorem Extends.object? {h k : Heap} (grown : h.Extends k) {o : ObjectId} {object : HeapObject}
    (read : h.object? o = some object) : k.object? o = some object := by
  simp only [Heap.object?, ← Array.getElem?_toList] at read ⊢
  obtain ⟨more, same⟩ := grown.objects
  have bounded : o < h.objects.toList.length := (List.getElem?_eq_some_iff.mp read).1
  rw [← same, List.getElem?_append_left bounded]
  exact read

theorem Extends.size_le {h k : Heap} (grown : h.Extends k) : h.size ≤ k.size := by
  simpa [size] using List.IsPrefix.length_le grown.objects

theorem lt_of_object? {h : Heap} {o : ObjectId} {object : HeapObject}
    (read : h.object? o = some object) : o < h.size :=
  (Array.getElem?_eq_some_iff.mp read).1

theorem exists_object?_of_lt {h : Heap} {o : ObjectId} (inUse : o < h.size) :
    ∃ object, h.object? o = some object :=
  ⟨h.objects[o], Array.getElem?_eq_getElem inUse⟩

theorem Valid.empty (model : HeapModel) (p : Program) : ({} : Heap).Valid model p :=
  ⟨by simp [Heap.object?], by simp [Heap.known?], by simp [Heap.object?]⟩

theorem lookup_cons_iff {requested : List (SiteId × ObjectId)} {s t : SiteId} {o x : ObjectId} :
    List.lookup t ((s, o) :: requested) = some x ↔
      t = s ∧ x = o ∨ t ≠ s ∧ requested.lookup t = some x := by
  by_cases same : t = s
  · simp [same, eq_comm]
  · have differs : (t == s) = false := by simpa using same
    simp [same, List.lookup_cons, differs]

theorem extends_request (h : Heap) (model : HeapModel) (p : Program) (s : SiteId) :
    h.Extends (h.request model p s).1 := by
  unfold request
  split
  · exact .refl h
  · rename_i fresh
    have kept : ∀ {o t x}, h.known? t = some x → List.lookup t ((s, o) :: h.requested) = some x := by
      intro o t x read
      refine lookup_cons_iff.mpr (.inr ⟨fun same => ?_, read⟩)
      rw [same, fresh] at read
      cases read
    simp only
    split
    · exact ⟨List.prefix_refl _, kept⟩
    · exact ⟨by simp, kept⟩

/-- A request makes at most the object of its site. -/
theorem object?_request {h : Heap} {model : HeapModel} {p : Program} {s : SiteId} {o : ObjectId}
    {object : HeapObject} (read : (h.request model p s).1.object? o = some object) :
    h.object? o = some object ∨ object = p.objectAt s := by
  unfold request at read
  split at read
  · exact .inl read
  · simp only at read
    split at read
    · exact .inl read
    · rw [object?, Array.getElem?_push] at read
      split at read
      · exact .inr (Option.some.inj read).symm
      · exact .inl read

theorem known?_request (h : Heap) (model : HeapModel) (p : Program) (s : SiteId) :
    (h.request model p s).1.known? s = some (h.request model p s).2 := by
  unfold request
  split
  · assumption
  · simp only
    split <;> simp [known?]

section Request

variable {h : Heap} {model : HeapModel} {p : Program} (valid : h.Valid model p) (s : SiteId)
include valid

/-- An object that is shared by a new site has the origin of the site. -/
theorem Valid.shared {o : ObjectId} (found : h.shared? model (p.objectAt s) = some o) :
    ∃ object, h.object? o = some object ∧ object.origin model = p.originAt model s := by
  cases model with
  | site => simp [shared?] at found
  | type =>
      obtain ⟨inside, same, -⟩ := List.findIdx?_eq_some_iff_getElem.mp found
      rw [Array.length_toList] at inside
      rw [Array.getElem_toList, Bool.and_eq_true, decide_eq_true_eq, decide_eq_true_eq] at same
      refine ⟨h.objects[o], Array.getElem?_eq_getElem inside, ?_⟩
      simp [HeapObject.origin, Program.originAt, same.1, same.2]

/-- No object has the origin of a new site that shares none. -/
theorem Valid.unshared (fresh : h.known? s = none) (none : h.shared? model (p.objectAt s) = none)
    {o : ObjectId} {object : HeapObject} (read : h.object? o = some object) :
    object.origin model ≠ p.originAt model s := by
  intro same
  cases model with
  | site =>
      simp only [HeapObject.origin, Program.originAt, Origin.site.injEq, Program.site_objectAt] at same
      rw [← same, (valid.made read).2] at fresh
      cases fresh
  | type =>
      simp only [HeapObject.origin, Program.originAt, Origin.type.injEq] at same
      simp only [shared?, List.findIdx?_eq_none_iff] at none
      have member : object ∈ h.objects.toList := by
        rw [Heap.object?, ← Array.getElem?_toList] at read
        exact List.mem_of_getElem? read
      simpa [same.1, same.2] using none object member


theorem Valid.request : (h.request model p s).1.Valid model p := by
  have grown := extends_request h model p s
  unfold Heap.request at grown ⊢
  split
  · exact valid
  · rename_i fresh
    simp only [fresh] at grown ⊢
    have others : ∀ {o t x}, List.lookup t ((s, o) :: h.requested) = some x →
        t = s ∧ x = o ∨ h.known? t = some x := by
      intro o t x read
      exact (lookup_cons_iff.mp read).imp_right (·.2)
    cases sharing : h.shared? model (p.objectAt s) with
    | some o =>
        rw [sharing] at grown
        refine ⟨fun read => ?_, fun read => ?_, valid.distinct⟩
        · exact ⟨(valid.made read).1, grown.known (valid.made read).2⟩
        · rcases others read with ⟨rfl, rfl⟩ | old
          · exact valid.shared _ sharing
          · exact valid.known old
    | none =>
        rw [sharing] at grown
        have pushed : ∀ {o object}, (h.objects.push (p.objectAt s))[o]? = some object →
            h.object? o = some object ∨ o = h.objects.size ∧ object = p.objectAt s := by
          intro o object read
          rw [Array.getElem?_push] at read
          split at read
          · exact .inr ⟨‹_›, (Option.some.inj read).symm⟩
          · exact .inl read
        refine ⟨fun read => ?_, fun read => ?_, fun {i j a b} first second same => ?_⟩
        · rcases pushed read with old | ⟨rfl, rfl⟩
          · exact ⟨(valid.made old).1, grown.known (valid.made old).2⟩
          · simp [known?]
        · rcases others read with ⟨rfl, rfl⟩ | old
          · exact ⟨p.objectAt _, by simp [Heap.object?], rfl⟩
          · obtain ⟨object, read, same⟩ := valid.known old
            exact ⟨object, grown.object? read, same⟩
        · rcases pushed first with old | ⟨rfl, rfl⟩ <;> rcases pushed second with older | ⟨rfl, rfl⟩
          · exact valid.distinct old older same
          · exact absurd same (valid.unshared s fresh sharing old)
          · exact absurd same.symm (valid.unshared s fresh sharing older)
          · rfl

end Request

/-- The type and the class of an object are those of its origin. -/
theorem Valid.parts {h : Heap} {model : HeapModel} {p : Program} (valid : h.Valid model p)
    {o : ObjectId} {object : HeapObject} (read : h.object? o = some object) :
    (object.origin model).typeIn p = object.type ∧
      (object.origin model).containerIn p = object.container := by
  have made := (valid.made read).1
  cases model with
  | site => simp [HeapObject.origin, Origin.typeIn, Origin.containerIn, ← made]
  | type => simp [HeapObject.origin, Origin.typeIn, Origin.containerIn]

end Heap

/-! ## Contexts -/

section Renaming

variable {O P : Type} (f : O → P)

/-- The element with a renamed object. -/
def ElementOf.map : ElementOf O → ElementOf P
  | .site value => .site value
  | .object value => .object (f value)
  | .type value => .type value

variable (policy : Policy)

theorem staticContext_map (caller : ContextOf O) (site : CallSite) :
    policy.staticContext (caller.map (ElementOf.map f)) site =
      (policy.staticContext caller site).map (ElementOf.map f) := by
  cases same : policy.sensitivity <;>
    simp [Policy.staticContext, same, Context.extend, ElementOf.map]

theorem instanceContext_map (caller : ContextOf O) (site : CallSite) (heap : ContextOf O) (object : O)
    (container : ClassId) :
    policy.instanceContext (caller.map (ElementOf.map f)) site (heap.map (ElementOf.map f)) (f object)
        container =
      (policy.instanceContext caller site heap object container).map (ElementOf.map f) := by
  cases same : policy.sensitivity <;>
    simp [Policy.instanceContext, same, Context.extend, ElementOf.map]

theorem heapContext_map (context : ContextOf O) :
    policy.heapContext (context.map (ElementOf.map f)) =
      (policy.heapContext context).map (ElementOf.map f) := by
  cases same : policy.sensitivity <;> simp [Policy.heapContext, same, Context.truncate]

end Renaming

end PointsTo
