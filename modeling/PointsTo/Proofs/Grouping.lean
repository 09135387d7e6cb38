/- # Grouping -- which allocation sites share an object

Objects are numbered in the order in which their origins are first requested (`numbered_requests`), so the answers
to requests depend on the origins of the sites alone: with the site model sites share an object only when they are
the same, with the type model exactly when they allocate one type in methods of one class.  What a site is answered
with stays its object, and the type and the class of the object are those of all its sites, whichever was first.
Requests for the same sites in another order number the objects in another way, but they make the same groups.

A heap can find its objects by an index of the sites and, with the type model, by another one of the types with their
classes (`IndexedHeap`).  The indexes keep to what a search would find (`Indexes`), so the answers are the same.

Main statement: `grouped_requests`. -/
import PointsTo.Proofs.FirstRequests
import PointsTo.Proofs.Lookups

set_option autoImplicit false

namespace PointsTo

/-! ## Indexes -/

/-- Objects with an index of the sites and one of the types with their classes. -/
structure IndexedHeap where
  objects : Array HeapObject := #[]
  bySite : SiteId → Option ObjectId := fun _ => none
  byType : TypeRef × ClassId → Option ObjectId := fun _ => none

/-- The object of a site.  Only the type model uses the index of the types, and only it fills it. -/
def IndexedHeap.request (model : HeapModel) (p : Program) (h : IndexedHeap) (s : SiteId) :
    IndexedHeap × ObjectId :=
  match h.bySite s with
  | some o => (h, o)
  | none =>
    let new := p.objectAt s
    let key := (new.type, new.container)
    match if model = .type then h.byType key else none with
    | some o => ({ h with bySite := Function.update h.bySite s (some o) }, o)
    | none =>
      let o := h.objects.size
      let byType := if model = .type then Function.update h.byType key (some o) else h.byType
      (⟨h.objects.push new, Function.update h.bySite s (some o), byType⟩, o)

namespace Heap

/-- The indexes find what a search finds. -/
structure Indexes (model : HeapModel) (x : IndexedHeap) (h : Heap) : Prop where
  objects : x.objects = h.objects
  bySite : ∀ s, x.bySite s = h.known? s
  byType : model = .type → ∀ type container, x.byType (type, container) =
    h.objects.toList.findIdx? fun o => o.type = type && o.container = container

variable {model : HeapModel} {p : Program} {x : IndexedHeap} {h : Heap} {s : SiteId}

theorem known?_cons (requested : List (SiteId × ObjectId)) (s t : SiteId) (o : ObjectId) :
    List.lookup t ((s, o) :: requested) = Function.update (fun t => requested.lookup t) s (some o) t := by
  by_cases same : t = s
  · simp [same]
  · have differs : (t == s) = false := by simpa using same
    simp [List.lookup_cons, differs, same]

/-- A search through one more object finds it only when it finds nothing before. -/
theorem findIdx?_push (objects : Array HeapObject) (new : HeapObject) (type : TypeRef) (container : ClassId) :
    (objects.push new).toList.findIdx? (fun o => o.type = type && o.container = container) =
      (objects.toList.findIdx? fun o => o.type = type && o.container = container).or
        (if (type, container) = (new.type, new.container) then some objects.size else none) := by
  rw [Array.toList_push, List.findIdx?_append]
  congr 1
  by_cases same : (type, container) = (new.type, new.container)
  · obtain ⟨rfl, rfl⟩ := Prod.mk.injEq .. ▸ same
    simp
  · have differs : (decide (new.type = type) && decide (new.container = container)) = false := by
      rw [Bool.and_eq_false_iff, decide_eq_false_iff_not, decide_eq_false_iff_not, ← not_and_or]
      exact fun equal => same (by rw [equal.1, equal.2])
    simp [same, differs]

/-- A heap with indexes answers as one without. -/
theorem Indexes.request (indexes : Indexes model x h) (p : Program) (s : SiteId) :
    Indexes model (x.request model p s).1 (h.request model p s).1 ∧
      (x.request model p s).2 = (h.request model p s).2 := by
  unfold IndexedHeap.request Heap.request
  rw [indexes.bySite s]
  cases known : h.known? s with
  | some o => exact ⟨indexes, rfl⟩
  | none =>
      have bySite : ∀ o t, Function.update x.bySite s (some o) t = List.lookup t ((s, o) :: h.requested) := by
        intro o t
        rw [known?_cons, funext indexes.bySite]
        rfl
      cases model with
      | site =>
          simp only [shared?, reduceCtorEq, if_false, indexes.objects]
          exact ⟨⟨rfl, bySite _, fun other => by cases other⟩, trivial⟩
      | type =>
          have byType := indexes.byType rfl
          simp only [shared?, if_true, byType]
          cases shared : h.objects.toList.findIdx? fun o =>
              o.type = (p.objectAt s).type && o.container = (p.objectAt s).container with
          | some o => exact ⟨⟨indexes.objects, bySite o, fun _ => byType⟩, rfl⟩
          | none =>
              simp only [indexes.objects]
              refine ⟨⟨rfl, bySite _, fun _ type container => ?_⟩, trivial⟩
              simp only [findIdx?_push]
              by_cases same : (type, container) = ((p.objectAt s).type, (p.objectAt s).container)
              · obtain ⟨rfl, rfl⟩ := Prod.mk.injEq .. ▸ same
                rw [Function.update_self, shared, if_pos rfl, Option.none_or]
              · rw [Function.update_of_ne same, if_neg same, Option.or_none, byType]

/-! ## Requests -/

/-- The heap after requests, and the objects that they were answered with. -/
def requests (model : HeapModel) (p : Program) (sites : List SiteId) : Heap × List ObjectId :=
  serve (fun h s => h.request model p s) {} sites

theorem requests_concat (model : HeapModel) (p : Program) (sites : List SiteId) (s : SiteId) :
    requests model p (sites ++ [s]) = (((requests model p sites).1.request model p s).1,
      (requests model p sites).2 ++ [((requests model p sites).1.request model p s).2]) :=
  serve_concat _ _ sites s

/-- A request changes no objects, or adds one with a new origin. -/
theorem Valid.objects_request (valid : h.Valid model p) (s : SiteId) :
    (h.request model p s).1.objects = h.objects ∨
      p.originAt model s ∉ h.objects.toList.map (·.origin model) ∧
        (h.request model p s).1.objects = h.objects.push (p.objectAt s) := by
  unfold Heap.request
  cases known : h.known? s with
  | some o => exact .inl rfl
  | none =>
      cases sharing : h.shared? model (p.objectAt s) with
      | some o => exact .inl (by simp [sharing])
      | none =>
          refine .inr ⟨fun member => ?_, by simp [sharing]⟩
          obtain ⟨object, listed, same⟩ := List.mem_map.mp member
          obtain ⟨o, read⟩ := List.getElem?_of_mem listed
          exact valid.unshared s known sharing (by simpa [object?] using read) same

theorem known?_request_eq_none_iff {t : SiteId} :
    (h.request model p s).1.known? t = none ↔ h.known? t = none ∧ t ≠ s := by
  by_cases same : t = s
  · subst same
    simp [known?_request]
  · have kept : (h.request model p s).1.known? t = h.known? t := by
      unfold Heap.request
      cases known : h.known? s with
      | some o => rfl
      | none =>
          cases sharing : h.shared? model (p.objectAt s) <;>
            simp only [sharing, known?, known?_cons, Function.update_of_ne same]
    simp [kept, same]

/-- Objects are numbered in the order in which their origins are first requested. -/
theorem numbered_requests (model : HeapModel) (p : Program) (sites : List SiteId) :
    (requests model p sites).1.Valid model p ∧
      Numbered (sites.map (p.originAt model)) ((requests model p sites).1.objects.toList.map (·.origin model))
        (requests model p sites).2 := by
  induction sites using List.reverseRecOn with
  | nil => exact ⟨Valid.empty model p, numbered_nil⟩
  | append_singleton sites s ih =>
      obtain ⟨valid, numbered⟩ := ih
      rw [requests_concat, List.map_append, List.map_singleton]
      refine ⟨valid.request s, numbered.next ?_ ?_⟩
      · rcases valid.objects_request s with same | ⟨new, pushed⟩
        · exact .inl (by rw [same])
        · exact .inr ⟨new, by rw [pushed]; simp [HeapObject.origin, Program.originAt]⟩
      · obtain ⟨object, read, same⟩ := (valid.request s).known (known?_request _ model p s)
        rw [List.getElem?_map, Array.getElem?_toList]
        exact Option.map_eq_some_iff.mpr ⟨object, read, same⟩

theorem requests_append (model : HeapModel) (p : Program) (sites more : List SiteId) :
    (requests model p sites).1.Extends (requests model p (sites ++ more)).1 ∧
      (requests model p sites).2 <+: (requests model p (sites ++ more)).2 := by
  induction more using List.reverseRecOn with
  | nil =>
      rw [List.append_nil]
      exact ⟨.refl _, List.prefix_refl _⟩
  | append_singleton more s ih =>
      rw [← List.append_assoc, requests_concat]
      exact ⟨ih.1.trans (extends_request _ model p s), ih.2.trans (List.prefix_append _ _)⟩

/-- A site that was requested is known by its answer. -/
theorem known?_requests {sites : List SiteId} {i : Nat} (asked : sites[i]? = some s) :
    (requests model p sites).1.known? s = (requests model p sites).2[i]? := by
  induction sites using List.reverseRecOn with
  | nil => cases asked
  | append_singleton sites last ih =>
      have numbered := (numbered_requests model p sites).2
      have length : (requests model p sites).2.length = sites.length := by simpa using numbered.length_eq
      rw [requests_concat]
      by_cases earlier : i < sites.length
      · rw [List.getElem?_append_left earlier] at asked
        rw [List.getElem?_append_left (length ▸ earlier)]
        obtain ⟨o, answered, -⟩ := numbered.exists_answer (i := i) (by rw [List.getElem?_map, asked]; rfl)
        rw [answered]
        exact (extends_request _ model p last).known (ih asked ▸ answered)
      · rw [List.getElem?_append_right (Nat.le_of_not_lt earlier)] at asked
        rw [List.getElem?_append_right (length ▸ Nat.le_of_not_lt earlier), length]
        obtain ⟨first, rfl⟩ := List.getElem?_eq_some_iff.mp asked
        obtain rfl : i = sites.length := by
          rw [List.length_singleton] at first
          omega
        simpa using known?_request _ model p last

/-- A site is known when it was requested, and nothing else makes it known. -/
theorem known?_eq_none_iff {sites : List SiteId} : (requests model p sites).1.known? s = none ↔ s ∉ sites := by
  induction sites using List.reverseRecOn with
  | nil => simp [requests, serve, known?]
  | append_singleton sites last ih =>
      rw [requests_concat, List.mem_append, not_or, ← ih, List.mem_singleton]
      exact known?_request_eq_none_iff

/-- Requested sites share an object exactly when they have one origin. -/
theorem known?_eq_iff {sites : List SiteId} {t : SiteId} (member : s ∈ sites) (member' : t ∈ sites) :
    (requests model p sites).1.known? s = (requests model p sites).1.known? t ↔
      p.originAt model s = p.originAt model t := by
  obtain ⟨i, asked⟩ := List.getElem?_of_mem member
  obtain ⟨j, asked'⟩ := List.getElem?_of_mem member'
  rw [known?_requests asked, known?_requests asked']
  exact (numbered_requests model p sites).2.answer_eq_iff (by simp [asked]) (by simp [asked'])

/-! ## Groups -/

/-- What requests for `sites` make of an empty heap, and how they are answered. -/
structure Grouped (p : Program) (model : HeapModel) (sites : List SiteId) (h : Heap) (answers : List ObjectId) :
    Prop where
  answered : answers.length = sites.length
  bySite : model = .site → ∀ {i j : Nat} {s t}, sites[i]? = some s → sites[j]? = some t →
    (answers[i]? = answers[j]? ↔ s = t)
  /-- Types are shared within a class, and a class is where the methods of the sites are declared. -/
  byType : model = .type → ∀ {i j : Nat} {s t a b}, sites[i]? = some s → sites[j]? = some t →
    p.sites[s]? = some a → p.sites[t]? = some b →
    (answers[i]? = answers[j]? ↔
      a.type = b.type ∧ ∃ c, a.method ∈ p.methodsOf c ∧ b.method ∈ p.methodsOf c)
  /-- Numbers are met in their order, without gaps. -/
  dense : answers.eraseDups = List.range h.size
  /-- A site keeps the object that it was answered with, every time. -/
  known : ∀ {i : Nat} {s}, sites[i]? = some s → h.known? s = answers[i]?
  /-- An object has the type and the class of all its sites. -/
  objects : ∀ {s o site}, h.known? s = some o → p.sites[s]? = some site →
    ∃ object, h.object? o = some object ∧ object.type = site.type ∧ site.method ∈ p.methodsOf object.container
  /-- With indexes the objects and the answers are the same. -/
  indexed : ∃ x, serve (fun x s => IndexedHeap.request model p x s) {} sites = (x, answers) ∧
    x.objects = h.objects ∧ ∀ s, x.bySite s = h.known? s

/-- Heaps that know the same sites, with the same groups and objects of the same types and classes. -/
structure SameGroups (h k : Heap) : Prop where
  groups : ∀ s t, h.known? s = h.known? t ↔ k.known? s = k.known? t
  parts : ∀ {s o}, h.known? s = some o → ∃ o', k.known? s = some o' ∧
    (h.object? o).map (fun object => (object.type, object.container)) =
      (k.object? o').map fun object => (object.type, object.container)

section Groups

variable (loaded : p.Loaded)

include loaded in
/-- With the type model, sites have one origin when they allocate one type and one class declares their methods. -/
theorem originAt_type_eq_iff {t : SiteId} {a b : Site} (read : p.sites[s]? = some a)
    (read' : p.sites[t]? = some b) :
    p.originAt .type s = p.originAt .type t ↔
      a.type = b.type ∧ ∃ c, a.method ∈ p.methodsOf c ∧ b.method ∈ p.methodsOf c := by
  have first := fun c => loaded.mem_methodsOf_iff (c := c) (loaded.inRange.siteMethod_lt read)
  have second := fun c => loaded.mem_methodsOf_iff (c := c) (loaded.inRange.siteMethod_lt read')
  simp [Program.originAt, HeapObject.origin, Program.objectAt, read, read', first, second, eq_comm]

/-- The type and the class of an object are those of what its sites allocate. -/
theorem Valid.exists_object {h : Heap} (valid : h.Valid model p) {o : ObjectId} (known : h.known? s = some o) :
    ∃ object, h.object? o = some object ∧ object.type = (p.objectAt s).type ∧
      object.container = (p.objectAt s).container := by
  obtain ⟨object, read, same⟩ := valid.known known
  obtain ⟨type, container⟩ := valid.parts read
  rw [same] at type container
  refine ⟨object, read, type.symm.trans ?_, container.symm.trans ?_⟩ <;>
    cases model <;> simp [Program.originAt, HeapObject.origin, Origin.typeIn, Origin.containerIn]

include loaded in
theorem grouped (model : HeapModel) (sites : List SiteId) :
    Grouped p model sites (requests model p sites).1 (requests model p sites).2 := by
  obtain ⟨valid, numbered⟩ := numbered_requests model p sites
  have asked : ∀ {i : Nat} {s}, sites[i]? = some s →
      (sites.map (p.originAt model))[i]? = some (p.originAt model s) := by
    intro i s read
    rw [List.getElem?_map, read, Option.map_some]
  obtain ⟨indexes, answers⟩ := serve_congr (Indexes model) (fun _ _ s alike => alike.request p s)
    (s := {}) (t := {}) ⟨rfl, fun _ => rfl, fun _ _ _ => rfl⟩ sites
  constructor
  · simpa using numbered.length_eq
  · rintro rfl i j s t read read'
    rw [numbered.answer_eq_iff (asked read) (asked read')]
    simp [Program.originAt, HeapObject.origin]
  · rintro rfl i j s t a b read read' there there'
    rw [numbered.answer_eq_iff (asked read) (asked read')]
    exact originAt_type_eq_iff loaded there there'
  · simpa [Heap.size] using numbered.dense
  · exact known?_requests
  · intro s o site known there
    obtain ⟨object, read, type, container⟩ := valid.exists_object known
    refine ⟨object, read, by simpa [Program.objectAt, there] using type, ?_⟩
    rw [loaded.mem_methodsOf_iff (loaded.inRange.siteMethod_lt there), container, Program.objectAt, there]
  · exact ⟨_, Prod.ext rfl answers, indexes.objects, indexes.bySite⟩

/-- The order of the requests changes the numbers only. -/
theorem sameGroups_requests (model : HeapModel) (p : Program) {xs ys : List SiteId}
    (same : ∀ s, s ∈ xs ↔ s ∈ ys) :
    SameGroups (requests model p xs).1 (requests model p ys).1 := by
  constructor
  · intro s t
    by_cases asked : s ∈ xs <;> by_cases asked' : t ∈ xs
    · rw [known?_eq_iff asked asked', known?_eq_iff ((same s).mp asked) ((same t).mp asked')]
    · rw [known?_eq_none_iff.mpr asked', known?_eq_none_iff.mpr (mt (same t).mpr asked'), known?_eq_none_iff,
        known?_eq_none_iff, same]
    · rw [known?_eq_none_iff.mpr asked, known?_eq_none_iff.mpr (mt (same s).mpr asked), eq_comm,
        known?_eq_none_iff, eq_comm, known?_eq_none_iff, same]
    · simp only [known?_eq_none_iff.mpr asked, known?_eq_none_iff.mpr asked',
        known?_eq_none_iff.mpr (mt (same s).mpr asked), known?_eq_none_iff.mpr (mt (same t).mpr asked')]
  · intro s o known
    have asked : s ∈ ys := by
      rw [← same]
      by_contra other
      rw [known?_eq_none_iff.mpr other] at known
      cases known
    cases known' : (requests model p ys).1.known? s with
    | none => exact absurd asked (known?_eq_none_iff.mp known')
    | some o' =>
        obtain ⟨object, read, type, container⟩ := (numbered_requests model p xs).1.exists_object known
        obtain ⟨object', read', type', container'⟩ := (numbered_requests model p ys).1.exists_object known'
        refine ⟨o', rfl, ?_⟩
        rw [read, read', Option.map_some, Option.map_some, type, container, type', container']

end Groups

/-- Requests on an empty heap, in any order and with repetitions, group sites by what they allocate: a site is never
given another object, and requests for the same sites make the same groups. -/
theorem grouped_requests (loaded : p.Loaded) (model : HeapModel) :
    (∀ sites, Grouped p model sites (requests model p sites).1 (requests model p sites).2) ∧
      (∀ sites more, (requests model p sites).1.Extends (requests model p (sites ++ more)).1 ∧
        (requests model p sites).2 <+: (requests model p (sites ++ more)).2) ∧
      ∀ xs ys, (∀ s, s ∈ xs ↔ s ∈ ys) → SameGroups (requests model p xs).1 (requests model p ys).1 :=
  ⟨grouped loaded model, requests_append model p, fun _ _ same => sameGroups_requests model p same⟩

/-- A class that allocates one type twice and another one, and a class that allocates the first type as well. -/
def letters : Description where
  classes := [
    { name := "Letter" },
    { name := "Stamp" },
    { name := "Desk", methods := [
        { name := "main", isStatic := true, body := [.new "a" "Letter", .new "b" "Letter", .new "c" "Stamp"] }] },
    { name := "Office", methods := [{ name := "write", isStatic := true, body := [.new "d" "Letter"] }] }]
  entry := ⟨"Desk", "main/0"⟩

theorem grouped_requests_letters :
    letters.load = .ok letters.program ∧ letters.program.sites.size = 4 ∧
      (requests .site letters.program [3, 1, 0, 3, 2]).2 = [0, 1, 2, 0, 3] ∧
      (requests .type letters.program [3, 1, 0, 3, 2]).2 = [0, 1, 1, 0, 2] ∧
      (requests .type letters.program [0, 1, 2, 3]).2 = [0, 0, 1, 2] ∧
      SameGroups (requests .site letters.program [3, 1, 0, 3, 2]).1
        (requests .site letters.program [0, 1, 2, 3]).1 ∧
      SameGroups (requests .type letters.program [3, 1, 0, 3, 2]).1
        (requests .type letters.program [0, 1, 2, 3]).1 := by
  have loads : letters.load = .ok letters.program := by decide +kernel
  have same : ∀ s, s ∈ [3, 1, 0, 3, 2] ↔ s ∈ [0, 1, 2, 3] := by
    simp only [List.mem_cons, List.not_mem_nil]
    grind
  exact ⟨loads, by decide +kernel, by decide +kernel, by decide +kernel, by decide +kernel,
    (grouped_requests ⟨letters, loads⟩ .site).2.2 _ _ same,
    (grouped_requests ⟨letters, loads⟩ .type).2.2 _ _ same⟩

end Heap

end PointsTo
