/- # Acceptance -- the loader accepts exactly the well-formed descriptions

`Description.WellFormed` says, in terms of names alone, what a description must keep to.  Each check of the
loader is one of its parts: distinct names, declared supertypes, method declarations, no cycles, bodies and
the entry.  A field is looked for along superclasses, which ends because the cycle check comes before it. -/
import PointsTo.Proofs.Lowering
import PointsTo.Proofs.Naming

set_option autoImplicit false

namespace PointsTo

open Relation (ReflTransGen TransGen)

/-! ## Texts -/

theorem splitLast_cons (s c : Char) (rest : List Char) : splitLast [s] (c :: rest) =
    match splitLast [s] rest with
    | some (before, after) => some (c :: before, after)
    | none => if s = c then some ([], rest) else none := by
  rw [splitLast]
  cases splitLast [s] rest <;> simp

theorem splitLast_eq_none_iff {s : Char} {text : List Char} : splitLast [s] text = none ↔ s ∉ text := by
  induction text with
  | nil => simp [splitLast]
  | cons c rest ih =>
      rw [splitLast_cons]
      cases inner : splitLast [s] rest with
      | some sides =>
          have later : s ∈ rest := by
            by_contra absent
            cases inner.symm.trans (ih.mpr absent)
          simp [later]
      | none => simp [ih.mp inner]

/-- The last separator is the one with none behind it. -/
theorem splitLast_eq_some_iff {s : Char} {text before after : List Char} :
    splitLast [s] text = some (before, after) ↔ text = before ++ s :: after ∧ s ∉ after := by
  induction text generalizing before after with
  | nil => simp [splitLast]
  | cons c rest ih =>
      rw [splitLast_cons]
      cases inner : splitLast [s] rest with
      | some sides =>
          obtain ⟨split, last⟩ := ih.mp inner
          constructor
          · intro same
            cases same
            exact ⟨by rw [split]; rfl, last⟩
          · rintro ⟨whole, final⟩
            cases before with
            | nil =>
                cases whole
                have later : s ∈ rest := split ▸ List.mem_append_right _ List.mem_cons_self
                exact absurd later final
            | cons x before =>
                obtain ⟨rfl, tail⟩ := List.cons.inj whole
                cases inner.symm.trans (ih.mpr ⟨tail, final⟩)
                rfl
      | none =>
          have absent := splitLast_eq_none_iff.mp inner
          constructor
          · intro same
            obtain ⟨rfl, value⟩ := Option.ite_none_right_eq_some.mp same
            cases value
            exact ⟨rfl, absent⟩
          · rintro ⟨whole, final⟩
            cases before with
            | nil =>
                cases whole
                simp
            | cons x before =>
                obtain ⟨-, tail⟩ := List.cons.inj whole
                exact absurd (tail ▸ List.mem_append_right _ List.mem_cons_self) absent

/-- The two sides of the last point. -/
theorem splitLastText_point {text owner name : String} :
    splitLastText "." text = some (owner, name) ↔ text = owner ++ "." ++ name ∧ '.' ∉ name.toList := by
  have sides : text = owner ++ "." ++ name ↔ text.toList = owner.toList ++ '.' :: name.toList := by
    rw [← String.toList_inj, String.toList_append, String.toList_append, List.append_assoc]
    rfl
  rw [sides, ← splitLast_eq_some_iff, splitLastText, Option.map_eq_some_iff]
  constructor
  · rintro ⟨⟨before, after⟩, found, same⟩
    cases same
    simpa using found
  · exact fun found => ⟨_, found, by simp⟩

namespace Description

/-! ## Well-formed descriptions -/

/-- A field reference names a declared class before its last point, and behind it a field that this class or
one of its superclasses declares. -/
def NamesField (d : Description) (reference : String) : Prop :=
  ∃ owner field, reference = owner ++ "." ++ field ∧ '.' ∉ field.toList ∧ d.Declares owner ∧
    ∃ holder, ReflTransGen d.Extends owner holder ∧ d.DeclaresField holder field

/-- The text of an array type. -/
def IsArrayText (text : String) : Prop := ∃ element, text = element ++ "[]"

/-- What a statement names is there, and exactly the calls that are not static have a receiver. -/
def Admits (d : Description) : StatementDescription → Prop
  | .new _ type => IsArrayText type ∨ d.Declares type
  | .load _ _ field | .store _ field _ => d.NamesField field
  | .invoke kind owner _ receiver _ _ => d.Declares owner ∧ (receiver = none ↔ kind = .static)
  | _ => True

/-- What makes a description a program. -/
structure WellFormed (d : Description) : Prop where
  names : (d.classes.map (·.name)).Nodup
  supertypes : ∀ {name target}, d.Links name target → d.Declares target
  methods : ∀ c ∈ d.classes, (c.methods.map (·.key)).Nodup
  abstract : ∀ c ∈ d.classes, ∀ m ∈ c.methods, m.isAbstract = true → m.body = []
  acyclic : ∀ name, ¬ TransGen d.Links name name
  bodies : ∀ c ∈ d.classes, ∀ m ∈ c.methods, ∀ s ∈ m.body, d.Admits s
  entry : ∃ c ∈ d.classes, c.name = d.entry.owner ∧
    ∃ m ∈ c.methods, m.key = d.entry.method ∧ m.isAbstract = false

variable {d : Description} {p : Program}

/-! ## Declarations -/

theorem exists_resolveLinks_iff {c : ClassDescription} : (∃ links, d.resolveLinks c = .ok links) ↔
    (∀ name ∈ c.supertypes, d.Declares name) ∧ checkMethods c.name [] c.methods = .ok () := by
  have interfaces : (∃ ids : List ClassId, ids.map some = c.interfaces.map d.classNamed?) ↔
      ∀ name ∈ c.interfaces, d.Declares name := by
    simp only [← mapM_eq_ok_iff_map (@resolveClass_eq_ok_iff d), exists_mapM_iff,
      resolveClass_eq_ok_iff, exists_classNamed?_iff]
  have super : (∃ id : Option ClassId, id.map some = c.super.map d.classNamed?) ↔
      ∀ name ∈ c.super.toList, d.Declares name := by
    cases c.super with
    | none => simp
    | some name => simp [← exists_classNamed?_iff, Option.map_eq_some_iff, @eq_comm _ _ (d.classNamed? name)]
  rw [ClassDescription.supertypes, List.forall_mem_append, ← super, ← interfaces]
  simp only [resolveLinks_eq_ok_iff]
  constructor
  · rintro ⟨links, supers, listed, checked⟩
    exact ⟨⟨⟨_, supers⟩, _, listed⟩, checked⟩
  · rintro ⟨⟨⟨super, supers⟩, interfaces, listed⟩, checked⟩
    exact ⟨⟨super, interfaces⟩, supers, listed, checked⟩

/-- The links of all classes are resolved when every class that they name is declared. -/
theorem exists_links_iff : (∃ links, d.classes.mapM d.resolveLinks = .ok links) ↔
    (∀ {name target}, d.Links name target → d.Declares target) ∧
      ∀ c ∈ d.classes, checkMethods c.name [] c.methods = .ok () := by
  rw [exists_mapM_iff]
  constructor
  · intro each
    constructor
    · rintro name target ⟨c, member, -, named⟩
      exact (exists_resolveLinks_iff.mp (each c member)).1 target named
    · exact fun c member => (exists_resolveLinks_iff.mp (each c member)).2
  · rintro ⟨declares, checked⟩ c member
    exact exists_resolveLinks_iff.mpr
      ⟨fun name named => declares ⟨c, member, rfl, named⟩, checked c member⟩

/-! ## Bodies -/

theorem Declared.resolveClass_eq_ok_iff (declared : d.Declared p) {name : String} {id : ClassId} :
    p.resolveClass name = .ok id ↔ d.classNamed? name = some id := by
  rw [Program.resolveClass_eq_ok_iff, declared.classNamed?_eq]

theorem exists_resolveClass_iff (declared : d.Declared p) {name : String} :
    (∃ id, p.resolveClass name = .ok id) ↔ d.Declares name := by
  simp only [declared.resolveClass_eq_ok_iff, exists_classNamed?_iff]

theorem isArrayText_iff {text : String} :
    IsArrayText text ↔ "[]".toList.isSuffixOf text.toList = true := by
  rw [List.isSuffixOf_iff_suffix]
  constructor
  · rintro ⟨element, rfl⟩
    exact ⟨element.toList, String.toList_append.symm⟩
  · rintro ⟨element, whole⟩
    refine ⟨String.ofList element, String.toList_inj.mp ?_⟩
    rw [String.toList_append, String.toList_ofList, whole]

theorem exists_resolveType_iff (declared : d.Declared p) {text : String} :
    (∃ type, p.resolveType text = .ok type) ↔ IsArrayText text ∨ d.Declares text := by
  rw [Program.resolveType, isArrayText_iff, ← exists_resolveClass_iff declared]
  split
  · rename_i array
    exact ⟨fun _ => .inl array, fun _ => ⟨_, rfl⟩⟩
  · rename_i notArray
    rw [or_iff_right notArray]
    simp [map_eq_ok_iff]

section Bodies

variable (declared : d.Declared p) (distinct : (d.classes.map (·.name)).Nodup)
  (acyclic : cycleAt? p.classes.size p.supertypesOf = none)
include declared distinct acyclic

theorem exists_resolveField_iff {reference : String} :
    (∃ field, p.resolveField reference = .ok field) ↔ d.NamesField reference := by
  simp only [Program.resolveField_eq_ok_iff, declared.resolveClass_eq_ok_iff]
  constructor
  · rintro ⟨field, owner, name, id, sides, named, found⟩
    obtain ⟨whole, last⟩ := splitLastText_point.mp sides
    have holder := (declared.exists_inheritedField?_iff distinct acyclic named).mp ⟨field, found⟩
    exact ⟨owner, name, whole, last, exists_classNamed?_iff.mp ⟨id, named⟩, holder⟩
  · rintro ⟨owner, name, whole, last, known, holder⟩
    obtain ⟨id, named⟩ := exists_classNamed?_iff.mpr known
    obtain ⟨field, found⟩ := (declared.exists_inheritedField?_iff distinct acyclic named).mpr holder
    exact ⟨field, owner, name, id, splitLastText_point.mpr ⟨whole, last⟩, named, found⟩

theorem exists_resolveStatement_iff {s : StatementDescription} :
    (∃ resolved, p.resolveStatement s = .ok resolved) ↔ d.Admits s := by
  have field {reference : String} : (∃ field, p.resolveField reference = .ok field) ↔
      d.NamesField reference := exists_resolveField_iff declared distinct acyclic
  cases s with
  | new lhs type =>
      rw [Admits, ← exists_resolveType_iff declared]
      simp [Program.resolveStatement, map_eq_ok_iff]
  | load lhs base reference =>
      rw [Admits, ← field]
      cases base <;> simp [Program.resolveStatement, bind_eq_ok_iff, pure, Except.pure]
  | store base reference rhs =>
      rw [Admits, ← field]
      cases base <;> simp [Program.resolveStatement, bind_eq_ok_iff, pure, Except.pure]
  | invoke kind owner method receiver args result =>
      rw [Admits, ← exists_resolveClass_iff declared, and_comm]
      simp [Program.resolveStatement_invoke]
  | _ => simp [Program.resolveStatement, Admits]

theorem exists_resolveBodies_iff : (∃ bodies, d.classes.mapM p.resolveBodies = .ok bodies) ↔
    ∀ c ∈ d.classes, ∀ m ∈ c.methods, ∀ s ∈ m.body, d.Admits s := by
  rw [exists_mapM_iff]
  refine forall₂_congr fun c _ => ?_
  rw [Program.resolveBodies, exists_mapM_iff]
  refine forall₂_congr fun m _ => ?_
  simp only [← exists_resolveStatement_iff declared distinct acyclic, ← exists_mapM_iff]
  cases m.body.mapM p.resolveStatement <;> simp

end Bodies

/-! ## The entry -/

theorem isAbstract_of_bare {m : MethodId} {described : MethodDescription} {owner : ClassId}
    (same : p.methods[m]?.map (·.bare) = some (described.declared owner)) :
    p.isAbstract m = described.isAbstract := by
  obtain ⟨method, there, bare⟩ := Option.map_eq_some_iff.mp same
  have flag : method.isAbstract = described.isAbstract := congrArg Method.isAbstract bare
  simp [Program.isAbstract, there, flag]

theorem exists_resolveEntry_iff (declared : d.Declared p) (distinct : (d.classes.map (·.name)).Nodup)
    (methods : ∀ c ∈ d.classes, (c.methods.map (·.key)).Nodup) :
    (∃ entry, d.resolveEntry p = .ok entry) ↔ ∃ c ∈ d.classes, c.name = d.entry.owner ∧
      ∃ m ∈ c.methods, m.key = d.entry.method ∧ m.isAbstract = false := by
  unfold resolveEntry
  simp only [bind_eq_ok_iff, resolveClass_eq_ok_iff, classNamed?_eq_some_iff distinct]
  constructor
  · rintro ⟨entry, id, ⟨c, here, named⟩, found⟩
    refine ⟨c, List.mem_of_getElem? here, named, ?_⟩
    have related := declared.rel_declaredMethod? here d.entry.method
    generalize p.declaredMethod? id d.entry.method = search at found related
    generalize listed : c.methods.find? (·.key = d.entry.method) = description at related
    cases related with
    | none => cases found
    | @some m described same =>
        refine ⟨described, List.mem_of_find?_eq_some listed, by simpa using List.find?_some listed, ?_⟩
        rw [← isAbstract_of_bare same]
        cases abstract : p.isAbstract m with
        | false => rfl
        | true => simp [abstract, throw, throwThe, MonadExceptOf.throw] at found
  · rintro ⟨c, member, named, m, inside, isKey, concrete⟩
    obtain ⟨id, here⟩ := List.mem_iff_getElem?.mp member
    have related := declared.rel_declaredMethod? here d.entry.method
    generalize search : p.declaredMethod? id d.entry.method = method at related
    generalize listed : c.methods.find? (·.key = d.entry.method) = description at related
    cases related with
    | none => simpa [isKey] using List.find?_eq_none.mp listed m inside
    | @some found described same =>
        have foundKey : described.key = d.entry.method := by simpa using List.find?_some listed
        have only : described = m := List.inj_on_of_nodup_map (methods c member)
          (List.mem_of_find?_eq_some listed) inside (foundKey.trans isKey.symm)
        have runs : p.isAbstract found = false := by
          rw [isAbstract_of_bare same, only, concrete]
        exact ⟨found, id, ⟨c, here, named⟩, by simp [search, runs, pure, Except.pure]⟩

/-! ## The loader -/

/-- What is loaded passed every check. -/
theorem wellFormed_of_load (loaded : d.load = .ok p) : d.WellFormed := by
  obtain ⟨skeleton, bodies, entry, made, resolved, started, -⟩ := load_eq_ok_iff.mp loaded
  have assembled := declared_assemble made resolved
  obtain ⟨distinct, links, linked, same, acyclic⟩ := skeleton_eq_ok_iff.mp made
  have declared : d.Declared skeleton := same ▸ declared_withLinks linked
  obtain ⟨supertypes, checked⟩ := exists_links_iff.mp ⟨links, linked⟩
  have methods : ∀ c ∈ d.classes, (c.methods.map (·.key)).Nodup := fun c member =>
    (checkMethods_eq_ok_iff.mp (checked c member)).1
  exact {
    names := distinct
    supertypes := supertypes
    methods := methods
    abstract := fun c member => (checkMethods_eq_ok_iff.mp (checked c member)).2.2
    acyclic := (declared.cycleAt?_eq_none_iff distinct).mp acyclic
    bodies := (exists_resolveBodies_iff declared distinct acyclic).mp ⟨bodies, resolved⟩
    entry := (exists_resolveEntry_iff assembled distinct methods).mp ⟨entry, started⟩ }

/-- A description is loaded exactly when it is well formed. -/
theorem loads_iff_wellFormed : (∃ p, d.load = .ok p) ↔ d.WellFormed := by
  constructor
  · rintro ⟨p, loaded⟩
    exact wellFormed_of_load loaded
  · intro wellFormed
    have checked : ∀ c ∈ d.classes, checkMethods c.name [] c.methods = .ok () := fun c member =>
      checkMethods_eq_ok_iff.mpr ⟨wellFormed.methods c member, fun _ _ => List.not_mem_nil,
        wellFormed.abstract c member⟩
    obtain ⟨links, linked⟩ := exists_links_iff.mpr ⟨wellFormed.supertypes, checked⟩
    have declared := declared_withLinks linked
    have acyclic := (declared.cycleAt?_eq_none_iff wellFormed.names).mpr wellFormed.acyclic
    have made := skeleton_eq_ok_iff.mpr ⟨wellFormed.names, links, linked, rfl, acyclic⟩
    obtain ⟨bodies, resolved⟩ :=
      (exists_resolveBodies_iff declared wellFormed.names acyclic).mpr wellFormed.bodies
    obtain ⟨entry, started⟩ :=
      (exists_resolveEntry_iff (declared_assemble made resolved) wellFormed.names wellFormed.methods).mpr
        wellFormed.entry
    exact ⟨_, load_eq_ok_iff.mpr ⟨_, bodies, entry, made, resolved, started, rfl⟩⟩

/-- A cycle through an interface is refused. -/
example : ({ classes := [{ name := "A", super := some "B" }, { name := "B", interfaces := ["A"] }] } :
    Description).load = .error (.cycle "B") := by decide +kernel

end Description

end PointsTo
