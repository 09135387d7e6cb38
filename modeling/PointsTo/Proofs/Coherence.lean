/- # Coherence -- the parts of a loaded program fit together

The loader hands out numbers for classes, fields, methods, variables and allocation sites.  Every number that
a loaded program mentions is in use (`Program.InRange`), a method has exactly the variables that name it as
theirs (`Program.MethodCoherent`), and a site stands for one allocation statement.

Main statement: `coherent_of_load`. -/
import PointsTo.Proofs.Acceptance
import PointsTo.Proofs.Loaded

set_option autoImplicit false

namespace PointsTo

/-! ## Numbers in use -/

/-- The class of an object type. -/
def TypeRef.class? : TypeRef → Option ClassId
  | .ofClass c => some c
  | .array _ => none

namespace Program

/-- The classes that a program mentions. -/
def mentionedClasses (p : Program) : List ClassId :=
  p.classes.toList.flatMap (fun c => c.super.toList ++ c.interfaces) ++ p.fields.toList.map (·.owner) ++
    p.methods.toList.map (·.owner) ++
    p.methods.toList.flatMap (fun m => m.body.filterMap fun s => s.call?.map (·.target.owner)) ++
    p.sites.toList.filterMap (·.type.class?)

/-- The fields that a program mentions. -/
def mentionedFields (p : Program) : List FieldId :=
  p.classes.toList.flatMap (·.fields) ++ p.methods.toList.flatMap fun m => m.body.flatMap (·.fields)

/-- The methods that a program mentions. -/
def mentionedMethods (p : Program) : List MethodId :=
  p.entry :: (p.classes.toList.flatMap (·.methods) ++ p.vars.toList.map (·.method) ++
    p.sites.toList.map (·.method))

/-- The variables that a program mentions. -/
def mentionedVars (p : Program) : List VarId :=
  p.methods.toList.flatMap fun m => m.locals ++ m.mentions

/-- The allocation sites that a program mentions. -/
def mentionedSites (p : Program) : List SiteId := p.methods.toList.flatMap (·.sites)

/-- A program uses every number that it mentions. -/
structure InRange (p : Program) : Prop where
  classes : ∀ c ∈ p.mentionedClasses, c < p.classes.size
  fields : ∀ f ∈ p.mentionedFields, f < p.fields.size
  methods : ∀ m ∈ p.mentionedMethods, m < p.methods.size
  vars : ∀ v ∈ p.mentionedVars, v < p.vars.size
  sites : ∀ s ∈ p.mentionedSites, s < p.sites.size

/-- A method and its variables fit together. -/
structure MethodCoherent (p : Program) (m : MethodId) (method : Method) : Prop where
  locals : ∀ v, v ∈ method.locals ↔ p.Owns m v
  ascending : method.locals.Pairwise (· < ·)
  names : (method.locals.map p.localName).Nodup
  mentions : ∀ v ∈ method.mentions, v ∈ method.locals
  this : method.this.isSome ↔ method.isStatic = false
  returns : method.returns.Nodup ∧ ∀ v, v ∈ method.returns ↔ .ret (some v) ∈ method.body
  receivers : ∀ {call}, .invoke call ∈ method.body → (call.receiver = none ↔ call.kind = .static)

/-- The type that a text stands for. -/
def TypeOf (p : Program) (text : String) : TypeRef → Prop
  | .array array => array = text ∧ Description.IsArrayText text
  | .ofClass c => p.classNamed? text = some c ∧ ¬ Description.IsArrayText text

end Program

/-- The parts of a program that comes from a description fit together. -/
structure Description.Coherent (d : Description) (p : Program) : Prop where
  inRange : p.InRange
  /-- Names and numbers of classes correspond one to one. -/
  classes : ∀ {name : String} {id : ClassId},
    p.classNamed? name = some id ↔ ∃ c, p.classes[id]? = some c ∧ c.name = name
  fieldOwner : ∀ {id : ClassId} {c : Class}, p.classes[id]? = some c →
    ∀ f ∈ c.fields, ∃ field, p.fields[f]? = some field ∧ field.owner = id
  methodOwner : ∀ {id : ClassId} {c : Class}, p.classes[id]? = some c →
    ∀ m ∈ c.methods, ∃ method, p.methods[m]? = some method ∧ method.owner = id
  methodOnce : ∀ m < p.methods.size, (p.classes.toList.flatMap (·.methods)).count m = 1
  methods : ∀ {m : MethodId} {method : Method}, p.methods[m]? = some method → p.MethodCoherent m method
  /-- Allocation statements and sites correspond one to one. -/
  sites : ∀ {m : MethodId} {i : Nat} {site : SiteId},
    (∃ lhs, (p.bodyOf m)[i]? = some (.new lhs site)) ↔ ∃ type, p.sites[site]? = some ⟨m, i, type⟩
  /-- A site has the type that the described statement allocates. -/
  siteTypes : ∀ {m : MethodId} {i : Nat} {site : SiteId} {type : TypeRef},
    p.sites[site]? = some ⟨m, i, type⟩ →
      ∃ described lhs text, (d.classes.flatMap (·.methods))[m]? = some described ∧
        described.body[i]? = some (.new lhs text) ∧ p.TypeOf text type

namespace Description

variable {d : Description} {skeleton p : Program} {m : MethodId} {method : Method}
  {described : MethodDescription} {body : List ResolvedStatement}

theorem Lowers.methodCoherent (lowers : d.Lowers skeleton p) (here : p.methods[m]? = some method) :
    p.MethodCoherent m method := by
  obtain ⟨described, body, completes⟩ := lowers.methods here
  constructor
  case locals =>
    intro v
    constructor
    · exact completes.owns_of_mem_locals
    · intro owns
      obtain ⟨var, read, rfl⟩ := Option.map_eq_some_iff.mp owns
      obtain ⟨other, there, member⟩ := lowers.exists_method read
      cases there.symm.trans here
      exact member
  case ascending => exact completes.ascending
  case names =>
    rw [completes.localNames_eq]
    exact nodup_eraseDups _
  case mentions => exact fun v => completes.mem_locals_of_mentions
  case this => exact completes.isSome_this
  case returns =>
    rw [completes.returns_eq]
    exact ⟨nodup_eraseDups _, fun v => List.mem_eraseDups.trans mem_returned⟩
  case receivers =>
    intro call inBody
    obtain ⟨source, -, resolved, number, site, resolves, same⟩ := completes.exists_statement inBody
    cases resolves with
    | invoke agree found =>
        cases same
        simpa [Invocation.mapVars] using agree
    | _ => cases same

/-! ## Members and their owners -/

namespace Declared

variable (declared : d.Declared p)
include declared

theorem exists_described {id : ClassId} {c : Class} (here : p.classes[id]? = some c) :
    ∃ described, d.classes[id]? = some described ∧ d.ClassAt p id described c := by
  have bound : id < d.classes.length := declared.size ▸ (Array.getElem?_eq_some_iff.mp here).1
  have there := List.getElem?_eq_getElem bound
  obtain ⟨made, same, at'⟩ := declared.made there
  cases here.symm.trans same
  exact ⟨_, there, at'⟩

theorem fieldOwner {id : ClassId} {c : Class} (here : p.classes[id]? = some c) {f : FieldId}
    (member : f ∈ c.fields) : ∃ field, p.fields[f]? = some field ∧ field.owner = id := by
  obtain ⟨described, there, at'⟩ := declared.exists_described here
  have read : p.fields[f]? ∈ c.fields.map (p.fields[·]?) := List.mem_map_of_mem member
  rw [at'.fields] at read
  obtain ⟨field, -, same⟩ := List.mem_map.mp read
  exact ⟨_, same.symm, rfl⟩

theorem methodOwner {id : ClassId} {c : Class} (here : p.classes[id]? = some c) {m : MethodId}
    (member : m ∈ c.methods) : ∃ method, p.methods[m]? = some method ∧ method.owner = id := by
  obtain ⟨described, there, at'⟩ := declared.exists_described here
  have read : p.methods[m]?.map (·.bare) ∈ c.methods.map fun m => p.methods[m]?.map (·.bare) :=
    List.mem_map_of_mem member
  rw [at'.methods] at read
  obtain ⟨source, -, same⟩ := List.mem_map.mp read
  obtain ⟨method, found, bare⟩ := Option.map_eq_some_iff.mp same.symm
  exact ⟨method, found, congrArg Method.owner bare⟩

theorem lt_of_fieldOwner {f : FieldId} {field : Field} (here : p.fields[f]? = some field) :
    field.owner < p.classes.size := by
  obtain ⟨id, c, there, member⟩ := exists_owner declared.fields (Array.getElem?_eq_some_iff.mp here).1
  obtain ⟨_, found, rfl⟩ := declared.fieldOwner there member
  cases found.symm.trans here
  exact (Array.getElem?_eq_some_iff.mp there).1

theorem lt_of_methodOwner {m : MethodId} {method : Method} (here : p.methods[m]? = some method) :
    method.owner < p.classes.size := by
  obtain ⟨id, c, there, member⟩ := exists_owner declared.methods (Array.getElem?_eq_some_iff.mp here).1
  obtain ⟨_, found, rfl⟩ := declared.methodOwner there member
  cases found.symm.trans here
  exact (Array.getElem?_eq_some_iff.mp there).1

theorem lt_of_mem_fieldsOf {c : ClassId} {f : FieldId} (member : f ∈ p.fieldsOf c) : f < p.fields.size := by
  cases there : p.classes[c]? with
  | none => simp [Program.fieldsOf, there] at member
  | some made => exact lt_of_owner declared.fields there (by simpa [Program.fieldsOf, there] using member)

theorem lt_of_mem_methodsOf {c : ClassId} {m : MethodId} (member : m ∈ p.methodsOf c) :
    m < p.methods.size := by
  cases there : p.classes[c]? with
  | none => simp [Program.methodsOf, there] at member
  | some made => exact lt_of_owner declared.methods there (by simpa [Program.methodsOf, there] using member)

theorem lt_of_inheritedField? {c : ClassId} {name : String} {f : FieldId}
    (found : p.inheritedField? c name = some f) : f < p.fields.size := by
  obtain ⟨holder, -, inHolder⟩ := List.exists_of_findSome?_eq_some found
  exact declared.lt_of_mem_fieldsOf (List.mem_of_find?_eq_some inHolder)

theorem lt_of_resolveClass {name : String} {c : ClassId} (found : p.resolveClass name = .ok c) :
    c < p.classes.size :=
  declared.lt_of_classNamed? (declared.resolveClass_eq_ok_iff.mp found)

theorem lt_of_resolveField {reference : String} {f : FieldId} (found : p.resolveField reference = .ok f) :
    f < p.fields.size := by
  obtain ⟨_, _, _, _, _, inherited⟩ := Program.resolveField_eq_ok_iff.mp found
  exact declared.lt_of_inheritedField? inherited

/-- The fields that a resolved statement names are in use. -/
theorem lt_of_mem_resolved_fields {source : StatementDescription} {resolved : ResolvedStatement}
    (resolves : p.Resolves source resolved) {f : FieldId} (named : f ∈ resolved.fields) :
    f < p.fields.size := by
  cases resolves with
  | loadField found | loadStatic found | storeField found | storeStatic found =>
      rw [List.mem_singleton.mp named]
      exact declared.lt_of_resolveField found
  | _ => cases named

/-- The class that a resolved call names is in use. -/
theorem lt_of_resolved_call {source : StatementDescription} {resolved : ResolvedStatement}
    (resolves : p.Resolves source resolved) {call : Invocation String} (called : resolved.call? = some call) :
    call.target.owner < p.classes.size := by
  cases resolves with
  | invoke agree found =>
      cases called
      exact declared.lt_of_resolveClass found
  | _ => cases called

theorem lt_of_typeOf {text : String} {type : TypeRef} (typed : p.TypeOf text type) {c : ClassId}
    (named : type.class? = some c) : c < p.classes.size := by
  cases type with
  | ofClass id =>
      cases named
      exact declared.lt_of_classNamed? (declared.classNamed?_eq text ▸ typed.1)
  | array => cases named

theorem lt_of_resolveEntry {m : MethodId} (found : d.resolveEntry p = .ok m) : m < p.methods.size := by
  obtain ⟨c, -, rest⟩ := bind_eq_ok_iff.mp found
  cases search : p.declaredMethod? c d.entry.method with
  | none =>
      rw [search] at rest
      cases rest
  | some entry =>
      rw [search] at rest
      cases abstract : p.isAbstract entry with
      | true => simp [abstract, throw, throwThe, MonadExceptOf.throw] at rest
      | false =>
          simp only [abstract, Bool.false_eq_true, if_false, pure, Except.pure, Except.ok.injEq] at rest
          exact rest ▸ declared.lt_of_mem_methodsOf (List.mem_of_find?_eq_some search)

end Declared

/-! ## Allocation sites -/

theorem Lowers.exists_allocation (lowers : d.Lowers skeleton p) {site : SiteId} {record : Site}
    (here : p.sites[site]? = some record) :
    ∃ method lhs, p.methods[record.method]? = some method ∧
      method.body[record.index]? = some (.new lhs site) := by
  obtain ⟨m, method, found, member⟩ := exists_owner lowers.sites (Array.getElem?_eq_some_iff.mp here).1
  obtain ⟨s, inBody, allocated⟩ := List.mem_filterMap.mp member
  obtain ⟨lhs, rfl⟩ := Statement.exists_of_allocation? allocated
  obtain ⟨i, there⟩ := List.mem_iff_getElem?.mp inBody
  obtain ⟨described, body, completes⟩ := lowers.methods found
  obtain ⟨type, -, recorded⟩ := completes.site_of_new there
  cases recorded.symm.trans here
  exact ⟨method, lhs, found, there⟩

/-- The site of an allocation statement records where it stands, and the statement stands there. -/
theorem Lowers.site_iff (lowers : d.Lowers skeleton p) {i : Nat} {site : SiteId} :
    (∃ lhs, (p.bodyOf m)[i]? = some (.new lhs site)) ↔ ∃ type, p.sites[site]? = some ⟨m, i, type⟩ := by
  constructor
  · rintro ⟨lhs, here⟩
    obtain ⟨method, listed, inBody⟩ := Program.getElem?_of_bodyOf here
    obtain ⟨described, body, completes⟩ := lowers.methods listed
    obtain ⟨type, -, recorded⟩ := completes.site_of_new inBody
    exact ⟨type, recorded⟩
  · rintro ⟨type, recorded⟩
    obtain ⟨method, lhs, found, there⟩ := lowers.exists_allocation recorded
    exact ⟨lhs, by simpa [Program.bodyOf, found] using there⟩

theorem Lowers.typeOf (lowers : d.Lowers skeleton p) {text : String} {type : TypeRef}
    (found : skeleton.resolveType text = .ok type) : p.TypeOf text type := by
  have named : p.classNamed? text = skeleton.classNamed? text := by
    rw [Program.classNamed?, lowers.classes, Program.classNamed?]
  unfold Program.resolveType at found
  split at found
  · rename_i array
    cases found
    exact ⟨rfl, isArrayText_iff.mpr array⟩
  · rename_i notArray
    obtain ⟨c, known, rfl⟩ := map_eq_ok_iff.mp found
    exact ⟨named.trans (Program.resolveClass_eq_ok_iff.mp known), mt isArrayText_iff.mp notArray⟩

/-- A site has the type of the text that is allocated there. -/
theorem Lowers.exists_typeOf (lowers : d.Lowers skeleton p) {i : Nat} {site : SiteId} {type : TypeRef}
    (recorded : p.sites[site]? = some ⟨m, i, type⟩) :
    ∃ described lhs text, (d.classes.flatMap (·.methods))[m]? = some described ∧
      described.body[i]? = some (.new lhs text) ∧ p.TypeOf text type := by
  obtain ⟨method, lhs, found, there⟩ := lowers.exists_allocation recorded
  obtain ⟨described, body, completes⟩ := lowers.methods found
  obtain ⟨_, allocated, same⟩ := completes.site_of_new there
  cases same.symm.trans recorded
  obtain ⟨name, inBody⟩ := mem_allocationsFrom.mp allocated
  obtain ⟨source, inSource, resolved⟩ := rel_getElem? (mapM_eq_ok_iff.mp completes.resolved) inBody
  cases Program.resolveStatement_eq_ok_iff.mp resolved with
  | @new _ text _ found => exact ⟨described, name, text, completes.source, inSource, lowers.typeOf found⟩

/-! ## Loaded programs -/

/-- Every statement of a program is a described one, looked up and numbered. -/
theorem Lowers.exists_resolved (lowers : d.Lowers skeleton p) (listed : method ∈ p.methods.toList) {s : Stmt}
    (inBody : s ∈ method.body) : ∃ source resolved number site, skeleton.Resolves source resolved ∧
      s = (resolved.mapVars number).withAllocation site := by
  obtain ⟨m, there⟩ := Array.getElem?_of_mem (Array.mem_toList_iff.mp listed)
  obtain ⟨described, body, completes⟩ := lowers.methods there
  obtain ⟨source, -, statement⟩ := completes.exists_statement inBody
  exact ⟨source, statement⟩

theorem Lowers.declared_skeleton (lowers : d.Lowers skeleton p) : d.Declared skeleton := by
  obtain ⟨-, links, linked, same, -⟩ := skeleton_eq_ok_iff.mp lowers.made
  exact same ▸ declared_withLinks linked

section InRange

variable (lowers : d.Lowers skeleton p) (declared : d.Declared p)

include lowers declared in
theorem Lowers.lt_of_mem_mentionedClasses {c : ClassId} (mentioned : c ∈ p.mentionedClasses) :
    c < p.classes.size := by
  simp only [Program.mentionedClasses, List.mem_append, List.mem_flatMap, List.mem_map,
    List.mem_filterMap] at mentioned
  obtain (((⟨made, listed, link⟩ | ⟨field, listed, rfl⟩) | ⟨method, listed, rfl⟩) |
    ⟨method, listed, s, inBody, called⟩) | ⟨record, listed, named⟩ := mentioned
  case inl.inl.inl.inl =>
    obtain ⟨id, there⟩ := Array.getElem?_of_mem (Array.mem_toList_iff.mp listed)
    have supertype : c ∈ p.supertypesOf id := by
      simpa [Program.supertypesOf, Program.superOf, Program.interfacesOf, there] using link
    exact declared.lt_of_mem_supertypesOf supertype
  case inl.inl.inl.inr =>
    obtain ⟨f, there⟩ := Array.getElem?_of_mem (Array.mem_toList_iff.mp listed)
    exact declared.lt_of_fieldOwner there
  case inl.inl.inr =>
    obtain ⟨m, there⟩ := Array.getElem?_of_mem (Array.mem_toList_iff.mp listed)
    exact declared.lt_of_methodOwner there
  case inl.inr =>
    obtain ⟨source, resolved, number, site, resolves, rfl⟩ := lowers.exists_resolved listed inBody
    rw [Statement.call?_withAllocation, Statement.call?_mapVars, Option.map_map] at called
    obtain ⟨call, isCall, rfl⟩ := Option.map_eq_some_iff.mp called
    exact lowers.classes ▸ lowers.declared_skeleton.lt_of_resolved_call resolves isCall
  case inr =>
    obtain ⟨site, there⟩ := Array.getElem?_of_mem (Array.mem_toList_iff.mp listed)
    obtain ⟨_, _, text, -, -, typed⟩ := lowers.exists_typeOf there
    exact declared.lt_of_typeOf typed named

include lowers declared in
theorem Lowers.lt_of_mem_mentionedFields {f : FieldId} (mentioned : f ∈ p.mentionedFields) :
    f < p.fields.size := by
  simp only [Program.mentionedFields, List.mem_append, List.mem_flatMap] at mentioned
  obtain ⟨made, listed, member⟩ | ⟨method, listed, s, inBody, named⟩ := mentioned
  case inl =>
    obtain ⟨id, there⟩ := Array.getElem?_of_mem (Array.mem_toList_iff.mp listed)
    exact lt_of_owner declared.fields there member
  case inr =>
    obtain ⟨source, resolved, number, site, resolves, rfl⟩ := lowers.exists_resolved listed inBody
    rw [Statement.fields_withAllocation, Statement.fields_mapVars] at named
    exact lowers.fields ▸ lowers.declared_skeleton.lt_of_mem_resolved_fields resolves named

include lowers declared in
theorem Lowers.lt_of_mem_mentionedMethods (entry : p.entry < p.methods.size)
    (mentioned : m ∈ p.mentionedMethods) : m < p.methods.size := by
  simp only [Program.mentionedMethods, List.mem_cons, List.mem_append, List.mem_flatMap,
    List.mem_map] at mentioned
  obtain rfl | (⟨made, listed, member⟩ | ⟨var, listed, rfl⟩) | ⟨record, listed, rfl⟩ := mentioned
  case inl => exact entry
  case inr.inl.inl =>
    obtain ⟨id, there⟩ := Array.getElem?_of_mem (Array.mem_toList_iff.mp listed)
    exact lt_of_owner declared.methods there member
  case inr.inl.inr =>
    obtain ⟨v, there⟩ := Array.getElem?_of_mem (Array.mem_toList_iff.mp listed)
    obtain ⟨method, found, -⟩ := lowers.exists_method there
    exact (Array.getElem?_eq_some_iff.mp found).1
  case inr.inr =>
    obtain ⟨site, there⟩ := Array.getElem?_of_mem (Array.mem_toList_iff.mp listed)
    obtain ⟨method, _, found, -⟩ := lowers.exists_allocation there
    exact (Array.getElem?_eq_some_iff.mp found).1

include lowers in
theorem Lowers.lt_of_mem_mentionedVars {v : VarId} (mentioned : v ∈ p.mentionedVars) :
    v < p.vars.size := by
  simp only [Program.mentionedVars, List.mem_flatMap, List.mem_append] at mentioned
  obtain ⟨method, listed, used⟩ := mentioned
  obtain ⟨m, there⟩ := Array.getElem?_of_mem (Array.mem_toList_iff.mp listed)
  obtain ⟨described, body, completes⟩ := lowers.methods there
  have member : v ∈ method.locals := used.elim (fun already => already) completes.mem_locals_of_mentions
  exact (completes.owns_of_mem_locals member).lt

include lowers in
theorem Lowers.lt_of_mem_mentionedSites {site : SiteId} (mentioned : site ∈ p.mentionedSites) :
    site < p.sites.size := by
  rw [Program.mentionedSites, lowers.sites] at mentioned
  exact List.mem_range.mp mentioned

end InRange

theorem lt_of_entry (loaded : d.load = .ok p) : p.entry < p.methods.size := by
  obtain ⟨skeleton, bodies, entry, made, resolved, started, rfl⟩ := load_eq_ok_iff.mp loaded
  exact (declared_assemble made resolved).lt_of_resolveEntry started

/-- A loaded program uses every number that it mentions. -/
theorem inRange_of_load (loaded : d.load = .ok p) : p.InRange := by
  obtain ⟨skeleton, lowers⟩ := exists_lowers loaded
  have declared := declared_of_load loaded
  exact {
    classes := fun _ => lowers.lt_of_mem_mentionedClasses declared
    fields := fun _ => lowers.lt_of_mem_mentionedFields declared
    methods := fun _ => lowers.lt_of_mem_mentionedMethods declared (lt_of_entry loaded)
    vars := fun _ => lowers.lt_of_mem_mentionedVars
    sites := fun _ => lowers.lt_of_mem_mentionedSites }

/-- The parts of a loaded program fit together. -/
theorem coherent_of_load (loaded : d.load = .ok p) : d.Coherent p := by
  obtain ⟨skeleton, lowers⟩ := exists_lowers loaded
  have declared := declared_of_load loaded
  have distinct := (skeleton_eq_ok_iff.mp lowers.made).1
  constructor
  case inRange => exact inRange_of_load loaded
  case classes =>
    intro name id
    rw [declared.classNamed?_eq, classNamed?_eq_some_iff distinct]
    constructor
    · rintro ⟨c, here, rfl⟩
      obtain ⟨made, there, at'⟩ := declared.made here
      exact ⟨made, there, at'.name⟩
    · rintro ⟨made, there, rfl⟩
      obtain ⟨c, here, at'⟩ := declared.exists_described there
      exact ⟨c, here, at'.name.symm⟩
  case fieldOwner => exact fun here f => declared.fieldOwner here
  case methodOwner => exact fun here m => declared.methodOwner here
  case methodOnce =>
    intro m bound
    rw [declared.methods]
    exact List.count_eq_one_of_mem List.nodup_range (List.mem_range.mpr bound)
  case methods => exact lowers.methodCoherent
  case sites => exact lowers.site_iff
  case siteTypes => exact lowers.exists_typeOf

/-- A program with inherited fields, a parameter that is given twice and one that is called `this`. -/
def shelves : Description where
  classes := [
    { name := "Store", isInterface := true, methods := [
        { name := "put", params := ["x"], isAbstract := true }] },
    { name := "Box", fields := [{ name := "item" }, { name := "last", isStatic := true }] },
    { name := "Shelf", super := some "Box", interfaces := ["Store"], methods := [
        { name := "put", subsignature := some "put/1", params := ["x", "x", "this"], body := [
          .store (some "this") "Shelf.item" "x",
          .new "row" "Box[]",
          .storeArray "row" "x",
          .load "old" none "Box.last",
          .ret (some "old"),
          .ret (some "x"),
          .ret (some "old")] },
        { name := "main", isStatic := true, body := [
          .new "s" "Shelf",
          .invoke .interface "Store" "put/1" (some "s") ["s"] (some "r")] }] }]
  entry := ⟨"Shelf", "main/0"⟩

theorem coherent_shelves : shelves.load = .ok shelves.program ∧ shelves.Coherent shelves.program :=
  ⟨by decide +kernel, coherent_of_load (by decide +kernel)⟩

end Description

theorem Program.Loaded.inRange {p : Program} (loaded : p.Loaded) : p.InRange := by
  obtain ⟨d, loads⟩ := loaded
  exact Description.inRange_of_load loads

/-- A variable belongs to a method in use. -/
theorem Program.Loaded.exists_method_of_owns {p : Program} (loaded : p.Loaded) {m : MethodId} {v : VarId}
    (owned : p.Owns m v) : ∃ method, p.methods[m]? = some method := by
  obtain ⟨var, read, rfl⟩ := Option.map_eq_some_iff.mp owned
  have named : var.method ∈ p.mentionedMethods := by
    have listed : var.method ∈ p.vars.toList.map (·.method) :=
      List.mem_map_of_mem (Array.mem_toList_iff.mpr (Array.mem_of_getElem? read))
    simp [mentionedMethods, listed]
  exact ⟨_, Array.getElem?_eq_getElem (loaded.inRange.methods _ named)⟩

/-- The variables of a method are those that name it as theirs. -/
theorem Program.Loaded.mem_localsOf_iff {p : Program} (loaded : p.Loaded) {m : MethodId} {v : VarId} :
    v ∈ p.localsOf m ↔ p.Owns m v := by
  cases here : p.methods[m]? with
  | some method =>
      obtain ⟨d, loads⟩ := loaded
      rw [localsOf, here]
      exact ((Description.coherent_of_load loads).methods here).locals v
  | none =>
      have unused : ¬p.Owns m v := by
        intro owned
        obtain ⟨method, found⟩ := loaded.exists_method_of_owns owned
        rw [here] at found
        cases found
      simp [localsOf, here, unused]

theorem Program.Loaded.ascends_localsOf {p : Program} (loaded : p.Loaded) (m : MethodId) :
    (p.localsOf m).Pairwise (· < ·) := by
  cases here : p.methods[m]? with
  | some method =>
      obtain ⟨d, loads⟩ := loaded
      rw [localsOf, here]
      exact ((Description.coherent_of_load loads).methods here).ascending
  | none => simp [localsOf, here]

/-- A method belongs to the class that lists it. -/
theorem Program.Loaded.ownerOf_of_mem_methodsOf {p : Program} (loaded : p.Loaded) {c : ClassId} {m : MethodId}
    (listed : m ∈ p.methodsOf c) : p.ownerOf m = c := by
  obtain ⟨d, loads⟩ := loaded
  cases there : p.classes[c]? with
  | none => simp [methodsOf, there] at listed
  | some made =>
      have member : m ∈ made.methods := by simpa [methodsOf, there] using listed
      obtain ⟨method, found, owned⟩ := (Description.coherent_of_load loads).methodOwner there m member
      simp [ownerOf, found, owned]

/-- A method is listed by its owner and by no other class. -/
theorem Program.Loaded.mem_methodsOf_iff {p : Program} (loaded : p.Loaded) {c : ClassId} {m : MethodId}
    (inUse : m < p.methods.size) : m ∈ p.methodsOf c ↔ p.ownerOf m = c := by
  refine ⟨loaded.ownerOf_of_mem_methodsOf, ?_⟩
  rintro rfl
  have once : (p.classes.toList.flatMap (·.methods)).count m = 1 := by
    obtain ⟨d, loads⟩ := loaded
    exact (Description.coherent_of_load loads).methodOnce m inUse
  obtain ⟨made, member, listed⟩ := List.mem_flatMap.mp (List.count_pos_iff.mp (once ▸ Nat.one_pos))
  obtain ⟨c, there⟩ := Array.getElem?_of_mem (Array.mem_toList_iff.mp member)
  have inClass : m ∈ p.methodsOf c := by simpa [methodsOf, there] using listed
  rw [loaded.ownerOf_of_mem_methodsOf inClass]
  exact inClass

end PointsTo
