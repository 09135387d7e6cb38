/- # Printing -- a loaded program says what its description said

Every number of a loaded program has a name, so a program can be printed as a description again
(`Program.description`).  What comes back is the description that was loaded, with everything written out
that the loader fills in (`Description.canonical`): interfaces are abstract, subsignatures are given, and a
field is referred to through the class that declares it, which is the first one on the superclass chain
(`Description.FirstHolder`).

Main statement: `description_of_load`. -/
import PointsTo.Proofs.Coherence

set_option autoImplicit false

namespace PointsTo

/-! ## Printing a program -/

namespace Program

/-- `C.f`, with the class that declares the field. -/
def fieldReference (p : Program) (f : FieldId) : String :=
  p.className ((p.fields[f]?.map (·.owner)).getD 0) ++ "." ++ (p.fields[f]?.map (·.name)).getD ""

/-- The name of the type that is allocated at a site. -/
def allocatedName (p : Program) (site : SiteId) : String :=
  (p.sites[site]?.map fun site => p.typeName site.type).getD ""

/-- A statement whose variables and allocations have the given names. -/
def printStatement {V A : Type} (p : Program) (var : V → String) (type : A → String) :
    Statement V A → StatementDescription
  | .new lhs allocation => .new (var lhs) (type allocation)
  | .copy lhs rhs => .copy (var lhs) (var rhs)
  | .loadStatic lhs field => .load (var lhs) none (p.fieldReference field)
  | .storeStatic field rhs => .store none (p.fieldReference field) (var rhs)
  | .loadField lhs base field => .load (var lhs) (some (var base)) (p.fieldReference field)
  | .storeField base field rhs => .store (some (var base)) (p.fieldReference field) (var rhs)
  | .loadArray lhs base => .loadArray (var lhs) (var base)
  | .storeArray base rhs => .storeArray (var base) (var rhs)
  | .invoke call => .invoke call.kind (p.className call.target.owner) call.target.subsignature
      (call.receiver.map var) (call.args.map var) (call.result.map var)
  | .ret value => .ret (value.map var)
  | .nop => .nop

/-- A method with the names of its parameters and of what its body mentions. -/
def printMethod (p : Program) (m : Method) : MethodDescription where
  name := m.name
  subsignature := some m.subsignature
  params := m.params.map p.localName
  isStatic := m.isStatic
  isAbstract := m.isAbstract
  body := m.body.map (p.printStatement p.localName p.allocatedName)

def printField (f : Field) : FieldDescription := ⟨f.name, f.isStatic⟩

def printClass (p : Program) (c : Class) : ClassDescription where
  name := c.name
  super := c.super.map p.className
  interfaces := c.interfaces.map p.className
  isInterface := c.isInterface
  isAbstract := c.isAbstract
  fields := c.fields.filterMap fun f => p.fields[f]?.map printField
  methods := c.methods.filterMap fun m => p.methods[m]?.map p.printMethod

/-- The description that the names of a program give. -/
def description (p : Program) : Description where
  classes := p.classes.toList.map p.printClass
  entry := ⟨p.className (p.ownerOf p.entry), (p.methods[p.entry]?.map (·.subsignature)).getD ""⟩

/-- Numbers for variables and sites are undone by names that lead back. -/
theorem printStatement_numbered {V W A B : Type} (p : Program) {s : Statement V A} {number : V → W}
    {var : W → String} {name : V → String} {site : B} {allocated : B → String} {type : A → String}
    (vars : ∀ v ∈ s.mentions, var (number v) = name v)
    (types : ∀ a, s.allocation? = some a → allocated site = type a) :
    p.printStatement var allocated ((s.mapVars number).withAllocation site) =
      p.printStatement name type s := by
  have option (value : Option V) (inside : ∀ v, value = some v → var (number v) = name v) :
      (value.map number).map var = value.map name := by
    cases value <;> simp_all
  cases s with
  | new lhs a =>
      rw [Statement.mapVars, Statement.withAllocation, printStatement, printStatement, types a rfl,
        vars lhs (List.mem_singleton_self lhs)]
  | invoke call =>
      simp only [Statement.mentions, Invocation.mentions, List.mem_append, Option.mem_toList] at vars
      have receiver := option call.receiver fun v here => vars v (.inl (.inl here))
      have result := option call.result fun v here => vars v (.inr here)
      have args : (call.args.map number).map var = call.args.map name := by
        rw [List.map_map]
        exact List.map_congr_left fun v here => vars v (.inl (.inr here))
      simp only [Statement.mapVars, Statement.withAllocation, printStatement, Invocation.mapVars, receiver,
        args, result]
  | ret value =>
      rw [Statement.mapVars, Statement.withAllocation, printStatement, printStatement,
        option value fun v here => vars v (by simp [Statement.mentions, here])]
  | _ => simp_all [printStatement, Statement.mapVars, Statement.withAllocation, Statement.mentions]

end Program

/-! ## What the loader fills in -/

/-- The statement with its field reference replaced. -/
def StatementDescription.mapField (f : String → String) : StatementDescription → StatementDescription
  | .load lhs base field => .load lhs base (f field)
  | .store base field rhs => .store base (f field) rhs
  | s => s

/-- The field reference of a statement. -/
def StatementDescription.field? : StatementDescription → Option String
  | .load _ _ field | .store _ field _ => some field
  | _ => none

/-- Whether a class itself declares a field with a name. -/
def ClassDescription.hasField (c : ClassDescription) (name : String) : Bool :=
  c.fields.any fun f => f.name = name

namespace Description

/-- The first class on the superclass chain of a class, itself included, that declares a field. -/
inductive FirstHolder (d : Description) (field : String) : String → String → Prop
  | here {c : ClassDescription} (declared : c ∈ d.classes) (has : c.hasField field = true) :
      d.FirstHolder field c.name c.name
  | above {c : ClassDescription} {super holder : String} (declared : c ∈ d.classes)
      (lacks : c.hasField field = false) (link : c.super = some super)
      (first : d.FirstHolder field super holder) : d.FirstHolder field c.name holder

/-- The search for the first holder of a field among at most `bound` classes of a chain. -/
def holderUpTo (d : Description) (field : String) : Nat → String → Option String
  | 0, _ => none
  | bound + 1, owner =>
    match d.classes.find? (·.name = owner) with
    | none => none
    | some c => if c.hasField field then some owner else c.super.bind (d.holderUpTo field bound)

/-- A field reference through the class that declares the field. -/
def declaredReference (d : Description) (reference : String) : String :=
  match splitLastText "." reference with
  | none => reference
  | some (owner, field) =>
    match d.holderUpTo field d.classes.length owner with
    | none => reference
    | some holder => holder ++ "." ++ field

/-- The second reference has the first holder of the field for its class. -/
def Redirects (d : Description) (reference redirected : String) : Prop :=
  ∃ owner field holder, reference = owner ++ "." ++ field ∧ '.' ∉ field.toList ∧
    d.FirstHolder field owner holder ∧ redirected = holder ++ "." ++ field

/-- A method with its subsignature and with redirected field references. -/
def canonicalMethod (d : Description) (m : MethodDescription) : MethodDescription :=
  { m with subsignature := some m.key, body := m.body.map (·.mapField d.declaredReference) }

def canonicalClass (d : Description) (c : ClassDescription) : ClassDescription :=
  { c with isAbstract := c.isAbstract || c.isInterface, methods := c.methods.map d.canonicalMethod }

/-- The description with everything written out that the loader fills in. -/
def canonical (d : Description) : Description := { d with classes := d.classes.map d.canonicalClass }

variable {d : Description} {skeleton p : Program}

/-! ## Names of classes -/

theorem find?_name (distinct : (d.classes.map (·.name)).Nodup) {c : ClassDescription}
    (member : c ∈ d.classes) : d.classes.find? (·.name = c.name) = some c := by
  obtain ⟨found, search⟩ : ∃ found, d.classes.find? (·.name = c.name) = some found := by
    rw [← Option.isSome_iff_exists, List.find?_isSome]
    exact ⟨c, member, by simp⟩
  have same : found.name = c.name := by simpa using List.find?_some search
  rw [search, eq_of_name distinct (List.mem_of_find?_eq_some search) member same]

section Names

variable (declared : d.Declared p) (distinct : (d.classes.map (·.name)).Nodup)
include declared distinct

theorem Declared.className_eq {name : String} {id : ClassId} (named : d.classNamed? name = some id) :
    p.className id = name := by
  obtain ⟨c, here, rfl⟩ := (classNamed?_eq_some_iff distinct).mp named
  obtain ⟨made, there, at'⟩ := declared.made here
  simp [Program.className, there, at'.name]

theorem Declared.map_className {names : List String} {ids : List ClassId}
    (linked : ids.map some = names.map d.classNamed?) : ids.map p.className = names := by
  rw [← List.forall₂_eq_eq_eq, List.forall₂_map_left_iff, List.forall₂_map_right_iff] at linked
  refine List.forall₂_eq_eq_eq ▸ List.forall₂_map_left_iff.mpr (linked.imp fun id name named => ?_)
  exact declared.className_eq distinct named.symm

theorem Declared.map_super {name : Option String} {id : Option ClassId}
    (linked : id.map some = name.map d.classNamed?) : id.map p.className = name := by
  cases name with
  | none => cases id <;> simp_all
  | some name =>
      cases id with
      | none => cases linked
      | some id => exact congrArg some (declared.className_eq distinct (Option.some.inj linked).symm)

end Names

/-! ## Field references -/

section Fields

variable (declared : d.Declared p) (distinct : (d.classes.map (·.name)).Nodup)
include declared distinct

/-- The field that is found along a chain of numbers is the one of the first holder along the chain of
names. -/
theorem Declared.firstHolder_of_chain {bound : Nat} {id : ClassId} {c : ClassDescription}
    (here : d.classes[id]? = some c) {name : String} {f : FieldId}
    (found : (p.chainUpTo bound id).findSome? (p.declaredField? · name) = some f) :
    ∃ holder, d.FirstHolder name c.name holder ∧ d.holderUpTo name bound c.name = some holder ∧
      p.fieldReference f = holder ++ "." ++ name := by
  induction bound generalizing id c with
  | zero => cases found
  | succ bound ih =>
      have inClasses := List.mem_of_getElem? here
      obtain ⟨made, there, at'⟩ := declared.made here
      have superOf : p.superOf id = made.super := by simp [Program.superOf, there]
      have className : p.className id = c.name := by simp [Program.className, there, at'.name]
      rw [holderUpTo, find?_name distinct inClasses]
      rw [Program.chainUpTo, List.findSome?_cons] at found
      have related := declared.rel_declaredField? here name
      generalize p.declaredField? id name = own at found related
      generalize listed : c.fields.find? (·.name = name) = described at related
      cases related with
      | @some own described reads =>
          cases found
          have named : described.name = name := by simpa using List.find?_some listed
          have has : c.hasField name = true :=
            List.any_eq_true.mpr ⟨described, List.mem_of_find?_eq_some listed, by simpa using named⟩
          refine ⟨c.name, .here inClasses has, by simp [has], ?_⟩
          simp [Program.fieldReference, reads, FieldDescription.declared, className, named]
      | none =>
          have lacks : c.hasField name = false := by
            rw [ClassDescription.hasField, List.any_eq_false]
            exact List.find?_eq_none.mp listed
          have linked := at'.super
          rw [superOf] at found
          cases super : made.super with
          | none => simp [super] at found
          | some id' =>
              rw [super] at found linked
              obtain ⟨target, isSuper, named⟩ := Option.map_eq_some_iff.mp linked.symm
              obtain ⟨c', here', rfl⟩ := (classNamed?_eq_some_iff distinct).mp named
              obtain ⟨holder, first, searched, printed⟩ := ih here' found
              exact ⟨holder, .above inClasses lacks isSuper first, by simp [lacks, isSuper, searched],
                printed⟩

/-- A reference that the loader resolves goes to the first holder of its field. -/
theorem Declared.redirects {reference : String} {f : FieldId} (found : p.resolveField reference = .ok f) :
    d.Redirects reference (d.declaredReference reference) ∧
      p.fieldReference f = d.declaredReference reference := by
  obtain ⟨owner, name, id, sides, resolved, inherited⟩ := Program.resolveField_eq_ok_iff.mp found
  obtain ⟨whole, last⟩ := splitLastText_point.mp sides
  obtain ⟨c, here, rfl⟩ :=
    (classNamed?_eq_some_iff distinct).mp (declared.resolveClass_eq_ok_iff.mp resolved)
  rw [Program.inheritedField?, Program.superChain, declared.size] at inherited
  obtain ⟨holder, first, searched, printed⟩ := declared.firstHolder_of_chain distinct here inherited
  have redirected : d.declaredReference reference = holder ++ "." ++ name := by
    rw [declaredReference, sides]
    simp only [searched]
  exact ⟨⟨c.name, name, holder, whole, last, first, redirected⟩, printed.trans redirected.symm⟩

/-- A resolved statement is printed as it was described, up to its field reference. -/
theorem Declared.printStatement_of_resolves {source : StatementDescription} {resolved : ResolvedStatement}
    (resolves : p.Resolves source resolved) :
    p.printStatement id p.typeName resolved = source.mapField d.declaredReference := by
  have class_ {name : String} {id : ClassId} (found : p.resolveClass name = .ok id) : p.className id = name :=
    declared.className_eq distinct (declared.resolveClass_eq_ok_iff.mp found)
  cases resolves with
  | @new lhs text type found =>
      unfold Program.resolveType at found
      split at found
      · cases found
        rfl
      · obtain ⟨c, known, rfl⟩ := map_eq_ok_iff.mp found
        simp [Program.printStatement, Program.typeName, StatementDescription.mapField, class_ known]
  | loadField found | loadStatic found | storeField found | storeStatic found =>
      simp [Program.printStatement, StatementDescription.mapField, (declared.redirects distinct found).2]
  | invoke agree found => simp [Program.printStatement, StatementDescription.mapField, class_ found]
  | _ => simp [Program.printStatement, StatementDescription.mapField]

end Fields

/-! ## Methods -/

theorem length_numberSites {V : Type} (start : SiteId) (body : List (Statement V TypeRef)) :
    (numberSites start body).length = body.length := by
  induction body generalizing start with
  | nil => rfl
  | cons s rest ih => rw [numberSites, List.length_cons, ih, List.length_cons]

theorem Lowers.printStatement_eq (lowers : d.Lowers skeleton p) {V A : Type} (var : V → String)
    (type : A → String) (s : Statement V A) :
    p.printStatement var type s = skeleton.printStatement var type s := by
  cases s <;> simp [Program.printStatement, Program.fieldReference, Program.className, lowers.classes,
    lowers.fields]

theorem Lowers.typeName_eq (lowers : d.Lowers skeleton p) : p.typeName = skeleton.typeName := by
  funext type
  cases type <;> simp [Program.typeName, Program.className, lowers.classes]

section Completes

variable {m : MethodId} {method : Method} {described : MethodDescription} {body : List ResolvedStatement}
  (completes : d.Completes skeleton p m described body method)
include completes

/-- The variables of a method are its names in order. -/
theorem Completes.getElem?_vars {start : VarId}
    (locals : method.locals = List.range' start (localNames described body).length) {i : Nat}
    (bound : i < (localNames described body).length) :
    p.vars[start + i]? = some ⟨(localNames described body)[i], m⟩ := by
  have read := congrArg (·[i]?) completes.locals
  simpa only [locals, List.getElem?_map, List.getElem?_range' bound, Nat.one_mul, Option.map_some,
    List.getElem?_eq_getElem bound, Option.some.injEq] using read

/-- The number of a variable leads back to its name. -/
theorem Completes.localName_number {start : VarId}
    (locals : method.locals = List.range' start (localNames described body).length) {name : String}
    (known : name ∈ localNames described body) :
    p.localName (numberFrom start (localNames described body) name) = name := by
  have read := completes.getElem?_vars locals (List.idxOf_lt_length_of_mem known)
  simp [Program.localName, numberFrom, read]

/-- A completed method is printed as it was described. -/
theorem Completes.printMethod_eq (lowers : d.Lowers skeleton p) (distinct : (d.classes.map (·.name)).Nodup) :
    p.printMethod method = d.canonicalMethod described := by
  obtain ⟨owner, start, firstSite, same⟩ := completes.completed
  have names : ∀ name ∈ localNames described body,
      p.localName (numberFrom start (localNames described body) name) = name :=
    fun name known => completes.localName_number (by rw [same]; rfl) known
  have params : method.params.map p.localName = described.params := by
    rw [same]
    simp only [completeMethod, List.map_map]
    refine (List.map_congr_left fun name inside => ?_).trans (List.map_id _)
    exact names name (mem_localNames.mpr (.inr (.inl inside)))
  have statements : method.body.map (p.printStatement p.localName p.allocatedName) =
      described.body.map (·.mapField d.declaredReference) := by
    have resolved := mapM_eq_ok_iff.mp completes.resolved
    refine List.ext_getElem? fun i => ?_
    rw [List.getElem?_map, List.getElem?_map]
    cases there : method.body[i]? with
    | none =>
        have beyond : described.body.length ≤ i := by
          have length := List.getElem?_eq_none_iff.mp there
          rw [same, completeMethod, length_numberSites, List.length_map] at length
          rw [resolved.length_eq]
          exact length
        rw [List.getElem?_eq_none beyond]
        rfl
    | some s =>
        have inMethod := there
        rw [same] at there
        obtain ⟨numbered, site, inNumbered, rfl⟩ := getElem?_numberSites there
        rw [List.getElem?_map] at inNumbered
        obtain ⟨original, inBody, rfl⟩ := Option.map_eq_some_iff.mp inNumbered
        obtain ⟨source, inSource, found⟩ := rel_getElem? resolved inBody
        have mentioned := List.mem_of_getElem? inBody
        have types : ∀ type, original.allocation? = some type → p.allocatedName site = p.typeName type := by
          intro type allocated
          obtain ⟨lhs, rfl⟩ := Statement.exists_of_allocation? allocated
          obtain ⟨type', place, recorded⟩ := completes.site_of_new inMethod
          obtain ⟨lhs', again⟩ := mem_allocationsFrom.mp place
          cases inBody.symm.trans again
          simp [Program.allocatedName, recorded]
        have vars : ∀ name ∈ original.mentions,
            p.localName (numberFrom start (localNames described body) name) = id name :=
          fun name inside => names name (mem_localNames.mpr (.inr (.inr ⟨original, mentioned, inside⟩)))
        rw [inSource, Option.map_some, Option.map_some, Program.printStatement_numbered p vars types,
          lowers.printStatement_eq, lowers.typeName_eq]
        exact congrArg some (lowers.declared_skeleton.printStatement_of_resolves distinct
          (Program.resolveStatement_eq_ok_iff.mp found))
  rw [Program.printMethod, params, statements, same]
  rfl

end Completes

/-! ## Classes and their members -/

/-- A block has its length. -/
theorem lengths_blocks (start : Nat) (lengths : List Nat) :
    (blocks start lengths).map List.length = lengths := by
  induction lengths generalizing start with
  | nil => rfl
  | cons length rest ih => rw [blocks, List.map_cons, ih, List.length_range']

theorem filterMap_of_map {α β : Type} {f : α → Option β} {xs : List α} {ys : List β}
    (reads : xs.map f = ys.map some) : xs.filterMap f = ys := by
  have same := congrArg (List.filterMap id) reads
  rwa [List.filterMap_map, List.filterMap_map, Function.id_comp, Function.id_comp,
    List.filterMap_some] at same

section Members

variable (declared : d.Declared p)
include declared

/-- What is read off the classes is what is read off the described classes. -/
theorem Declared.map_classes {α : Type} {read : Class → α} {readDescribed : ClassDescription → α}
    (agree : ∀ {id c made}, d.classes[id]? = some c → p.classes[id]? = some made →
      d.ClassAt p id c made → read made = readDescribed c) :
    p.classes.toList.map read = d.classes.map readDescribed := by
  refine List.ext_getElem? fun id => ?_
  rw [List.getElem?_map, List.getElem?_map, Array.getElem?_toList]
  cases here : d.classes[id]? with
  | none =>
      have beyond := List.getElem?_eq_none_iff.mp here
      rw [Array.getElem?_eq_none (declared.size ▸ beyond)]
      rfl
  | some c =>
      obtain ⟨made, there, at'⟩ := declared.made here
      rw [there]
      exact congrArg some (agree here there at')

theorem Declared.map_length_methods : (p.classes.toList.map (·.methods)).map List.length =
    (d.classes.map (·.methods)).map List.length := by
  rw [List.map_map, List.map_map]
  refine declared.map_classes fun {id c made} _ _ at' => ?_
  simpa using congrArg List.length at'.methods

/-- There are as many methods as described ones. -/
theorem Declared.size_methods : p.methods.size = (d.classes.flatMap (·.methods)).length := by
  rw [List.flatMap_def, List.length_flatten, ← declared.map_length_methods, ← List.length_flatten,
    ← List.flatMap_def, declared.methods, List.length_range]

/-- The blocks of methods of the classes are those of the described classes. -/
theorem Declared.methods_eq_blocks : p.classes.toList.map (·.methods) =
    blocks 0 ((d.classes.map (·.methods)).map List.length) := by
  refine List.eq_iff_flatten_eq.mpr ⟨?_, by rw [declared.map_length_methods, lengths_blocks]⟩
  rw [← List.flatMap_def, declared.methods, flatten_blocks_lengths, declared.size_methods, List.flatMap_def]

/-- The methods of a class are its described ones. -/
theorem Declared.map_methods {id : ClassId} {c : ClassDescription} {made : Class}
    (here : d.classes[id]? = some c) (there : p.classes[id]? = some made) :
    made.methods.map ((d.classes.flatMap (·.methods))[·]?) = c.methods.map some := by
  have row : (d.classes.map (·.methods))[id]? = some c.methods := by rw [List.getElem?_map, here]; rfl
  obtain ⟨ids, block, reads⟩ := map_getElem?_blocks [] row
  rw [List.length_nil, ← declared.methods_eq_blocks, List.getElem?_map, Array.getElem?_toList, there] at block
  cases block
  rwa [List.nil_append, ← List.flatMap_def] at reads

variable (lowers : d.Lowers skeleton p) (distinct : (d.classes.map (·.name)).Nodup)
include lowers distinct

/-- A class is printed as it was described. -/
theorem Declared.printClass_eq {id : ClassId} {c : ClassDescription} {made : Class}
    (here : d.classes[id]? = some c) (there : p.classes[id]? = some made) (at' : d.ClassAt p id c made) :
    p.printClass made = d.canonicalClass c := by
  have fields : made.fields.filterMap (fun f => p.fields[f]?.map Program.printField) = c.fields := by
    refine filterMap_of_map ?_
    have reads := congrArg (List.map (Option.map Program.printField)) at'.fields
    simpa [Function.comp_def, Program.printField, FieldDescription.declared] using reads
  have methods : made.methods.filterMap (fun m => p.methods[m]?.map p.printMethod) =
      c.methods.map d.canonicalMethod := by
    refine filterMap_of_map ?_
    have source := declared.map_methods here there
    have canonical := congrArg (List.map (Option.map d.canonicalMethod)) source
    rw [List.map_map, List.map_map] at canonical
    rw [List.map_map]
    refine Eq.trans (List.map_congr_left fun m member => ?_) canonical
    obtain ⟨method, found, -⟩ := declared.methodOwner there member
    obtain ⟨described, body, completes⟩ := lowers.methods found
    simp [found, completes.source, completes.printMethod_eq lowers distinct]
  rw [Program.printClass, fields, methods, declared.map_className distinct at'.interfaces,
    declared.map_super distinct at'.super, at'.name, at'.isInterface, at'.isAbstract]
  rfl

end Members

/-- The entry is the method that the description names. -/
theorem Declared.printEntry_eq (declared : d.Declared p) (distinct : (d.classes.map (·.name)).Nodup)
    {m : MethodId} (found : d.resolveEntry p = .ok m) :
    p.className (p.ownerOf m) = d.entry.owner ∧
      (p.methods[m]?.map (·.subsignature)).getD "" = d.entry.method := by
  obtain ⟨c, named, rest⟩ := bind_eq_ok_iff.mp found
  cases search : p.declaredMethod? c d.entry.method with
  | none =>
      rw [search] at rest
      cases rest
  | some entry =>
      rw [search] at rest
      have same : entry = m := by
        cases abstract : p.isAbstract entry with
        | true => simp [abstract, throw, throwThe, MonadExceptOf.throw] at rest
        | false => simpa [abstract, pure, Except.pure] using rest
      subst same
      replace named := Description.resolveClass_eq_ok_iff.mp named
      obtain ⟨described, here, -⟩ := (classNamed?_eq_some_iff distinct).mp named
      obtain ⟨made, there, at'⟩ := declared.made here
      have listed : entry ∈ made.methods := by
        simpa [Program.methodsOf, there] using List.mem_of_find?_eq_some search
      obtain ⟨method, found, owner⟩ := declared.methodOwner there listed
      have subsignature := List.find?_some search
      constructor
      · simpa [Program.ownerOf, found, owner] using declared.className_eq distinct named
      · simpa [found] using subsignature

/-! ## Programs -/

/-- A loaded program is printed as its description with everything written out that the loader fills in, and
each field reference then goes to the first class on the superclass chain that declares the field. -/
theorem description_of_load (loaded : d.load = .ok p) : p.description = d.canonical ∧
    ∀ c ∈ d.classes, ∀ m ∈ c.methods, ∀ s ∈ m.body, ∀ reference, s.field? = some reference →
      d.Redirects reference (d.declaredReference reference) := by
  obtain ⟨skeleton, lowers⟩ := exists_lowers loaded
  have declared := declared_of_load loaded
  obtain ⟨distinct, -, -, -, acyclic⟩ := skeleton_eq_ok_iff.mp lowers.made
  have classes : p.classes.toList.map p.printClass = d.classes.map d.canonicalClass :=
    declared.map_classes (declared.printClass_eq lowers distinct)
  constructor
  · obtain ⟨_, bodies, entry, made, resolved, started, rfl⟩ := load_eq_ok_iff.mp loaded
    obtain ⟨owner, subsignature⟩ := (declared_assemble made resolved).printEntry_eq distinct started
    exact congrArg₂ Description.mk classes (congrArg₂ EntryDescription.mk owner subsignature)
  · intro c inDescription m inClass s inBody reference named
    have admitted := (wellFormed_of_load loaded).bodies c inDescription m inClass s inBody
    have known : d.NamesField reference := by
      cases s with
      | load | store =>
          cases named
          exact admitted
      | _ => cases named
    obtain ⟨f, found⟩ := (exists_resolveField_iff lowers.declared_skeleton distinct acyclic).mpr known
    exact (lowers.declared_skeleton.redirects distinct found).1

/-- A field that is referred to through a subclass is printed through the class that declares it. -/
theorem description_of_load_shelves : shelves.load = .ok shelves.program ∧
    shelves.program.description = shelves.canonical ∧ shelves.Redirects "Shelf.item" "Box.item" := by
  have loaded : shelves.load = .ok shelves.program := by decide +kernel
  obtain ⟨printed, redirects⟩ := description_of_load loaded
  have shelf : shelves.classes[2] ∈ shelves.classes := List.getElem_mem _
  have put : shelves.classes[2].methods[0] ∈ shelves.classes[2].methods := List.getElem_mem _
  have redirected : shelves.declaredReference "Shelf.item" = "Box.item" := by decide +kernel
  refine ⟨loaded, printed, ?_⟩
  rw [← redirected]
  exact redirects _ shelf _ put _ List.mem_cons_self "Shelf.item" rfl

end Description

end PointsTo
