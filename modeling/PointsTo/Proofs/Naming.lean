/- # Naming -- links between numbers are links between names

When the names of a description are distinct, each declared name has one number and each number one name.
Links that a program draws between numbers then are the described ones between names, so the two have the
same chains (`reaches_iff`) and the same cycles (`passes_iff`).  In a program without cycles the superclass
chain has every superclass of a class (`mem_superChain_iff`), and what a class declares is found by its name.

Main statements: `exists_inheritedField?_iff` and `rel_declaredMethod?`. -/
import Mathlib.Data.List.Nodup
import PointsTo.Proofs.Acyclicity
import PointsTo.Proofs.Declarations

set_option autoImplicit false

namespace PointsTo

open Relation (ReflTransGen TransGen)

/-! ## Lists of results -/

/-- The first elements of related lists with related properties are related. -/
theorem rel_find? {α β : Type} {R : α → β → Prop} {P : α → Bool} {Q : β → Bool} {xs : List α} {ys : List β}
    (agree : ∀ {x y}, R x y → P x = Q y) (related : List.Forall₂ R xs ys) :
    Option.Rel R (xs.find? P) (ys.find? Q) := by
  induction related with
  | nil => exact .none
  | @cons x y xs ys first _ ih =>
      rw [List.find?_cons, List.find?_cons, ← agree first]
      cases P x with
      | true => exact .some first
      | false => exact ih

theorem isSome_of_rel {α β : Type} {R : α → β → Prop} {x : Option α} {y : Option β}
    (related : Option.Rel R x y) : x.isSome = y.isSome := by
  cases related <;> rfl

/-- Chains can be followed on the other side of a correspondence when single steps can. -/
theorem exists_reflTransGen {α β : Type} {R : α → α → Prop} {S : β → β → Prop} (same : α → β → Prop)
    (follow : ∀ {a a' b}, same a b → R a a' → ∃ b', S b b' ∧ same a' b') {a a' : α} {b : β}
    (start : same a b) (chain : ReflTransGen R a a') : ∃ b', ReflTransGen S b b' ∧ same a' b' := by
  induction chain with
  | refl => exact ⟨b, .refl, start⟩
  | tail _ step ih =>
      obtain ⟨middle, before, there⟩ := ih
      obtain ⟨b', last, here⟩ := follow there step
      exact ⟨b', .tail before last, here⟩

/-! ## The superclass chain -/

namespace Program

variable {p : Program}

/-- The superclass of a class as a link. -/
def superLinks (p : Program) (c : ClassId) : List ClassId := (p.superOf c).toList

theorem mem_supertypesOf_of_superLinks {c d : ClassId} (link : d ∈ p.superLinks c) : d ∈ p.supertypesOf c :=
  List.mem_append_left _ link

theorem reaches_supertypesOf {c d : ClassId} (reaches : Reaches p.superLinks c d) :
    Reaches p.supertypesOf c d :=
  ReflTransGen.mono (fun _ _ => mem_supertypesOf_of_superLinks) c d reaches

theorem reaches_of_mem_chainUpTo {bound : Nat} {c h : ClassId} (member : h ∈ p.chainUpTo bound c) :
    Reaches p.superLinks c h := by
  induction bound generalizing c with
  | zero => cases member
  | succ bound ih =>
      rw [chainUpTo] at member
      rcases List.mem_cons.mp member with rfl | above
      · exact .refl
      · cases super : p.superOf c with
        | none =>
            rw [super] at above
            cases above
        | some s =>
            rw [super] at above
            exact .head (by simp [superLinks, super]) (ih above)

/-- The list is the whole superclass chain of a class: a class, its superclass and so on, and the last one has
none. -/
inductive IsChain (p : Program) : ClassId → List ClassId → Prop
  | top {c : ClassId} (last : p.superOf c = none) : IsChain p c [c]
  | up {c s : ClassId} {rest : List ClassId} (super : p.superOf c = some s) (above : IsChain p s rest) :
      IsChain p c (c :: rest)

theorem IsChain.mem_of_reaches {c h : ClassId} {chain : List ClassId} (whole : p.IsChain c chain)
    (reaches : Reaches p.superLinks c h) : h ∈ chain := by
  induction whole with
  | top last =>
      rcases reaches.cases_head with rfl | ⟨s, link, -⟩
      · exact List.mem_cons_self
      · simp [superLinks, last] at link
  | up super _ ih =>
      rcases reaches.cases_head with rfl | ⟨s, link, above⟩
      · exact List.mem_cons_self
      · rw [superLinks, super, Option.toList_some, List.mem_singleton] at link
        exact List.mem_cons_of_mem _ (ih (link ▸ above))

section Chains

variable (inside : ∀ c, ∀ s ∈ p.superLinks c, s < p.classes.size)
  (acyclic : ∀ c, ¬ Passes p.superLinks c c)
include inside acyclic

/-- A bounded chain below which `seen` lies.  Together they are distinct classes, so the bound is enough. -/
theorem isChain_chainUpTo {bound : Nat} {seen : List ClassId} {c : ClassId} (distinct : (c :: seen).Nodup)
    (below : ∀ n ∈ c :: seen, n < p.classes.size) (leads : ∀ n ∈ seen, Passes p.superLinks n c)
    (enough : p.classes.size ≤ seen.length + bound) : p.IsChain c (p.chainUpTo bound c) := by
  induction bound generalizing seen c with
  | zero =>
      have room := length_lt_of_path distinct below
      omega
  | succ bound ih =>
      rw [chainUpTo]
      cases super : p.superOf c with
      | none => exact .top super
      | some s =>
          have link : s ∈ p.superLinks c := by simp [superLinks, super]
          have later : ∀ n ∈ c :: seen, Passes p.superLinks n s := by
            intro n member
            rcases List.mem_cons.mp member with rfl | earlier
            · exact .single link
            · exact .tail (leads n earlier) link
          have fresh : s ∉ c :: seen := fun member => acyclic s (later s member)
          have inUse : ∀ n ∈ s :: c :: seen, n < p.classes.size := by
            intro n member
            rcases List.mem_cons.mp member with rfl | earlier
            · exact inside c n link
            · exact below n earlier
          have room : p.classes.size ≤ (c :: seen).length + bound := by
            rw [List.length_cons]
            omega
          exact .up super (ih (List.nodup_cons.mpr ⟨fresh, distinct⟩) inUse later room)

theorem isChain_superChain {c : ClassId} (bound : c < p.classes.size) : p.IsChain c (p.superChain c) := by
  have below : ∀ n ∈ [c], n < p.classes.size := by
    intro n same
    rw [List.mem_singleton.mp same]
    exact bound
  exact isChain_chainUpTo inside acyclic (List.nodup_singleton c) below
    (fun n impossible => absurd impossible List.not_mem_nil) (Nat.le_add_left _ _)

/-- The superclass chain has a class and all its superclasses. -/
theorem mem_superChain_iff {c h : ClassId} (bound : c < p.classes.size) :
    h ∈ p.superChain c ↔ Reaches p.superLinks c h :=
  ⟨reaches_of_mem_chainUpTo, (isChain_superChain inside acyclic bound).mem_of_reaches⟩

end Chains

end Program

/-! ## Names of classes -/

/-- The superclass and the interfaces that a class names. -/
def ClassDescription.supertypes (c : ClassDescription) : List String := c.super.toList ++ c.interfaces

namespace Description

/-- A class with the name is described. -/
def Declares (d : Description) (name : String) : Prop := ∃ c ∈ d.classes, c.name = name

/-- The class of a name names another one in some part of its description. -/
def Linked (d : Description) (part : ClassDescription → List String) (name target : String) : Prop :=
  ∃ c ∈ d.classes, c.name = name ∧ target ∈ part c

/-- A class names its superclass. -/
def Extends (d : Description) : String → String → Prop := d.Linked (·.super.toList)

/-- A class names its superclass or one of its interfaces. -/
def Links (d : Description) : String → String → Prop := d.Linked (·.supertypes)

/-- A class itself declares a field. -/
def DeclaresField (d : Description) (owner field : String) : Prop :=
  ∃ c ∈ d.classes, c.name = owner ∧ ∃ f ∈ c.fields, f.name = field

variable {d : Description} {p : Program}

theorem exists_classNamed?_iff {name : String} : (∃ id, d.classNamed? name = some id) ↔ d.Declares name := by
  rw [← Option.isSome_iff_exists, classNamed?, List.findIdx?_isSome, List.any_eq_true]
  simp [Declares]

section Distinct

variable (distinct : (d.classes.map (·.name)).Nodup)
include distinct

theorem eq_of_name {c c' : ClassDescription} (member : c ∈ d.classes) (member' : c' ∈ d.classes)
    (same : c.name = c'.name) : c = c' :=
  List.inj_on_of_nodup_map distinct member member' same

theorem classNamed?_eq_some_iff {name : String} {id : ClassId} :
    d.classNamed? name = some id ↔ ∃ c, d.classes[id]? = some c ∧ c.name = name := by
  rw [classNamed?, List.findIdx?_eq_some_iff_getElem]
  constructor
  · rintro ⟨inside, named, -⟩
    exact ⟨d.classes[id], List.getElem?_eq_getElem inside, by simpa using named⟩
  · rintro ⟨c, here, named⟩
    obtain ⟨inside, rfl⟩ := List.getElem?_eq_some_iff.mp here
    refine ⟨inside, by simpa using named, fun j earlier => ?_⟩
    have before : j < (d.classes.map (·.name)).length := by simp; omega
    have after : id < (d.classes.map (·.name)).length := by simpa using inside
    intro again
    have same : (d.classes.map (·.name))[j] = (d.classes.map (·.name))[id] := by
      simpa [named] using again
    have equal := (List.Nodup.getElem_inj_iff distinct).mp same
    omega

/-- A number has one name. -/
theorem name_unique {name name' : String} {id : ClassId} (named : d.classNamed? name = some id)
    (named' : d.classNamed? name' = some id) : name = name' := by
  obtain ⟨c, here, rfl⟩ := (classNamed?_eq_some_iff distinct).mp named
  obtain ⟨c', here', rfl⟩ := (classNamed?_eq_some_iff distinct).mp named'
  rw [Option.some.inj (here.symm.trans here')]

/-! ## Links by number and by name -/

section Correspondence

variable {part : ClassDescription → List String} {links : ClassId → List ClassId}
  (agree : ∀ {id c}, d.classes[id]? = some c → (links id).map some = (part c).map d.classNamed?)
include agree

theorem exists_linked {name : String} {id target : ClassId} (named : d.classNamed? name = some id)
    (link : target ∈ links id) :
    ∃ other, d.Linked part name other ∧ d.classNamed? other = some target := by
  obtain ⟨c, here, rfl⟩ := (classNamed?_eq_some_iff distinct).mp named
  have member : some target ∈ (part c).map d.classNamed? := agree here ▸ List.mem_map_of_mem link
  obtain ⟨other, listed, same⟩ := List.mem_map.mp member
  exact ⟨other, ⟨c, List.mem_of_getElem? here, rfl, listed⟩, same⟩

theorem exists_link {name other : String} {id : ClassId} (named : d.classNamed? name = some id)
    (linked : d.Linked part name other) :
    ∃ target, target ∈ links id ∧ d.classNamed? other = some target := by
  obtain ⟨c, here, rfl⟩ := (classNamed?_eq_some_iff distinct).mp named
  obtain ⟨c', declared, same, listed⟩ := linked
  obtain rfl := eq_of_name distinct declared (List.mem_of_getElem? here) same
  have member : d.classNamed? other ∈ (links id).map some := agree here ▸ List.mem_map_of_mem listed
  obtain ⟨target, link, found⟩ := List.mem_map.mp member
  exact ⟨target, link, found.symm⟩

/-- A chain of numbers is one of names. -/
theorem exists_chain_of_reaches {name : String} {id target : ClassId} (named : d.classNamed? name = some id)
    (chain : Reaches links id target) :
    ∃ other, ReflTransGen (d.Linked part) name other ∧ d.classNamed? other = some target :=
  exists_reflTransGen (fun id name => d.classNamed? name = some id)
    (fun named link => exists_linked distinct agree named link) named chain

/-- A chain of names is one of numbers. -/
theorem exists_reaches_of_chain {name other : String} {id : ClassId} (named : d.classNamed? name = some id)
    (chain : ReflTransGen (d.Linked part) name other) :
    ∃ target, Reaches links id target ∧ d.classNamed? other = some target :=
  exists_reflTransGen (fun name id => d.classNamed? name = some id)
    (fun named linked => exists_link distinct agree named linked) named chain

/-- Chains of numbers are chains of names. -/
theorem reaches_iff {name other : String} {id target : ClassId} (named : d.classNamed? name = some id)
    (named' : d.classNamed? other = some target) :
    Reaches links id target ↔ ReflTransGen (d.Linked part) name other := by
  constructor
  · intro chain
    obtain ⟨other', found, same⟩ := exists_chain_of_reaches distinct agree named chain
    rwa [name_unique distinct named' same]
  · intro chain
    obtain ⟨target', found, same⟩ := exists_reaches_of_chain distinct agree named chain
    rwa [Option.some.inj (named'.symm.trans same)]

/-- Cycles of numbers are cycles of names. -/
theorem passes_iff {name : String} {id : ClassId} (named : d.classNamed? name = some id) :
    Passes links id id ↔ TransGen (d.Linked part) name name := by
  rw [Passes, TransGen.head'_iff, TransGen.head'_iff]
  constructor
  · rintro ⟨target, link, back⟩
    obtain ⟨other, linked, same⟩ := exists_linked distinct agree named link
    exact ⟨other, linked, (reaches_iff distinct agree same named).mp back⟩
  · rintro ⟨other, linked, back⟩
    obtain ⟨target, link, same⟩ := exists_link distinct agree named linked
    exact ⟨target, link, (reaches_iff distinct agree same named).mpr back⟩

end Correspondence

end Distinct

/-! ## Declared programs -/

namespace Declared

theorem classNamed?_eq (declared : d.Declared p) (name : String) :
    p.classNamed? name = d.classNamed? name := by
  have names : p.classes.toList.map (·.name) = d.classes.map (·.name) := by
    refine List.ext_getElem? fun id => ?_
    rw [List.getElem?_map, List.getElem?_map, Array.getElem?_toList]
    cases here : d.classes[id]? with
    | none =>
        have beyond := List.getElem?_eq_none_iff.mp here
        rw [Array.getElem?_eq_none (declared.size ▸ beyond)]
        rfl
    | some c =>
        obtain ⟨made, there, at'⟩ := declared.made here
        rw [there, Option.map_some, Option.map_some, at'.name]
  have byName (name : String) : ∀ {α : Type} (xs : List α) (read : α → String),
      (xs.findIdx? fun c => decide (read c = name)) = (xs.map read).findIdx? fun n => decide (n = name) := by
    intro α xs read
    rw [List.findIdx?_map]
    rfl
  rw [Program.classNamed?, Description.classNamed?, byName, names, ← byName]

/-- The links of a class are the described ones. -/
theorem supertypes_agree (declared : d.Declared p) {id : ClassId} {c : ClassDescription}
    (here : d.classes[id]? = some c) :
    (p.supertypesOf id).map some = c.supertypes.map d.classNamed? := by
  obtain ⟨made, there, at'⟩ := declared.made here
  have super : made.super.toList.map some = c.super.toList.map d.classNamed? := by
    rw [← Option.toList_map, at'.super, Option.toList_map]
  have interfaces : p.interfacesOf id = made.interfaces := by simp [Program.interfacesOf, there]
  have superOf : p.superOf id = made.super := by simp [Program.superOf, there]
  rw [Program.supertypesOf, ClassDescription.supertypes, List.map_append, List.map_append, superOf,
    interfaces, super, at'.interfaces]

theorem super_agrees (declared : d.Declared p) {id : ClassId} {c : ClassDescription}
    (here : d.classes[id]? = some c) :
    (p.superLinks id).map some = c.super.toList.map d.classNamed? := by
  obtain ⟨made, there, at'⟩ := declared.made here
  have superOf : p.superOf id = made.super := by simp [Program.superOf, there]
  rw [Program.superLinks, superOf, ← Option.toList_map, at'.super, Option.toList_map]

theorem lt_of_classNamed? (declared : d.Declared p) {name : String} {id : ClassId}
    (named : d.classNamed? name = some id) : id < p.classes.size := by
  rw [declared.size]
  exact (List.findIdx?_eq_some_iff_getElem.mp named).1

/-- The links of a class lead to classes of the program. -/
theorem lt_of_mem_supertypesOf (declared : d.Declared p) {id target : ClassId}
    (link : target ∈ p.supertypesOf id) : target < p.classes.size := by
  cases here : d.classes[id]? with
  | none =>
      have beyond := declared.size ▸ List.getElem?_eq_none_iff.mp here
      simp [Program.supertypesOf, Program.superOf, Program.interfacesOf, beyond] at link
  | some c =>
      have member : some target ∈ c.supertypes.map d.classNamed? :=
        declared.supertypes_agree here ▸ List.mem_map_of_mem link
      obtain ⟨name, -, named⟩ := List.mem_map.mp member
      exact declared.lt_of_classNamed? named

/-- After the search for cycles no class is its own supertype. -/
theorem not_passes (declared : d.Declared p) (acyclic : cycleAt? p.classes.size p.supertypesOf = none)
    (c : ClassId) : ¬ Passes p.supertypesOf c c := by
  intro cycle
  obtain ⟨_, -, link⟩ := TransGen.tail'_iff.mp cycle
  exact (PointsTo.cycleAt?_eq_none_iff fun _ _ _ => declared.lt_of_mem_supertypesOf).mp acyclic c
    (declared.lt_of_mem_supertypesOf link) cycle

/-- The fields that a class declares with a name in the program and in the description. -/
theorem rel_declaredField? (declared : d.Declared p) {id : ClassId} {c : ClassDescription}
    (here : d.classes[id]? = some c) (name : String) :
    Option.Rel (fun f described => p.fields[f]? = some (FieldDescription.declared described id))
      (p.declaredField? id name) (c.fields.find? (·.name = name)) := by
  obtain ⟨made, there, at'⟩ := declared.made here
  have fieldsOf : p.fieldsOf id = made.fields := by simp [Program.fieldsOf, there]
  have related : List.Forall₂ (fun f described => p.fields[f]? = some (FieldDescription.declared described id))
      made.fields c.fields := by
    have reads := at'.fields
    rwa [← List.forall₂_eq_eq_eq, List.forall₂_map_left_iff, List.forall₂_map_right_iff] at reads
  rw [Program.declaredField?, fieldsOf]
  refine rel_find? ?_ related
  intro f described same
  simp [same, FieldDescription.declared]

/-- The methods that a class declares with a subsignature in the program and in the description. -/
theorem rel_declaredMethod? (declared : d.Declared p) {id : ClassId} {c : ClassDescription}
    (here : d.classes[id]? = some c) (key : String) :
    Option.Rel (fun m described => p.methods[m]?.map (·.bare) = some (MethodDescription.declared described id))
      (p.declaredMethod? id key) (c.methods.find? (·.key = key)) := by
  obtain ⟨made, there, at'⟩ := declared.made here
  have methodsOf : p.methodsOf id = made.methods := by simp [Program.methodsOf, there]
  have related : List.Forall₂
      (fun m described => p.methods[m]?.map (·.bare) = some (MethodDescription.declared described id))
      made.methods c.methods := by
    have reads := at'.methods
    rwa [← List.forall₂_eq_eq_eq, List.forall₂_map_left_iff, List.forall₂_map_right_iff] at reads
  rw [Program.declaredMethod?, methodsOf]
  refine rel_find? ?_ related
  intro m described same
  obtain ⟨method, found, bare⟩ := Option.map_eq_some_iff.mp same
  have subsignature : method.subsignature = described.key := congrArg Method.subsignature bare
  simp [found, subsignature]

section Distinct

variable (declared : d.Declared p) (distinct : (d.classes.map (·.name)).Nodup)
include declared distinct

/-- The search of the loader finds the cycles between names. -/
theorem cycleAt?_eq_none_iff : cycleAt? p.classes.size p.supertypesOf = none ↔
    ∀ name, ¬ TransGen d.Links name name := by
  rw [PointsTo.cycleAt?_eq_none_iff fun _ _ _ => declared.lt_of_mem_supertypesOf]
  constructor
  · intro acyclic name cycle
    obtain ⟨_, linked, -⟩ := TransGen.head'_iff.mp cycle
    obtain ⟨c, member, same, -⟩ := linked
    obtain ⟨id, named⟩ := exists_classNamed?_iff.mpr ⟨c, member, same⟩
    exact acyclic id (declared.lt_of_classNamed? named)
      ((passes_iff distinct declared.supertypes_agree named).mpr cycle)
  · intro acyclic id inside cycle
    rw [declared.size] at inside
    have named := (classNamed?_eq_some_iff distinct).mpr ⟨_, List.getElem?_eq_getElem inside, rfl⟩
    exact acyclic _ ((passes_iff distinct declared.supertypes_agree named).mp cycle)

theorem exists_declaredField?_iff {owner field : String} {id : ClassId}
    (named : d.classNamed? owner = some id) :
    (∃ f, p.declaredField? id field = some f) ↔ d.DeclaresField owner field := by
  obtain ⟨c, here, rfl⟩ := (classNamed?_eq_some_iff distinct).mp named
  have inClass : d.DeclaresField c.name field ↔ (c.fields.find? (·.name = field)).isSome := by
    rw [List.find?_isSome]
    constructor
    · rintro ⟨c', member, same, f, inside, isNamed⟩
      obtain rfl := eq_of_name distinct member (List.mem_of_getElem? here) same
      exact ⟨f, inside, by simpa using isNamed⟩
    · rintro ⟨f, inside, isNamed⟩
      exact ⟨c, List.mem_of_getElem? here, rfl, f, inside, by simpa using isNamed⟩
  rw [inClass, ← Option.isSome_iff_exists, isSome_of_rel (declared.rel_declaredField? here field)]

/-- A field is found from a class when that class or one of its superclasses declares it. -/
theorem exists_inheritedField?_iff (acyclic : cycleAt? p.classes.size p.supertypesOf = none)
    {owner field : String} {id : ClassId} (named : d.classNamed? owner = some id) :
    (∃ f, p.inheritedField? id field = some f) ↔
      ∃ holder, ReflTransGen d.Extends owner holder ∧ d.DeclaresField holder field := by
  have inside : ∀ c, ∀ s ∈ p.superLinks c, s < p.classes.size := fun c s link =>
    declared.lt_of_mem_supertypesOf (Program.mem_supertypesOf_of_superLinks link)
  have noCycle : ∀ c, ¬ Passes p.superLinks c c := fun c cycle =>
    declared.not_passes acyclic c (TransGen.mono (fun _ _ => Program.mem_supertypesOf_of_superLinks) c c cycle)
  rw [← Option.isSome_iff_exists, Program.inheritedField?, List.findSome?_isSome_iff]
  simp only [Program.mem_superChain_iff inside noCycle (declared.lt_of_classNamed? named),
    Option.isSome_iff_exists]
  constructor
  · rintro ⟨h, chain, found⟩
    obtain ⟨holder, above, same⟩ := exists_chain_of_reaches distinct declared.super_agrees named chain
    exact ⟨holder, above, (declared.exists_declaredField?_iff distinct same).mp found⟩
  · rintro ⟨holder, above, found⟩
    obtain ⟨h, chain, same⟩ := exists_reaches_of_chain distinct declared.super_agrees named above
    exact ⟨h, chain, (declared.exists_declaredField?_iff distinct same).mpr found⟩

end Distinct

end Declared

end Description

end PointsTo
