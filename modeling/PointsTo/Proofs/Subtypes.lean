/- # Subtypes -- walking up and walking down

A dynamic call asks whether the class of its receiver lies below the class it names by walking up from the
receiver (`mem_supertypes_iff`); `possibleTargets` walks down from the named class (`mem_subtypes_iff`).  What
the walk down meets lies below, and when superclass links name classes and interface links name interfaces
(`Program.KindedLinks`) the two walks follow the same links.  So what a call resolves to is among its possible
targets, provided that its reference means a declaration and that some subtype of the named class looks up
what an array does (`Program.Foresees`).

Main statements: `isSubclass_iff`, `mem_subtypes_iff` and `mem_possibleTargets_of_resolveCall`. -/
import Mathlib.Algebra.BigOperators.Group.List.Lemmas
import Mathlib.Data.List.Basic
import PointsTo.Hierarchy.Targets
import PointsTo.Proofs.Searching

set_option autoImplicit false

namespace PointsTo.Program

variable {p : Program}

/-- Superclass links name classes, and interface links name interfaces. -/
structure KindedLinks (p : Program) : Prop where
  super : ∀ {c d}, p.superOf c = some d → p.isInterface d = false
  interfaces : ∀ {c d}, d ∈ p.interfacesOf c → p.isInterface d = true

/-! ## Counting the links downwards -/

/-- The ends of all links upwards. -/
def linkEnds (p : Program) : List ClassId := p.classIds.flatMap p.supertypesOf

theorem length_linkEnds_lt (p : Program) : p.linkEnds.length < p.searchRounds := by
  have more : ∀ ids : List ClassId, (ids.flatMap p.supertypesOf).length ≤
      total (ids.map fun c => 1 + (p.supertypesOf c).length) := by
    intro ids
    induction ids with
    | nil => exact Nat.le_refl 0
    | cons c rest ih =>
        rw [List.flatMap_cons, List.length_append, List.map_cons, total]
        omega
  have all := more p.classIds
  unfold linkEnds searchRounds
  omega

/-- Superclass links to a class are among the links to it. -/
theorem length_subclasses_le (c : ClassId) (ids : List ClassId) :
    (ids.filter fun d => p.superOf d = some c).length ≤ (ids.flatMap p.supertypesOf).count c := by
  induction ids with
  | nil => exact Nat.le_refl 0
  | cons d rest ih =>
      rw [List.flatMap_cons, List.count_append]
      by_cases here : p.superOf d = some c
      · have one : 1 ≤ (p.supertypesOf d).count c := by
          refine List.one_le_count_iff.mpr ?_
          simp [supertypesOf, here]
        rw [List.filter_cons_of_pos (by simpa using here), List.length_cons]
        omega
      · rw [List.filter_cons_of_neg (by simpa using here)]
        omega

/-- So are interface links. -/
theorem length_interfaceLinks_le (c : ClassId) (ids : List ClassId) :
    (ids.flatMap fun d => ((p.interfacesOf d).filter (· = c)).map fun _ => d).length ≤
      (ids.flatMap p.supertypesOf).count c := by
  induction ids with
  | nil => exact Nat.le_refl 0
  | cons d rest ih =>
      have here : ((p.interfacesOf d).filter (· = c)).length ≤ (p.supertypesOf d).count c := by
        rw [supertypesOf, List.count_append, List.count_eq_length_filter (l := p.interfacesOf d)]
        simp only [beq_eq_decide]
        exact Nat.le_add_left _ _
      rw [List.flatMap_cons, List.flatMap_cons, List.count_append, List.length_append, List.length_map]
      omega

theorem length_directSubtypes_le (p : Program) (c : ClassId) :
    (p.directSubtypes c).length ≤ p.linkEnds.count c := by
  unfold directSubtypes
  split
  · have parts := List.length_eq_length_filter_add (l := p.interfaceLinks c) p.isInterface
    rw [List.length_append]
    have all := length_interfaceLinks_le (p := p) c p.classIds
    unfold directSubinterfaces directImplementors
    rw [← parts]
    exact all
  · exact length_subclasses_le c p.classIds

/-! ## The subtype relation -/

theorem mem_classIds_of_superOf {c d : ClassId} (super : p.superOf c = some d) : c ∈ p.classIds := by
  obtain ⟨described, there, -⟩ := Option.bind_eq_some_iff.mp super
  exact List.mem_range.mpr (Array.getElem?_eq_some_iff.mp there).1

theorem mem_classIds_of_interfacesOf {c d : ClassId} (interface : d ∈ p.interfacesOf c) :
    c ∈ p.classIds := by
  unfold interfacesOf at interface
  cases there : p.classes[c]? with
  | none => simp [there] at interface
  | some described => exact List.mem_range.mpr (Array.getElem?_eq_some_iff.mp there).1

theorem mem_classIds_of_mem_supertypesOf {c d : ClassId} (link : d ∈ p.supertypesOf c) : c ∈ p.classIds := by
  rcases List.mem_append.mp link with super | interface
  · exact mem_classIds_of_superOf (Option.mem_toList.mp super)
  · exact mem_classIds_of_interfacesOf interface

theorem kindedLinks_iff : p.KindedLinks ↔ ∀ c ∈ p.classIds,
    (∀ d ∈ p.superOf c, p.isInterface d = false) ∧ ∀ d ∈ p.interfacesOf c, p.isInterface d = true := by
  constructor
  · intro kinded c _
    exact ⟨fun d super => kinded.super super, fun d interface => kinded.interfaces interface⟩
  · intro all
    constructor
    · intro c d super
      exact (all c (mem_classIds_of_superOf super)).1 d super
    · intro c d interface
      exact (all c (mem_classIds_of_interfacesOf interface)).2 d interface

instance : Decidable p.KindedLinks := decidable_of_iff' _ kindedLinks_iff

/-! ## Walking up -/

/-- The links upwards, in the order in which the walk up follows them. -/
def upward (p : Program) (c : ClassId) : List ClassId := (p.superOf c).toList ++ (p.interfacesOf c).reverse

theorem mem_upward_iff {c d : ClassId} : d ∈ p.upward c ↔ d ∈ p.supertypesOf c := by
  simp [upward, supertypesOf]

theorem length_upward (p : Program) (c : ClassId) : (p.upward c).length = (p.supertypesOf c).length := by
  simp [upward, supertypesOf]

/-- The walk up from a class comes to its end. -/
theorem visits_supertypes (p : Program) (c : ClassId) :
    Visits p.upward (fun new pending => new ++ pending) [c] [] (p.supertypes c) := by
  have counted : ∀ nodes : List ClassId, openLinks p.upward [] nodes ≤
      total (nodes.map fun c => 1 + (p.supertypesOf c).length) := by
    intro nodes
    induction nodes with
    | nil => exact Nat.le_refl 0
    | cons c rest ih =>
        rw [openLinks, if_neg List.not_mem_nil, List.map_cons, total, length_upward]
        omega
  refine visits_depthFirst p.classIds (fun d some => ?_) ?_ c
  · obtain ⟨e, link⟩ := List.exists_mem_of_ne_nil _ some
    exact mem_classIds_of_mem_supertypesOf (mem_upward_iff.mp link)
  · have all := counted p.classIds
    unfold searchRounds
    omega

/-- The walk up from a class meets the class and all its supertypes. -/
theorem mem_supertypes_iff {c d : ClassId} : d ∈ p.supertypes c ↔ Reaches p.supertypesOf c d := by
  have same : Reaches p.supertypesOf c d ↔ Reaches p.upward c d := by
    simp only [Reaches, mem_upward_iff]
  rw [same]
  exact ⟨reaches_of_mem_depthFirst, (p.visits_supertypes c).mem_of_reaches fun _ _ => List.Perm.refl _⟩

theorem isSubclass_iff {c d : ClassId} : p.isSubclass c d = true ↔ Reaches p.supertypesOf c d :=
  List.contains_iff_mem.trans mem_supertypes_iff

/-! ## Walking down -/

/-- One link downwards: from an interface to what names it among its interfaces, from a class to what has it
for a superclass. -/
def LinksDown (p : Program) (c d : ClassId) : Prop :=
  if p.isInterface c then c ∈ p.interfacesOf d else p.superOf d = some c

theorem mem_interfaceLinks_iff {c d : ClassId} : d ∈ p.interfaceLinks c ↔ c ∈ p.interfacesOf d := by
  simp only [interfaceLinks, List.mem_flatMap, List.mem_map, List.mem_filter, decide_eq_true_eq]
  constructor
  · rintro ⟨_, -, _, ⟨interface, rfl⟩, rfl⟩
    exact interface
  · exact fun interface => ⟨d, mem_classIds_of_interfacesOf interface, c, ⟨interface, rfl⟩, rfl⟩

theorem mem_directSubtypes_iff {c d : ClassId} : d ∈ p.directSubtypes c ↔ p.LinksDown c d := by
  unfold directSubtypes LinksDown
  split
  · rw [← mem_interfaceLinks_iff, List.mem_append, directSubinterfaces, directImplementors, List.mem_filter,
      List.mem_filter]
    cases p.isInterface d <;> simp
  · rw [directSubclasses, List.mem_filter, decide_eq_true_eq]
    exact ⟨And.right, fun super => ⟨mem_classIds_of_superOf super, super⟩⟩

/-- A link downwards is a link upwards. -/
theorem LinksDown.mem_supertypesOf {c d : ClassId} (link : p.LinksDown c d) : c ∈ p.supertypesOf d := by
  unfold LinksDown at link
  unfold supertypesOf
  split at link
  · exact List.mem_append_right _ link
  · exact List.mem_append_left _ (Option.mem_toList.mpr link)

/-- So is a link upwards one downwards when links are of the right kind. -/
theorem linksDown_of_mem_supertypesOf (kinded : p.KindedLinks) {c d : ClassId} (link : c ∈ p.supertypesOf d) :
    p.LinksDown c d := by
  unfold LinksDown
  rcases List.mem_append.mp link with super | interface
  · have here := Option.mem_toList.mp super
    rwa [kinded.super here, if_neg Bool.false_ne_true]
  · rwa [kinded.interfaces interface, if_pos rfl]

theorem openLinks_linkEnds_le (p : Program) :
    openLinks p.directSubtypes [] p.linkEnds.dedup ≤ p.linkEnds.length := by
  have counted : ∀ nodes : List ClassId, openLinks p.directSubtypes [] nodes ≤
      (nodes.map fun c => p.linkEnds.count c).sum := by
    intro nodes
    induction nodes with
    | nil => exact Nat.le_refl 0
    | cons c rest ih =>
        rw [openLinks, if_neg List.not_mem_nil, List.map_cons, List.sum_cons]
        exact Nat.add_le_add (p.length_directSubtypes_le c) ih
  rw [← List.sum_map_count_dedup_eq_length p.linkEnds]
  exact counted _

/-- The walk down from a class comes to its end. -/
theorem visits_subtypes (p : Program) (c : ClassId) :
    Visits p.directSubtypes (fun new pending => pending ++ new) [c] [] (p.subtypes c) := by
  refine visits_breadthFirst p.linkEnds.dedup (fun d some => ?_) ?_ c
  · have counted := p.length_directSubtypes_le d
    have positive := List.length_pos_iff.mpr some
    exact List.mem_dedup.mpr (List.one_le_count_iff.mp (by omega))
  · have few := p.openLinks_linkEnds_le
    have rounds := p.length_linkEnds_lt
    omega

/-- The walk down from a class meets what links downwards lead to. -/
theorem mem_subtypes_iff {c d : ClassId} :
    c ∈ p.subtypes d ↔ Relation.ReflTransGen p.LinksDown d c := by
  have same : Relation.ReflTransGen p.LinksDown d c ↔ Reaches p.directSubtypes d c := by
    simp only [Reaches, mem_directSubtypes_iff]
  rw [same]
  exact ⟨reaches_of_mem_breadthFirst, (p.visits_subtypes d).mem_of_reaches fun _ _ => List.perm_append_comm⟩

/-- Links downwards lead to subtypes. -/
theorem isSubclass_of_linksDown {c d : ClassId} (down : Relation.ReflTransGen p.LinksDown d c) :
    p.isSubclass c d = true :=
  isSubclass_iff.mpr (Relation.reflTransGen_swap.mp
    (Relation.ReflTransGen.mono (fun _ _ => LinksDown.mem_supertypesOf) _ _ down))

/-- They lead to all subtypes when links are of the right kind. -/
theorem linksDown_of_isSubclass (kinded : p.KindedLinks) {c d : ClassId} (below : p.isSubclass c d = true) :
    Relation.ReflTransGen p.LinksDown d c :=
  Relation.ReflTransGen.mono (fun _ _ => linksDown_of_mem_supertypesOf kinded) _ _
    (Relation.reflTransGen_swap.mpr (isSubclass_iff.mp below))

/-- A class from which the walk up meets another is met by the walk down from that one. -/
theorem mem_subtypes_of_isSubclass (kinded : p.KindedLinks) {c d : ClassId}
    (below : p.isSubclass c d = true) : c ∈ p.subtypes d :=
  mem_subtypes_iff.mpr (linksDown_of_isSubclass kinded below)

/-! ## Possible targets -/

/-- What is dispatched to is declared, so the reference means a declaration. -/
theorem isSome_resolveRef_of_dispatch {ref : MethodRef} {m : MethodId}
    (found : p.dispatch ref.owner ref.subsignature = some m) : (p.resolveRef ref).isSome = true := by
  obtain ⟨d, inChain, implemented⟩ := List.exists_of_findSome?_eq_some found
  obtain ⟨declared, -⟩ := Option.filter_eq_some_iff.mp implemented
  have first : ((p.superChain ref.owner).findSome? fun c =>
      p.declaredMethod? c ref.subsignature).isSome = true := by
    rw [List.findSome?_isSome_iff]
    exact ⟨d, inChain, by rw [declared]; rfl⟩
  unfold resolveRef
  rw [Option.isSome_or, first, Bool.true_or]

variable {V : Type} {call : Invocation V} {m : MethodId}

/-- A call on an object of a type is one that declared types account for: its reference means a declaration,
and what runs on an array also runs on objects of some subtype of the named class, such as the root class. -/
def Foresees (p : Program) (call : Invocation V) (type : TypeRef) : Prop :=
  (p.resolveRef call.target).isSome = true ∧ ∀ text m, type = .array text →
    p.dispatchOn type call.target.subsignature = some m →
      ∃ c, p.isSubclass c call.target.owner = true ∧ p.dispatch c call.target.subsignature = some m

theorem mem_possibleTargets_of_dispatch (static : call.kind.isDynamic = false)
    (found : p.dispatch call.target.owner call.target.subsignature = some m) :
    m ∈ p.possibleTargets call := by
  obtain ⟨declared, resolved⟩ := Option.isSome_iff_exists.mp (isSome_resolveRef_of_dispatch found)
  simp [possibleTargets, possibleTargets?, resolved, static, found]

theorem mem_possibleTargets_of_isSubclass (kinded : p.KindedLinks) (dynamic : call.kind.isDynamic = true)
    (declared : (p.resolveRef call.target).isSome = true) {c : ClassId}
    (below : p.isSubclass c call.target.owner = true)
    (found : p.dispatch c call.target.subsignature = some m) : m ∈ p.possibleTargets call := by
  obtain ⟨declaration, resolved⟩ := Option.isSome_iff_exists.mp declared
  simp only [possibleTargets, possibleTargets?, resolved, dynamic, if_true, Option.map_some,
    Option.getD_some]
  refine List.mem_eraseDups.mpr (List.mem_filterMap.mpr ⟨c, ?_, found⟩)
  exact mem_subtypes_of_isSubclass kinded below

/-- What a call resolves to is among its possible targets. -/
theorem mem_possibleTargets_of_resolveCall (kinded : p.KindedLinks) {receiver : Option TypeRef}
    (resolved : (p.resolveCall receiver call).target? = some m)
    (foreseen : call.kind.isDynamic = true → ∀ type, receiver = some type → p.Foresees call type) :
    m ∈ p.possibleTargets call := by
  unfold resolveCall at resolved
  split at resolved
  · rename_i dynamic
    split at resolved
    · cases resolved
    · rename_i c
      split at resolved
      · rename_i below
        rw [Resolution.target?_ofLookup] at resolved
        exact mem_possibleTargets_of_isSubclass kinded dynamic (foreseen dynamic _ rfl).1 below resolved
      · cases resolved
    · rename_i text
      rw [Resolution.target?_ofLookup] at resolved
      obtain ⟨declared, shared⟩ := foreseen dynamic _ rfl
      obtain ⟨c, below, found⟩ := shared text m rfl resolved
      exact mem_possibleTargets_of_isSubclass kinded dynamic declared below found
  · rename_i static
    rw [Resolution.target?_ofLookup] at resolved
    exact mem_possibleTargets_of_dispatch (Bool.eq_false_iff.mpr static) resolved

end PointsTo.Program
