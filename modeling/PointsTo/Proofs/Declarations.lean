/- # Declarations -- a loaded program has the classes of its description

The loader numbers classes, fields and methods in the order in which they are described, and cuts the rows of
fields and methods into one block for each class.  `Description.Declared` says what comes of it: under the
number of its place every described class is there with its links, and its members are the described ones and
name it as their owner.  Completing the bodies changes none of this.

Main statements: `skeleton_eq_ok_iff`, and `declared_of_load`. -/
import PointsTo.Loading.Program
import PointsTo.Proofs.Rows

set_option autoImplicit false

namespace PointsTo

/-! ## Traversals -/

/-- A traversal gives one result for each element, in order. -/
theorem mapM_eq_ok_iff {ε α β : Type} {f : α → Except ε β} {xs : List α} {ys : List β} :
    xs.mapM f = .ok ys ↔ List.Forall₂ (fun x y => f x = .ok y) xs ys := by
  induction xs generalizing ys with
  | nil => cases ys <;> simp [pure, Except.pure]
  | cons x rest ih =>
      rw [List.mapM_cons]
      cases first : f x with
      | error cause => simp [List.forall₂_cons_left_iff, first, bind, Except.bind]
      | ok y =>
          cases others : rest.mapM f with
          | error cause =>
              simp [List.forall₂_cons_left_iff, first, others, ← ih, bind, Except.bind]
          | ok ys' =>
              simp [List.forall₂_cons_left_iff, first, others, ← ih, bind, Except.bind, pure, Except.pure,
                eq_comm]

/-- A traversal succeeds when it does for every element. -/
theorem exists_mapM_iff {ε α β : Type} {f : α → Except ε β} {xs : List α} :
    (∃ ys, xs.mapM f = .ok ys) ↔ ∀ x ∈ xs, ∃ y, f x = .ok y := by
  simp only [mapM_eq_ok_iff]
  induction xs with
  | nil => simp
  | cons x rest ih => simp [List.forall₂_cons_left_iff, ← ih]

/-- A lookup along a list. -/
theorem mapM_eq_ok_iff_map {ε α β : Type} {f : α → Except ε β} {g : α → Option β}
    (looks : ∀ {x y}, f x = .ok y ↔ g x = some y) {xs : List α} {ys : List β} :
    xs.mapM f = .ok ys ↔ ys.map some = xs.map g := by
  rw [mapM_eq_ok_iff, eq_comm, ← List.forall₂_eq_eq_eq, List.forall₂_map_left_iff,
    List.forall₂_map_right_iff]
  simp only [looks]

theorem map_eq_ok_iff {ε α β : Type} {x : Except ε α} {f : α → β} {b : β} :
    x.map f = .ok b ↔ ∃ a, x = .ok a ∧ f a = b := by
  cases x <;> simp [Except.map]

/-- A step and what follows it succeed when the step does and the rest does on its result. -/
theorem bind_eq_ok_iff {ε α β : Type} {x : Except ε α} {f : α → Except ε β} {b : β} :
    x >>= f = .ok b ↔ ∃ a, x = .ok a ∧ f a = .ok b := by
  cases x <;> simp [bind, Except.bind]

/-! ## Declarations of members -/

/-- A described field as a class declares it. -/
def FieldDescription.declared (f : FieldDescription) (owner : ClassId) : Field :=
  ⟨f.name, owner, f.isStatic⟩

/-- A described method as a class declares it, without variables and body. -/
def MethodDescription.declared (m : MethodDescription) (owner : ClassId) : Method where
  name := m.name
  subsignature := m.key
  owner := owner
  isStatic := m.isStatic
  isAbstract := m.isAbstract
  params := []
  this := none
  returns := []
  locals := []
  body := []

/-- A method without its variables and its body. -/
def Method.bare (m : Method) : Method :=
  { m with params := [], this := none, returns := [], locals := [], body := [] }

theorem MethodDescription.bare_declared (m : MethodDescription) (owner : ClassId) :
    (m.declared owner).bare = m.declared owner := rfl

namespace Description

variable {d : Description} {p : Program}

/-- A class of a program is a described one under a number. -/
structure ClassAt (d : Description) (p : Program) (id : ClassId) (c : ClassDescription) (made : Class) :
    Prop where
  name : made.name = c.name
  super : made.super.map some = c.super.map d.classNamed?
  interfaces : made.interfaces.map some = c.interfaces.map d.classNamed?
  isInterface : made.isInterface = c.isInterface
  isAbstract : made.isAbstract = (c.isAbstract || c.isInterface)
  fields : made.fields.map (p.fields[·]?) = c.fields.map fun f => some (f.declared id)
  methods : made.methods.map (fun m => p.methods[m]?.map (·.bare)) =
    c.methods.map fun m => some (m.declared id)

/-- A program has the described classes in their order, and each of its fields and methods belongs to one of
them. -/
structure Declared (d : Description) (p : Program) : Prop where
  size : p.classes.size = d.classes.length
  made : ∀ {id c}, d.classes[id]? = some c → ∃ made, p.classes[id]? = some made ∧ d.ClassAt p id c made
  fields : p.classes.toList.flatMap (·.fields) = List.range p.fields.size
  methods : p.classes.toList.flatMap (·.methods) = List.range p.methods.size

/-- The declarations with resolved links. -/
def withLinks (d : Description) (links : List ClassLinks) : Program where
  classes := (d.declaredClasses links).toArray
  fields := d.declaredFields.toArray
  methods := d.declaredMethods.toArray

/-! ## The checks of the declarations -/

theorem resolveClass_eq_ok_iff {name : String} {id : ClassId} :
    d.resolveClass name = .ok id ↔ d.classNamed? name = some id := by
  unfold resolveClass
  cases d.classNamed? name <;> simp

theorem checkMethods_eq_ok_iff {owner : String} {seen : List String} {methods : List MethodDescription} :
    checkMethods owner seen methods = .ok () ↔ (methods.map (·.key)).Nodup ∧
      (∀ m ∈ methods, m.key ∉ seen) ∧ ∀ m ∈ methods, m.isAbstract = true → m.body = [] := by
  induction methods generalizing seen with
  | nil => simp [checkMethods]
  | cons m rest ih =>
      unfold checkMethods
      split
      · rename_i known
        simp [known]
      · rename_i fresh
        split
        · rename_i bodied
          have violates : ¬ (m.isAbstract = true → m.body = []) := by
            simpa using bodied
          simp [violates]
        · rename_i fine
          have keeps : m.isAbstract = true → m.body = [] := by
            simpa using fine
          rw [ih, List.map_cons, List.nodup_cons]
          grind

/-- When the links and the methods of a class pass the checks, and what the links are. -/
theorem resolveLinks_eq_ok_iff {c : ClassDescription} {links : ClassLinks} :
    d.resolveLinks c = .ok links ↔ links.super.map some = c.super.map d.classNamed? ∧
      links.interfaces.map some = c.interfaces.map d.classNamed? ∧
      checkMethods c.name [] c.methods = .ok () := by
  obtain ⟨super, interfaces⟩ := links
  have described {names : List String} {ids : List ClassId} : names.mapM d.resolveClass = .ok ids ↔
      ids.map some = names.map d.classNamed? := mapM_eq_ok_iff_map resolveClass_eq_ok_iff
  unfold resolveLinks
  cases c.super with
  | none =>
      simp only [bind_eq_ok_iff, described, pure, Except.pure, Except.ok.injEq, ClassLinks.mk.injEq]
      cases super <;> simp [Unique.exists_iff]
  | some name =>
      simp only [bind_eq_ok_iff, described, map_eq_ok_iff, resolveClass_eq_ok_iff, pure, Except.pure,
        Except.ok.injEq, ClassLinks.mk.injEq]
      cases super <;> simp [Unique.exists_iff, @eq_comm _ (d.classNamed? name)]

theorem firstRepeat?_eq_none_iff {α : Type} [DecidableEq α] {seen xs : List α} :
    firstRepeat? seen xs = none ↔ xs.Nodup ∧ ∀ x ∈ xs, x ∉ seen := by
  induction xs generalizing seen with
  | nil => simp [firstRepeat?]
  | cons x rest ih =>
      unfold firstRepeat?
      by_cases old : x ∈ seen
      · simp [old]
      · rw [if_neg old, ih, List.nodup_cons]
        constructor
        · rintro ⟨distinct, fresh⟩
          refine ⟨⟨fun later => fresh x later List.mem_cons_self, distinct⟩, fun y member => ?_⟩
          rcases List.mem_cons.mp member with rfl | later
          · exact old
          · exact fun known => fresh y later (List.mem_cons_of_mem x known)
        · rintro ⟨⟨notLater, distinct⟩, fresh⟩
          refine ⟨distinct, fun y later known => ?_⟩
          rcases List.mem_cons.mp known with rfl | earlier
          · exact notLater later
          · exact fresh y (List.mem_cons_of_mem x later) earlier

/-- When the declarations of a description pass the checks, and what they are. -/
theorem skeleton_eq_ok_iff : d.skeleton = .ok p ↔
    (d.classes.map (·.name)).Nodup ∧ ∃ links, d.classes.mapM d.resolveLinks = .ok links ∧
      p = d.withLinks links ∧ cycleAt? p.classes.size p.supertypesOf = none := by
  unfold skeleton
  cases repeated : firstRepeat? [] (d.classes.map (·.name)) with
  | some name =>
      have again : ¬ (d.classes.map (·.name)).Nodup := by
        intro distinct
        rw [firstRepeat?_eq_none_iff.mpr ⟨distinct, fun _ _ => List.not_mem_nil⟩] at repeated
        cases repeated
      constructor
      · intro made
        cases made
      · exact fun passed => absurd passed.1 again
  | none =>
      have distinct := (firstRepeat?_eq_none_iff.mp repeated).1
      simp only [bind_eq_ok_iff]
      constructor
      · rintro ⟨links, resolved, made⟩
        refine ⟨distinct, links, resolved, ?_⟩
        split at made
        · cases made
        · rename_i none'
          cases made
          exact ⟨rfl, none'⟩
      · rintro ⟨-, links, resolved, rfl, acyclic⟩
        refine ⟨links, resolved, ?_⟩
        split
        · rename_i c found
          cases found.symm.trans acyclic
        · rfl

/-- What a load goes through. -/
theorem load_eq_ok_iff : d.load = .ok p ↔
    ∃ skeleton bodies entry, d.skeleton = .ok skeleton ∧
      d.classes.mapM skeleton.resolveBodies = .ok bodies ∧
      d.resolveEntry (assemble skeleton bodies.flatten) = .ok entry ∧
      p = { assemble skeleton bodies.flatten with entry } := by
  unfold load
  simp only [bind_eq_ok_iff, pure, Except.pure, Except.ok.injEq, exists_and_left, @eq_comm _ p]

/-! ## What is declared -/

theorem declaredFields_eq : d.declaredFields =
    (memberRows (·.fields) FieldDescription.declared d.classes).flatten := by
  rw [declaredFields, List.flatMap_def]
  rfl

theorem declaredMethods_eq : d.declaredMethods =
    (memberRows (·.methods) MethodDescription.declared d.classes).flatten := by
  rw [declaredMethods, List.flatMap_def]
  rfl

/-- The declared methods are the described ones, in order. -/
theorem forall₂_methods (made : d.skeleton = .ok p) :
    List.Forall₂ (fun m b => ∃ owner, b = MethodDescription.declared m owner)
      (d.classes.flatMap (·.methods)) p.methods.toList := by
  obtain ⟨-, links, -, rfl, -⟩ := skeleton_eq_ok_iff.mp made
  rw [withLinks, List.toList_toArray, declaredMethods_eq]
  exact forall₂_memberRowsFrom _ _ 0 d.classes

/-- The declarations with links that were resolved. -/
theorem declared_withLinks {links : List ClassLinks}
    (resolved : d.classes.mapM d.resolveLinks = .ok links) : d.Declared (d.withLinks links) := by
  have pairwise := mapM_eq_ok_iff.mp resolved
  have length := pairwise.length_eq
  have fieldBlocks : (d.declaredClasses links).map (·.fields) =
      blocks 0 (d.classes.map (·.fields.length)) := by
    apply List.ext_getElem <;> simp [declaredClasses, length_blocks, length]
  have methodBlocks : (d.declaredClasses links).map (·.methods) =
      blocks 0 (d.classes.map (·.methods.length)) := by
    apply List.ext_getElem <;> simp [declaredClasses, length_blocks, length]
  constructor
  case size => simp [withLinks, declaredClasses, length_blocks, length]
  case made =>
    intro id c here
    obtain ⟨fields, fieldBlock, fieldReads⟩ :=
      exists_block ClassDescription.fields FieldDescription.declared here
    obtain ⟨methods, methodBlock, methodReads⟩ :=
      exists_block ClassDescription.methods MethodDescription.declared here
    obtain ⟨inside, rfl⟩ := List.getElem?_eq_some_iff.mp here
    obtain ⟨super, interfaces, -⟩ := resolveLinks_eq_ok_iff.mp (pairwise.get inside (length ▸ inside))
    have linked := List.getElem?_eq_getElem (length ▸ inside : id < links.length)
    have zipped : (d.classes.zip (links.zip ((blocks 0 (d.classes.map (·.fields.length))).zip
        (blocks 0 (d.classes.map (·.methods.length))))))[id]? =
          some (d.classes[id], links[id], fields, methods) :=
      List.getElem?_zip_eq_some.mpr ⟨here, List.getElem?_zip_eq_some.mpr
        ⟨linked, List.getElem?_zip_eq_some.mpr ⟨fieldBlock, methodBlock⟩⟩⟩
    have there : (d.withLinks links).classes[id]? = some
        { name := d.classes[id].name, super := links[id].super, interfaces := links[id].interfaces,
          isInterface := d.classes[id].isInterface,
          isAbstract := d.classes[id].isAbstract || d.classes[id].isInterface, fields, methods } := by
      rw [withLinks, List.getElem?_toArray, declaredClasses, List.getElem?_map, zipped, Option.map_some]
    refine ⟨_, there, rfl, super, interfaces, rfl, rfl, ?_, ?_⟩
    · simpa [withLinks, declaredFields_eq, Function.comp_def] using fieldReads
    · have bare := congrArg (List.map (Option.map Method.bare)) methodReads
      rw [List.map_map, List.map_map] at bare
      rw [withLinks, declaredMethods_eq]
      simpa [Function.comp_def, MethodDescription.bare_declared] using bare
  case fields =>
    rw [withLinks, List.flatMap_def, fieldBlocks, flatten_blocks_memberRows, ← declaredFields_eq]
    rfl
  case methods =>
    rw [withLinks, List.flatMap_def, methodBlocks, flatten_blocks_memberRows, ← declaredMethods_eq]
    rfl

/-- Only what a class and its members declare counts. -/
theorem Declared.of_bare {q : Program} (declared : d.Declared p) (classes : q.classes = p.classes)
    (fields : q.fields = p.fields)
    (methods : q.methods.toList.map (·.bare) = p.methods.toList.map (·.bare)) : d.Declared q := by
  have bare : ∀ m : MethodId, q.methods[m]?.map (·.bare) = p.methods[m]?.map (·.bare) := by
    intro m
    rw [← Array.getElem?_toList, ← Array.getElem?_toList, ← List.getElem?_map, methods, List.getElem?_map]
  have size : q.methods.size = p.methods.size := by
    simpa using congrArg List.length methods
  constructor
  case size => rw [classes, declared.size]
  case made =>
    intro id c here
    obtain ⟨made, there, at'⟩ := declared.made here
    refine ⟨made, classes ▸ there, at'.name, at'.super, at'.interfaces, at'.isInterface, at'.isAbstract, ?_, ?_⟩
    · rw [fields, at'.fields]
    · simp only [bare, at'.methods]
  case fields => rw [classes, fields, declared.fields]
  case methods => rw [classes, size, declared.methods]

theorem bare_completeMethods (firstVar firstSite : Nat)
    (methods : List (Method × MethodDescription × List ResolvedStatement)) :
    (completeMethods firstVar firstSite methods).map (·.bare) = methods.map (·.1.bare) := by
  induction methods generalizing firstVar firstSite with
  | nil => rfl
  | cons first rest ih =>
      rw [completeMethods, List.map_cons, List.map_cons, ih]
      rfl

/-- A resolved body comes from the described one. -/
theorem resolved_of_mapM {p : Program} {classes : List ClassDescription}
    {bodies : List (List (MethodDescription × List ResolvedStatement))}
    (resolved : classes.mapM p.resolveBodies = .ok bodies) :
    List.Forall₂ (fun m pair => pair.1 = m ∧ m.body.mapM p.resolveStatement = .ok pair.2)
      (classes.flatMap (·.methods)) bodies.flatten := by
  have pairwise := mapM_eq_ok_iff.mp resolved
  clear resolved
  induction pairwise with
  | nil => exact .nil
  | cons first rest ih =>
      rw [List.flatMap_cons, List.flatten_cons]
      refine List.rel_append ((mapM_eq_ok_iff.mp first).imp fun m pair made => ?_) ih
      split at made
      · rename_i body mapped
        cases made
        exact ⟨rfl, mapped⟩
      · cases made

/-- The described methods that a load goes through are as many as the declared ones. -/
theorem length_of_resolved {skeleton : Program}
    {bodies : List (List (MethodDescription × List ResolvedStatement))} (made : d.skeleton = .ok skeleton)
    (resolved : d.classes.mapM skeleton.resolveBodies = .ok bodies) :
    bodies.flatten.length = skeleton.methods.toList.length :=
  (resolved_of_mapM resolved).length_eq.symm.trans (forall₂_methods made).length_eq

/-- Completing the methods keeps the declarations. -/
theorem declared_assemble {skeleton : Program}
    {bodies : List (List (MethodDescription × List ResolvedStatement))} (made : d.skeleton = .ok skeleton)
    (resolved : d.classes.mapM skeleton.resolveBodies = .ok bodies) :
    d.Declared (assemble skeleton bodies.flatten) := by
  have length := length_of_resolved made resolved
  obtain ⟨-, links, linked, rfl, -⟩ := skeleton_eq_ok_iff.mp made
  refine (declared_withLinks linked).of_bare rfl rfl ?_
  have declarations := congrArg (List.map Method.bare) (List.map_fst_zip (Nat.le_of_eq length.symm))
  rw [List.map_map] at declarations
  rw [assemble, List.toList_toArray, bare_completeMethods]
  exact declarations

theorem declared_of_load (loaded : d.load = .ok p) : d.Declared p := by
  obtain ⟨skeleton, bodies, entry, made, resolved, -, rfl⟩ := load_eq_ok_iff.mp loaded
  exact (declared_assemble made resolved).of_bare rfl rfl rfl

end Description

end PointsTo
