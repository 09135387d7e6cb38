/- # Lowering -- what becomes of a described method

The method with a number is completed from the described method with the same number: its variables are the
names that it mentions, each once and in one block of numbers, its statements are the described ones with the
names in them looked up, and its allocations are numbered in one block as well.  `Description.Lowers` says so
of a whole program; the blocks leave no variable and no site out.

Main statements: `Description.exists_lowers`; for one method `Completes.owns_of_mem_locals`,
`Completes.mem_locals_of_mentions`, `Completes.exists_statement` and `Completes.site_of_new`. -/
import PointsTo.Proofs.Declarations
import PointsTo.Proofs.FirstRequests
import PointsTo.Proofs.WellFormed

set_option autoImplicit false

namespace PointsTo

/-! ## Statements over other variables -/

section Statements

variable {V W A B : Type}

theorem Invocation.mentions_mapVars (f : V → W) (call : Invocation V) :
    (call.mapVars f).mentions = call.mentions.map f := by
  cases receiver : call.receiver <;> cases result : call.result <;>
    simp [Invocation.mentions, Invocation.mapVars, receiver, result]

theorem Statement.mentions_mapVars (f : V → W) (s : Statement V A) :
    (s.mapVars f).mentions = s.mentions.map f := by
  cases s with
  | invoke call => exact call.mentions_mapVars f
  | ret value => cases value <;> rfl
  | _ => rfl

theorem Statement.mentions_withAllocation (b : B) (s : Statement V A) :
    (s.withAllocation b).mentions = s.mentions := by
  cases s <;> rfl

theorem Statement.returned?_mapVars (f : V → W) (s : Statement V A) :
    (s.mapVars f).returned? = s.returned?.map f := by
  cases s <;> rfl

theorem Statement.returned?_withAllocation (b : B) (s : Statement V A) :
    (s.withAllocation b).returned? = s.returned? := by
  cases s <;> rfl

theorem Statement.allocation?_mapVars (f : V → W) (s : Statement V A) :
    (s.mapVars f).allocation? = s.allocation? := by
  cases s <;> rfl

theorem Statement.allocation?_withAllocation (b : B) (s : Statement V A) :
    (s.withAllocation b).allocation? = s.allocation?.map fun _ => b := by
  cases s <;> rfl

theorem Statement.fields_mapVars (f : V → W) (s : Statement V A) : (s.mapVars f).fields = s.fields := by
  cases s <;> rfl

theorem Statement.fields_withAllocation (b : B) (s : Statement V A) :
    (s.withAllocation b).fields = s.fields := by
  cases s <;> rfl

theorem Statement.call?_mapVars (f : V → W) (s : Statement V A) :
    (s.mapVars f).call? = s.call?.map (·.mapVars f) := by
  cases s <;> rfl

theorem Statement.call?_withAllocation (b : B) (s : Statement V A) :
    (s.withAllocation b).call? = s.call? := by
  cases s <;> rfl

theorem Statement.exists_of_allocation? {s : Statement V A} {a : A} (allocated : s.allocation? = some a) :
    ∃ lhs, s = .new lhs a := by
  cases s with
  | new lhs b =>
      cases allocated
      exact ⟨lhs, rfl⟩
  | _ => cases allocated

theorem Statement.exists_of_returned? {s : Statement V A} {v : V} (returned : s.returned? = some v) :
    s = .ret (some v) := by
  cases s with
  | ret value => exact congrArg Statement.ret returned
  | _ => cases returned

end Statements

/-! ## Numbering statements -/

/-- The positions of the allocations among statements that stand from a position on, with their types. -/
def allocationsFrom {V : Type} (start : Nat) (body : List (Statement V TypeRef)) : List (Nat × TypeRef) :=
  (body.zipIdx start).filterMap fun (s, index) => s.allocation?.map fun type => (index, type)

section Numbering

variable {V : Type} {body : List (Statement V TypeRef)}

theorem allocationsFrom_cons (start : Nat) (s : Statement V TypeRef) (rest : List (Statement V TypeRef)) :
    allocationsFrom start (s :: rest) =
      (s.allocation?.map fun type => (start, type)).toList ++ allocationsFrom (start + 1) rest := by
  cases allocated : s.allocation? <;> simp [allocationsFrom, List.zipIdx_cons, allocated]

theorem length_allocationsFrom (start : Nat) :
    (allocationsFrom start body).length = (body.filterMap (·.allocation?)).length := by
  induction body generalizing start with
  | nil => rfl
  | cons s rest ih => cases allocated : s.allocation? <;> simp [allocationsFrom_cons, allocated, ih]

theorem allocationsFrom_mapVars {W : Type} (f : V → W) (start : Nat) :
    allocationsFrom start (body.map (·.mapVars f)) = allocationsFrom start body := by
  induction body generalizing start with
  | nil => rfl
  | cons s rest ih => rw [List.map_cons, allocationsFrom_cons, allocationsFrom_cons, ih,
      Statement.allocation?_mapVars]

theorem mem_allocationsFrom {i : Nat} {type : TypeRef} :
    (i, type) ∈ allocationsFrom 0 body ↔ ∃ lhs, body[i]? = some (.new lhs type) := by
  rw [allocationsFrom, List.mem_filterMap]
  constructor
  · rintro ⟨⟨s, index⟩, inBody, same⟩
    obtain ⟨other, allocated, pair⟩ := Option.map_eq_some_iff.mp same
    cases pair
    obtain ⟨lhs, rfl⟩ := Statement.exists_of_allocation? allocated
    exact ⟨lhs, List.mem_zipIdx_iff_getElem?.mp inBody⟩
  · rintro ⟨lhs, here⟩
    exact ⟨(.new lhs type, i), List.mem_zipIdx_iff_getElem?.mpr here, rfl⟩

/-- The sites of a body are numbered one after the other. -/
theorem sites_numberSites (start : SiteId) : (numberSites start body).filterMap (·.allocation?) =
    List.range' start (allocationsFrom 0 body).length := by
  rw [length_allocationsFrom]
  induction body generalizing start with
  | nil => rfl
  | cons s rest ih =>
      rw [numberSites]
      cases allocated : s.allocation? <;>
        simp [Statement.allocation?_withAllocation, allocated, ih, List.range'_succ]

/-- An allocation gets the number of its place among the allocations. -/
theorem site_of_numberSites {start : SiteId} {i : Nat} {lhs : V} {site : SiteId} (offset : Nat)
    (here : (numberSites start body)[i]? = some (.new lhs site)) :
    ∃ k type, site = start + k ∧ (allocationsFrom offset body)[k]? = some (offset + i, type) := by
  induction body generalizing start offset i with
  | nil => cases here
  | cons s rest ih =>
      rw [numberSites] at here
      rw [allocationsFrom_cons]
      cases i with
      | zero =>
          rw [List.getElem?_cons_zero] at here
          cases s with
          | new name type =>
              cases here
              exact ⟨0, type, rfl, rfl⟩
          | _ => cases here
      | succ i =>
          rw [List.getElem?_cons_succ] at here
          obtain ⟨k, type, number, there⟩ := ih (offset + 1) here
          have position : offset + 1 + i = offset + (i + 1) := by omega
          rw [position] at there
          cases allocated : s.allocation? with
          | none => exact ⟨k, type, by simpa [allocated] using number, by simpa using there⟩
          | some a =>
              refine ⟨k + 1, type, ?_, by simpa using there⟩
              simp only [allocated, Option.isSome_some, if_true] at number
              rw [number, Nat.add_assoc, Nat.add_comm 1 k]

/-- Numbering the sites keeps everything else of a statement. -/
theorem getElem?_numberSites {start : SiteId} {i : Nat} {s : Statement V SiteId}
    (here : (numberSites start body)[i]? = some s) :
    ∃ original site, body[i]? = some original ∧ s = original.withAllocation site := by
  induction body generalizing start i with
  | nil => cases here
  | cons original rest ih =>
      rw [numberSites] at here
      cases i with
      | zero =>
          cases here
          exact ⟨original, start, rfl, rfl⟩
      | succ i => exact ih here

theorem returned_numberSites {start : SiteId} {number : String → VarId} (body : List ResolvedStatement) :
    (numberSites start (body.map (·.mapVars number))).filterMap (·.returned?) =
      (body.filterMap (·.returned?)).map number := by
  induction body generalizing start with
  | nil => rfl
  | cons s rest ih =>
      rw [List.map_cons, numberSites]
      cases returned : s.returned? <;>
        simp [Statement.returned?_withAllocation, Statement.returned?_mapVars, returned, ih]

theorem mem_returned {body : List Stmt} {v : VarId} :
    v ∈ body.filterMap (·.returned?) ↔ .ret (some v) ∈ body := by
  rw [List.mem_filterMap]
  constructor
  · rintro ⟨s, inBody, returned⟩
    exact Statement.exists_of_returned? returned ▸ inBody
  · exact fun inBody => ⟨_, inBody, rfl⟩

end Numbering

/-! ## Completing methods -/

/-- The allocation sites of the statements of a method. -/
def Method.sites (m : Method) : List SiteId := m.body.filterMap (·.allocation?)

/-- The variables of a method other than its list of all of them. -/
def Method.mentions (m : Method) : List VarId :=
  m.this.toList ++ m.params ++ m.returns ++ m.body.flatMap (·.mentions)

theorem mem_localNames {m : MethodDescription} {body : List ResolvedStatement} {name : String} :
    name ∈ localNames m body ↔ m.isStatic = false ∧ name = receiverName ∨ name ∈ m.params ∨
      ∃ s ∈ body, name ∈ s.mentions := by
  unfold localNames
  rw [List.mem_eraseDups, List.mem_append, List.mem_append, List.mem_flatMap, or_assoc]
  cases m.isStatic <;> simp

section Complete

variable {declared : Method} {m : MethodDescription} {body : List ResolvedStatement} {firstVar : VarId}
  {firstSite : SiteId}

theorem number_mem_locals {name : String} (known : name ∈ localNames m body) :
    numberFrom firstVar (localNames m body) name ∈
      (completeMethod declared m body firstVar firstSite).locals :=
  List.mem_range'_1.mpr
    ⟨Nat.le_add_right _ _, Nat.add_lt_add_left (List.idxOf_lt_length_of_mem known) _⟩

/-- Every variable that a completed method mentions is one of its names. -/
theorem mem_locals_of_mem_mentions {v : VarId}
    (mentioned : v ∈ (completeMethod declared m body firstVar firstSite).mentions) :
    v ∈ (completeMethod declared m body firstVar firstSite).locals := by
  simp only [Method.mentions, List.mem_append, List.mem_flatMap, Option.mem_toList] at mentioned
  obtain ((receiver | param) | returned) | ⟨s, inBody, here⟩ := mentioned
  case inl.inl.inl =>
    simp only [completeMethod] at receiver
    obtain ⟨dynamic, same⟩ := Option.ite_none_left_eq_some.mp receiver
    cases same
    exact number_mem_locals (mem_localNames.mpr (.inl ⟨by simpa using dynamic, rfl⟩))
  case inl.inl.inr =>
    obtain ⟨name, named, rfl⟩ := List.mem_map.mp param
    exact number_mem_locals (mem_localNames.mpr (.inr (.inl named)))
  case inl.inr =>
    obtain ⟨name, named, rfl⟩ := List.mem_map.mp (List.mem_eraseDups.mp returned)
    obtain ⟨s, inBody, gives⟩ := List.mem_filterMap.mp named
    cases Statement.exists_of_returned? gives
    exact number_mem_locals (mem_localNames.mpr (.inr (.inr ⟨_, inBody, List.mem_singleton_self _⟩)))
  case inr =>
    obtain ⟨i, there⟩ := List.mem_iff_getElem?.mp inBody
    obtain ⟨numbered, site, inNumbered, rfl⟩ := getElem?_numberSites there
    rw [List.getElem?_map] at inNumbered
    obtain ⟨original, inOriginal, rfl⟩ := Option.map_eq_some_iff.mp inNumbered
    rw [Statement.mentions_withAllocation, Statement.mentions_mapVars] at here
    obtain ⟨name, named, rfl⟩ := List.mem_map.mp here
    have inMethod := List.mem_of_getElem? inOriginal
    exact number_mem_locals (mem_localNames.mpr (.inr (.inr ⟨original, inMethod, named⟩)))

/-- The sites of a body, as they are recorded. -/
theorem sitesOf_eq (m : MethodId) (body : List ResolvedStatement) :
    sitesOf m body = (allocationsFrom 0 body).map fun (index, type) => (⟨m, index, type⟩ : Site) := by
  simp [sitesOf, allocationsFrom, List.map_filterMap, Function.comp_def]

theorem sites_completeMethod : (completeMethod declared m body firstVar firstSite).sites =
    List.range' firstSite (allocationsFrom 0 body).length := by
  rw [Method.sites, completeMethod, sites_numberSites, allocationsFrom_mapVars]

end Complete

section Methods

variable {methods : List (Method × MethodDescription × List ResolvedStatement)} {firstVar : VarId}
  {firstSite : SiteId}

theorem exists_of_completeMethods {i : Nat} {method : Method}
    (here : (completeMethods firstVar firstSite methods)[i]? = some method) :
    ∃ declared m body start site, methods[i]? = some (declared, m, body) ∧
      method = completeMethod declared m body start site := by
  induction methods generalizing firstVar firstSite i with
  | nil => cases here
  | cons head rest ih =>
      obtain ⟨declared, m, body⟩ := head
      cases i with
      | zero =>
          cases here
          exact ⟨declared, m, body, firstVar, firstSite, rfl, rfl⟩
      | succ i => exact ih here

theorem locals_completeMethods : (completeMethods firstVar firstSite methods).map (·.locals) =
    blocks firstVar (methods.map fun row => (localNames row.2.1 row.2.2).length) := by
  induction methods generalizing firstVar firstSite with
  | nil => rfl
  | cons head rest ih =>
      rw [completeMethods, List.map_cons, ih]
      rfl

theorem sites_completeMethods : (completeMethods firstVar firstSite methods).map (·.sites) =
    blocks firstSite (methods.map fun row => (allocationsFrom 0 row.2.2).length) := by
  induction methods generalizing firstVar firstSite with
  | nil => rfl
  | cons head rest ih =>
      rw [completeMethods, List.map_cons, ih, sites_completeMethod, List.map_cons, blocks,
        length_allocationsFrom]

end Methods

/-- The variables of methods with consecutive numbers, each with its method. -/
def ownersOf (bodies : List (MethodDescription × List ResolvedStatement)) : List Var :=
  (memberRows (fun row => localNames row.1 row.2) (fun name id => ⟨name, id⟩) bodies).flatten

/-- The allocation sites of methods with consecutive numbers. -/
def allocationsOf (bodies : List (MethodDescription × List ResolvedStatement)) : List Site :=
  (memberRows (fun row => allocationsFrom 0 row.2) (fun a id => ⟨id, a.1, a.2⟩) bodies).flatten

/-! ## Resolved statements -/

/-- What a described statement becomes when the names in it are looked up. -/
inductive Program.Resolves (p : Program) : StatementDescription → ResolvedStatement → Prop
  | new {lhs text : String} {type : TypeRef} (found : p.resolveType text = .ok type) :
    p.Resolves (.new lhs text) (.new lhs type)
  | copy {lhs rhs : String} : p.Resolves (.copy lhs rhs) (.copy lhs rhs)
  | loadField {lhs base reference : String} {field : FieldId} (found : p.resolveField reference = .ok field) :
    p.Resolves (.load lhs (some base) reference) (.loadField lhs base field)
  | loadStatic {lhs reference : String} {field : FieldId} (found : p.resolveField reference = .ok field) :
    p.Resolves (.load lhs none reference) (.loadStatic lhs field)
  | storeField {base reference rhs : String} {field : FieldId} (found : p.resolveField reference = .ok field) :
    p.Resolves (.store (some base) reference rhs) (.storeField base field rhs)
  | storeStatic {reference rhs : String} {field : FieldId} (found : p.resolveField reference = .ok field) :
    p.Resolves (.store none reference rhs) (.storeStatic field rhs)
  | loadArray {lhs base : String} : p.Resolves (.loadArray lhs base) (.loadArray lhs base)
  | storeArray {base rhs : String} : p.Resolves (.storeArray base rhs) (.storeArray base rhs)
  | invoke {kind : CallKind} {owner method : String} {receiver : Option String} {args : List String}
    {result : Option String} {c : ClassId} (agree : receiver = none ↔ kind = .static)
    (found : p.resolveClass owner = .ok c) :
    p.Resolves (.invoke kind owner method receiver args result)
      (.invoke ⟨kind, ⟨c, method⟩, receiver, args, result⟩)
  | ret {value : Option String} : p.Resolves (.ret value) (.ret value)
  | nop : p.Resolves .nop .nop

theorem Program.resolveClass_eq_ok_iff {p : Program} {name : String} {id : ClassId} :
    p.resolveClass name = .ok id ↔ p.classNamed? name = some id := by
  unfold resolveClass
  cases p.classNamed? name <;> simp

/-- What the field of a reference is. -/
theorem Program.resolveField_eq_ok_iff {p : Program} {reference : String} {field : FieldId} :
    p.resolveField reference = .ok field ↔ ∃ owner name c, splitLastText "." reference = some (owner, name) ∧
      p.resolveClass owner = .ok c ∧ p.inheritedField? c name = some field := by
  unfold resolveField
  cases splitLastText "." reference with
  | none => simp [throw, throwThe, MonadExceptOf.throw]
  | some sides =>
      constructor
      · intro resolved
        obtain ⟨c, owner, rest⟩ := bind_eq_ok_iff.mp resolved
        cases inherited : p.inheritedField? c sides.2 with
        | none =>
            rw [inherited] at rest
            cases rest
        | some f =>
            rw [inherited] at rest
            cases rest
            exact ⟨sides.1, sides.2, c, rfl, owner, inherited⟩
      · rintro ⟨owner, name, c, same, resolved, inherited⟩
        cases same
        exact bind_eq_ok_iff.mpr ⟨c, resolved, by rw [inherited]; rfl⟩

theorem Program.resolveStatement_invoke {p : Program} {kind : CallKind} {owner method : String}
    {receiver : Option String} {args : List String} {result : Option String} {r : ResolvedStatement} :
    p.resolveStatement (.invoke kind owner method receiver args result) = .ok r ↔
      (receiver = none ↔ kind = .static) ∧ ∃ c, p.resolveClass owner = .ok c ∧
        .invoke ⟨kind, ⟨c, method⟩, receiver, args, result⟩ = r := by
  cases static : decide (kind = .static) <;> cases receiver <;>
    simp_all [resolveStatement, bind_eq_ok_iff, pure, Except.pure]

/-- The loader resolves a statement to what it becomes. -/
theorem Program.resolveStatement_eq_ok_iff {p : Program} {s : StatementDescription} {r : ResolvedStatement} :
    p.resolveStatement s = .ok r ↔ p.Resolves s r := by
  constructor
  · intro resolved
    cases s with
    | new lhs text =>
        obtain ⟨type, found, rfl⟩ := map_eq_ok_iff.mp resolved
        exact .new found
    | load lhs base reference =>
        obtain ⟨field, found, rest⟩ := bind_eq_ok_iff.mp resolved
        cases base <;> cases rest
        · exact .loadStatic found
        · exact .loadField found
    | store base reference rhs =>
        obtain ⟨field, found, rest⟩ := bind_eq_ok_iff.mp resolved
        cases base <;> cases rest
        · exact .storeStatic found
        · exact .storeField found
    | invoke kind owner method receiver args result =>
        obtain ⟨agree, c, found, rfl⟩ := resolveStatement_invoke.mp resolved
        exact .invoke agree found
    | copy => cases resolved; exact .copy
    | loadArray => cases resolved; exact .loadArray
    | storeArray => cases resolved; exact .storeArray
    | ret => cases resolved; exact .ret
    | nop => cases resolved; exact .nop
  · intro resolves
    cases resolves with
    | new found => exact map_eq_ok_iff.mpr ⟨_, found, rfl⟩
    | invoke agree found => exact resolveStatement_invoke.mpr ⟨agree, _, found, rfl⟩
    | loadField found => exact bind_eq_ok_iff.mpr ⟨_, found, rfl⟩
    | loadStatic found => exact bind_eq_ok_iff.mpr ⟨_, found, rfl⟩
    | storeField found => exact bind_eq_ok_iff.mpr ⟨_, found, rfl⟩
    | storeStatic found => exact bind_eq_ok_iff.mpr ⟨_, found, rfl⟩
    | copy => rfl
    | loadArray => rfl
    | storeArray => rfl
    | ret => rfl
    | nop => rfl

namespace Description

variable {d : Description} {p : Program}

/-- A method is completed from a described one and its resolved body. -/
structure Completes (d : Description) (skeleton p : Program) (m : MethodId) (described : MethodDescription)
    (body : List ResolvedStatement) (method : Method) : Prop where
  source : (d.classes.flatMap (·.methods))[m]? = some described
  resolved : described.body.mapM skeleton.resolveStatement = .ok body
  completed : ∃ owner start site,
    method = completeMethod (described.declared owner) described body start site
  locals : method.locals.map (p.vars[·]?) = (localNames described body).map fun name => some ⟨name, m⟩
  sites : method.sites.map (p.sites[·]?) = (allocationsFrom 0 body).map fun a => some ⟨m, a.1, a.2⟩

/-- A program adds methods, variables and sites to declarations. -/
structure Lowers (d : Description) (skeleton p : Program) : Prop where
  made : d.skeleton = .ok skeleton
  classes : p.classes = skeleton.classes
  fields : p.fields = skeleton.fields
  methods : ∀ {m method}, p.methods[m]? = some method →
    ∃ described body, d.Completes skeleton p m described body method
  locals : p.methods.toList.flatMap (·.locals) = List.range p.vars.size
  sites : p.methods.toList.flatMap (·.sites) = List.range p.sites.size

section Assemble

variable {skeleton : Program} {bodies : List (MethodDescription × List ResolvedStatement)}

theorem vars_assemble : (assemble skeleton bodies).vars = (ownersOf bodies).toArray := by
  rw [assemble, List.flatMap_def]
  rfl

theorem sites_assemble : (assemble skeleton bodies).sites = (allocationsOf bodies).toArray := by
  simp only [assemble, sitesOf_eq]
  rw [List.flatMap_def]
  rfl

theorem map_locals_assemble (length : bodies.length = skeleton.methods.toList.length) :
    (assemble skeleton bodies).methods.toList.map (·.locals) =
      blocks 0 (bodies.map fun row => (localNames row.1 row.2).length) := by
  have paired : bodies = (skeleton.methods.toList.zip bodies).map (·.2) :=
    (List.map_snd_zip (Nat.le_of_eq length)).symm
  rw [assemble, List.toList_toArray, locals_completeMethods, paired, List.map_map, ← paired]
  rfl

theorem map_sites_assemble (length : bodies.length = skeleton.methods.toList.length) :
    (assemble skeleton bodies).methods.toList.map (·.sites) =
      blocks 0 (bodies.map fun row => (allocationsFrom 0 row.2).length) := by
  have paired : bodies = (skeleton.methods.toList.zip bodies).map (·.2) :=
    (List.map_snd_zip (Nat.le_of_eq length)).symm
  rw [assemble, List.toList_toArray, sites_completeMethods, paired, List.map_map, ← paired]
  rfl

end Assemble

/-- A loaded program adds the completed methods to the declarations. -/
theorem exists_lowers (loaded : d.load = .ok p) : ∃ skeleton, d.Lowers skeleton p := by
  obtain ⟨skeleton, bodies, entry, made, resolved, -, rfl⟩ := load_eq_ok_iff.mp loaded
  have length := length_of_resolved made resolved
  refine ⟨skeleton, made, rfl, rfl, ?methods, ?locals, ?sites⟩
  case locals =>
    show (assemble skeleton bodies.flatten).methods.toList.flatMap (·.locals) =
      List.range (assemble skeleton bodies.flatten).vars.size
    rw [List.flatMap_def, map_locals_assemble length, flatten_blocks_memberRows, vars_assemble]
    rfl
  case sites =>
    show (assemble skeleton bodies.flatten).methods.toList.flatMap (·.sites) =
      List.range (assemble skeleton bodies.flatten).sites.size
    rw [List.flatMap_def, map_sites_assemble length, flatten_blocks_memberRows, sites_assemble]
    rfl
  case methods =>
    intro m method listed
    have here : (assemble skeleton bodies.flatten).methods.toList[m]? = some method :=
      Array.getElem?_toList.trans listed
    obtain ⟨declared, described, body, start, site, there, completed⟩ := exists_of_completeMethods here
    have declaration : skeleton.methods.toList[m]? = some declared := (List.getElem?_zip_eq_some.mp there).1
    have pair : bodies.flatten[m]? = some (described, body) := (List.getElem?_zip_eq_some.mp there).2
    -- The declaration and the body with one number stem from one described method.
    obtain ⟨_, source, rfl, mapped⟩ := rel_getElem? (resolved_of_mapM resolved) pair
    obtain ⟨_, source', owner, rfl⟩ := rel_getElem? (forall₂_methods made) declaration
    cases source'.symm.trans source
    obtain ⟨locals, localBlock, localReads⟩ := exists_block
      (fun row : MethodDescription × List ResolvedStatement => localNames row.1 row.2)
      (fun name id => (⟨name, id⟩ : Var)) pair
    obtain ⟨sites', siteBlock, siteReads⟩ := exists_block
      (fun row : MethodDescription × List ResolvedStatement => allocationsFrom 0 row.2)
      (fun a id => (⟨id, a.1, a.2⟩ : Site)) pair
    rw [← map_locals_assemble length, List.getElem?_map, here] at localBlock
    rw [← map_sites_assemble length, List.getElem?_map, here] at siteBlock
    cases localBlock
    cases siteBlock
    refine ⟨described, body, source, mapped, ⟨owner, start, site, completed⟩, ?_, ?_⟩
    · simpa [vars_assemble, ownersOf] using localReads
    · simpa [sites_assemble, allocationsOf] using siteReads

variable {skeleton : Program} {m : MethodId} {method : Method} {described : MethodDescription}
  {body : List ResolvedStatement}

/-! ## The variables of a method -/

section Completes

variable (completes : d.Completes skeleton p m described body method)
include completes

theorem Completes.owns_of_mem_locals {v : VarId} (member : v ∈ method.locals) : p.Owns m v := by
  have read : p.vars[v]? ∈ method.locals.map (p.vars[·]?) := List.mem_map_of_mem member
  rw [completes.locals] at read
  obtain ⟨name, -, same⟩ := List.mem_map.mp read
  rw [Program.Owns, ← same]
  rfl

theorem Completes.localNames_eq : method.locals.map p.localName = localNames described body := by
  have names := congrArg (List.map fun var => (Option.map Var.name var).getD "") completes.locals
  rw [List.map_map, List.map_map] at names
  exact names.trans (List.map_id _)

theorem Completes.ascending : method.locals.Pairwise (· < ·) := by
  obtain ⟨owner, start, site, rfl⟩ := completes.completed
  exact List.pairwise_lt_range'

theorem Completes.mem_locals_of_mentions {v : VarId} (mentioned : v ∈ method.mentions) :
    v ∈ method.locals := by
  obtain ⟨owner, start, site, rfl⟩ := completes.completed
  exact mem_locals_of_mem_mentions mentioned

theorem Completes.isSome_this : method.this.isSome ↔ method.isStatic = false := by
  obtain ⟨owner, start, site, rfl⟩ := completes.completed
  cases static : described.isStatic <;> simp [completeMethod, MethodDescription.declared, static]

theorem Completes.returns_eq : method.returns = (method.body.filterMap (·.returned?)).eraseDups := by
  obtain ⟨owner, start, site, rfl⟩ := completes.completed
  rw [completeMethod, returned_numberSites]

/-- A statement of a method is a described one, looked up and numbered. -/
theorem Completes.exists_statement {s : Stmt} (inBody : s ∈ method.body) :
    ∃ source ∈ described.body, ∃ resolved number site, skeleton.Resolves source resolved ∧
      s = (resolved.mapVars number).withAllocation site := by
  obtain ⟨i, here⟩ := List.mem_iff_getElem?.mp inBody
  obtain ⟨owner, start, firstSite, rfl⟩ := completes.completed
  obtain ⟨numbered, site, there, rfl⟩ := getElem?_numberSites here
  rw [List.getElem?_map] at there
  obtain ⟨resolved, inResolved, rfl⟩ := Option.map_eq_some_iff.mp there
  obtain ⟨source, inSource, found⟩ := rel_getElem? (mapM_eq_ok_iff.mp completes.resolved) inResolved
  exact ⟨source, List.mem_of_getElem? inSource, resolved, _, site,
    Program.resolveStatement_eq_ok_iff.mp found, rfl⟩

/-- An allocation statement is recorded with its method and its position. -/
theorem Completes.site_of_new {i : Nat} {lhs : VarId} {site : SiteId}
    (here : method.body[i]? = some (.new lhs site)) :
    ∃ type, (i, type) ∈ allocationsFrom 0 body ∧ p.sites[site]? = some ⟨m, i, type⟩ := by
  have read := completes.sites
  obtain ⟨owner, start, firstSite, rfl⟩ := completes.completed
  obtain ⟨k, type, rfl, there⟩ := site_of_numberSites 0 here
  rw [allocationsFrom_mapVars, Nat.zero_add] at there
  have bound := (List.getElem?_eq_some_iff.mp there).1
  have same := congrArg (·[k]?) read
  simp only [sites_completeMethod, List.getElem?_map, there, List.getElem?_range' bound, Nat.one_mul,
    Option.map_some, Option.some.injEq] at same
  exact ⟨type, List.mem_of_getElem? there, same⟩

end Completes

/-- A variable is listed with the method that it belongs to. -/
theorem Lowers.exists_method (lowers : d.Lowers skeleton p) {v : VarId} {var : Var}
    (here : p.vars[v]? = some var) : ∃ method, p.methods[var.method]? = some method ∧ v ∈ method.locals := by
  obtain ⟨m, method, found, member⟩ := exists_owner lowers.locals (Array.getElem?_eq_some_iff.mp here).1
  obtain ⟨described, body, completes⟩ := lowers.methods found
  have owns := completes.owns_of_mem_locals member
  rw [Program.Owns, here] at owns
  cases owns
  exact ⟨method, found, member⟩

end Description

end PointsTo
