/- # Cells -- which stores into a field its loads see

A statement that names no base goes to the cell of the field itself, and one that names a base to the cell of
the field in every object of the base.  The statement decides, not how the field is declared, so a load sees
what is stored where neither names a base, and where the bases have an object in common (`State.Meet`).  A
static field is no exception: it is not one cell for statements of which one names a base and the other does
not, nor for bases without a common object (`not_oneCell_mixed`).

Main statement: `subset_of_meet`. -/
import PointsTo.Proofs.Printing
import PointsTo.Proofs.Renamings
import PointsTo.Proofs.Saturation

set_option autoImplicit false

namespace PointsTo

/-! ## From described statements to statements -/

namespace Program

variable {p q : Program} (classes : q.classes = p.classes)
include classes

theorem resolveClass_congr (name : String) : q.resolveClass name = p.resolveClass name := by
  simp only [resolveClass, classNamed?, classes]

variable (fields : q.fields = p.fields)
include fields

theorem resolveField_congr (reference : String) : q.resolveField reference = p.resolveField reference := by
  have declared (c : ClassId) (name : String) : q.declaredField? c name = p.declaredField? c name := by
    simp only [declaredField?, fieldsOf, classes, fields]
  simp only [resolveField, resolveClass_congr classes, inheritedField?, superChain_congr classes, declared]

/-- What a statement becomes depends on classes and fields only. -/
theorem Resolves.congr {statement : StatementDescription} {resolved : ResolvedStatement}
    (resolves : p.Resolves statement resolved) : q.Resolves statement resolved := by
  cases resolves with
  | new found =>
      refine .new ?_
      rwa [resolveType, resolveClass_congr classes]
  | copy => exact .copy
  | loadField found => exact .loadField (resolveField_congr classes fields _ ▸ found)
  | loadStatic found => exact .loadStatic (resolveField_congr classes fields _ ▸ found)
  | storeField found => exact .storeField (resolveField_congr classes fields _ ▸ found)
  | storeStatic found => exact .storeStatic (resolveField_congr classes fields _ ▸ found)
  | loadArray => exact .loadArray
  | storeArray => exact .storeArray
  | invoke agree found => exact .invoke agree (resolveClass_congr classes _ ▸ found)
  | ret => exact .ret
  | nop => exact .nop

end Program

theorem exists_mem_numberSites {V : Type} {s : Statement V TypeRef} {body : List (Statement V TypeRef)}
    (inBody : s ∈ body) (start : SiteId) : ∃ site, s.withAllocation site ∈ numberSites start body := by
  induction body generalizing start with
  | nil => cases inBody
  | cons first rest ih =>
      rw [numberSites]
      rcases List.mem_cons.mp inBody with rfl | later
      · exact ⟨start, List.mem_cons_self⟩
      · obtain ⟨site, there⟩ := ih later (if first.allocation?.isSome then start + 1 else start)
        exact ⟨site, List.mem_cons_of_mem _ there⟩

namespace Description

variable {d : Description} {skeleton p : Program} {m : MethodId} {described : MethodDescription}
  {body : List ResolvedStatement} {method : Method}

section Completes

variable (completes : d.Completes skeleton p m described body method)
include completes

/-- A described statement has its place among the resolved ones. -/
theorem Completes.exists_resolves {statement : StatementDescription} (inBody : statement ∈ described.body) :
    ∃ resolved ∈ body, skeleton.Resolves statement resolved := by
  have pairs := mapM_eq_ok_iff.mp completes.resolved
  obtain ⟨i, here⟩ := List.mem_iff_getElem?.mp inBody
  have bound : i < body.length := pairs.length_eq ▸ (List.getElem?_eq_some_iff.mp here).1
  have there : body[i]? = some body[i] := List.getElem?_eq_getElem bound
  obtain ⟨statement', source, found⟩ := rel_getElem? pairs there
  cases source.symm.trans here
  exact ⟨body[i], List.mem_of_getElem? there, Program.resolveStatement_eq_ok_iff.mp found⟩

variable (here : p.methods[m]? = some method)
include here

/-- A variable is found by its name. -/
theorem Completes.findVar?_number {start : VarId}
    (locals : method.locals = List.range' start (localNames described body).length) {name : String}
    (known : name ∈ localNames described body) :
    p.findVar? m name = some (numberFrom start (localNames described body) name) := by
  have bound := List.idxOf_lt_length_of_mem known
  have listed : p.localsOf m = List.range' start (localNames described body).length := by
    simp [Program.localsOf, here, locals]
  rw [Program.findVar?, listed, List.find?_eq_some_iff_getElem]
  refine ⟨?_, (localNames described body).idxOf name, by simpa using bound, ?_, fun i less => ?_⟩
  · rw [numberFrom, completes.getElem?_vars locals bound, List.getElem_idxOf]
    simp
  · simp [numberFrom]
  · have before : (localNames described body)[i] ≠ name := by
      simpa using List.not_of_lt_findIdx less
    simp [completes.getElem?_vars locals (Nat.lt_trans less bound), before]

/-- A resolved statement stands in the body with numbers for its variables and its allocation. -/
theorem Completes.exists_mem_bodyOf {resolved : ResolvedStatement} (inBody : resolved ∈ body) :
    ∃ (number : String → VarId) (site : SiteId), (resolved.mapVars number).withAllocation site ∈ p.bodyOf m ∧
      ∀ name ∈ resolved.mentions, p.findVar? m name = some (number name) := by
  obtain ⟨owner, start, firstSite, made⟩ := completes.completed
  have whole : p.bodyOf m = method.body := by simp [Program.bodyOf, here]
  obtain ⟨site, numbered⟩ := exists_mem_numberSites
    (List.mem_map_of_mem (f := (·.mapVars (numberFrom start (localNames described body)))) inBody) firstSite
  refine ⟨numberFrom start (localNames described body), site, ?_, fun name mentioned => ?_⟩
  · rw [whole, made]
    exact numbered
  · refine completes.findVar?_number here (by rw [made]; rfl) ?_
    exact mem_localNames.mpr (.inr (.inr ⟨resolved, inBody, mentioned⟩))

end Completes

/-- A described statement of a loaded program stands in the body of its method, resolved and numbered. -/
theorem exists_numbered (loads : d.load = .ok p)
    (source : (d.classes.flatMap (·.methods))[m]? = some described) {statement : StatementDescription}
    (inBody : statement ∈ described.body) :
    ∃ (resolved : ResolvedStatement) (number : String → VarId) (site : SiteId),
      p.Resolves statement resolved ∧ (resolved.mapVars number).withAllocation site ∈ p.bodyOf m ∧
      ∀ name ∈ resolved.mentions, p.findVar? m name = some (number name) := by
  obtain ⟨skeleton, lowers⟩ := exists_lowers loads
  have inUse : m < p.methods.size := by
    rw [(declared_of_load loads).size_methods]
    exact (List.getElem?_eq_some_iff.mp source).1
  have here : p.methods[m]? = some p.methods[m] := Array.getElem?_eq_getElem inUse
  obtain ⟨described', body, completes⟩ := lowers.methods here
  cases completes.source.symm.trans source
  obtain ⟨resolved, member, resolves⟩ := completes.exists_resolves inBody
  obtain ⟨number, site, numbered, found⟩ := completes.exists_mem_bodyOf here member
  exact ⟨resolved, number, site, resolves.congr lowers.classes lowers.fields, numbered, found⟩

/-! ## Accesses of fields -/

/-- Method `m` is described with a statement of a form that names a base or none, a field and a variable; the
base and the variable are given by their numbers. -/
def Accesses (d : Description) (p : Program)
    (form : Option String → String → String → StatementDescription) (m : MethodId) (base : Option VarId)
    (f : FieldId) (v : VarId) : Prop :=
  ∃ described baseName reference name, (d.classes.flatMap (·.methods))[m]? = some described ∧
    form baseName reference name ∈ described.body ∧ p.resolveField reference = .ok f ∧
    baseName.map (p.findVar? m) = base.map some ∧ p.findVar? m name = some v

/-- A method stores the objects of a variable into a field. -/
def Stores (d : Description) (p : Program) : MethodId → Option VarId → FieldId → VarId → Prop :=
  d.Accesses p .store

/-- A method loads the objects of a field into a variable. -/
def Loads (d : Description) (p : Program) : MethodId → Option VarId → FieldId → VarId → Prop :=
  d.Accesses p fun base reference lhs => .load lhs base reference

variable {base : Option VarId} {f : FieldId} {v : VarId}

theorem Stores.mem_bodyOf (loads : d.load = .ok p) (stores : d.Stores p m base f v) :
    (match base with
      | none => .storeStatic f v
      | some b => .storeField b f v : Stmt) ∈ p.bodyOf m := by
  obtain ⟨described, baseName, reference, name, source, written, field, named, numbered⟩ := stores
  obtain ⟨resolved, number, site, resolves, inBody, found⟩ := exists_numbered loads source written
  cases resolves with
  | storeStatic resolvedField =>
      cases Option.map_eq_none_iff.mp named.symm
      cases resolvedField.symm.trans field
      cases (found name (by simp [Statement.mentions])).symm.trans numbered
      exact inBody
  | @storeField baseText _ _ _ resolvedField =>
      cases base with
      | none => cases named
      | some b =>
          cases resolvedField.symm.trans field
          cases (found name (by simp [Statement.mentions])).symm.trans numbered
          cases (found baseText (by simp [Statement.mentions])).symm.trans (Option.some.inj named)
          exact inBody

theorem Loads.mem_bodyOf (loads : d.load = .ok p) (reads : d.Loads p m base f v) :
    (match base with
      | none => .loadStatic v f
      | some b => .loadField v b f : Stmt) ∈ p.bodyOf m := by
  obtain ⟨described, baseName, reference, name, source, written, field, named, numbered⟩ := reads
  obtain ⟨resolved, number, site, resolves, inBody, found⟩ := exists_numbered loads source written
  cases resolves with
  | loadStatic resolvedField =>
      cases Option.map_eq_none_iff.mp named.symm
      cases resolvedField.symm.trans field
      cases (found name (by simp [Statement.mentions])).symm.trans numbered
      exact inBody
  | @loadField _ baseText _ _ resolvedField =>
      cases base with
      | none => cases named
      | some b =>
          cases resolvedField.symm.trans field
          cases (found name (by simp [Statement.mentions])).symm.trans numbered
          cases (found baseText (by simp [Statement.mentions])).symm.trans (Option.some.inj named)
          exact inBody

end Description

namespace State

variable {setting : Setting} {s : State} {d : Description}

/-- The cells that an access in a context goes to. -/
inductive Cell (s : State) (c : ContextId) (f : FieldId) : Option VarId → Pointer → Prop
  | whole : Cell s c f none (.static f)
  | part {b : VarId} {o : QualifiedObjectId} (held : o ∈ s.points (.var c b)) :
      Cell s c f (some b) (.field o f)

/-- Two accesses of a field meet when neither names a base, or when the bases have an object in common. -/
def Meet (s : State) (c : ContextId) (base : Option VarId) (c' : ContextId) (base' : Option VarId) : Prop :=
  match base, base' with
  | none, none => True
  | some b, some b' => ∃ o, o ∈ s.points (.var c b) ∧ o ∈ s.points (.var c' b')
  | _, _ => False

theorem Meet.exists_cell {c c' : ContextId} {base base' : Option VarId} (meet : s.Meet c base c' base')
    (f : FieldId) : ∃ cell, s.Cell c f base cell ∧ s.Cell c' f base' cell := by
  cases base <;> cases base' <;> simp only [Meet] at meet
  · exact ⟨_, .whole, .whole⟩
  · obtain ⟨o, held, held'⟩ := meet
    exact ⟨_, .part held, .part held'⟩

section Finished

variable (loads : d.load = .ok setting.program) (run : Reached setting s) (finished : step setting s = none)
  {c : ContextId} {m : MethodId} {base : Option VarId} {f : FieldId} {v : VarId} {cell : Pointer}
  (reached : ⟨c, m⟩ ∈ s.calls.reachable) (met : s.Cell c f base cell)
include loads run finished reached met

/-- What is stored flows to every cell of the store. -/
theorem flow_of_stores (stores : d.Stores setting.program m base f v) :
    s.Present (.flow (.var c v) cell) := by
  have solution := run.solution (Program.Loaded.wellFormed ⟨d, loads⟩) finished
  have statement := stores.mem_bodyOf loads
  have present : s.Present (.reach c m) := reached
  cases met with
  | whole => exact solution _ (.ofMethod present (.storeStatic statement))
  | part held => exact solution _ (.ofObject present held (.storeField statement))

/-- What a cell of a load has flows to the variable. -/
theorem flow_of_loads (reads : d.Loads setting.program m base f v) :
    s.Present (.flow cell (.var c v)) := by
  have solution := run.solution (Program.Loaded.wellFormed ⟨d, loads⟩) finished
  have statement := reads.mem_bodyOf loads
  have present : s.Present (.reach c m) := reached
  cases met with
  | whole => exact solution _ (.ofMethod present (.loadStatic statement))
  | part held => exact solution _ (.ofObject present held (.loadField statement))

end Finished

/-- At the end of a run a load has in its variable what a store has in its own, when both are reachable and
they meet. -/
theorem subset_of_meet (loads : d.load = .ok setting.program) (run : Reached setting s)
    (finished : step setting s = none) {c c' : ContextId} {m m' : MethodId} {base base' : Option VarId}
    {f : FieldId} {x y : VarId} (stores : d.Stores setting.program m base f x)
    (reads : d.Loads setting.program m' base' f y) (storing : ⟨c, m⟩ ∈ s.calls.reachable)
    (loading : ⟨c', m'⟩ ∈ s.calls.reachable) (meet : s.Meet c base c' base') :
    ∀ o ∈ s.points (.var c x), o ∈ s.points (.var c' y) := by
  intro o held
  obtain ⟨cell, stored, loaded⟩ := meet.exists_cell f
  have solution := run.solution (Program.Loaded.wellFormed ⟨d, loads⟩) finished
  have inCell : s.Present (.holds cell o) :=
    solution _ (.subset (flow_of_stores loads run finished storing stored stores) held)
  exact solution _ (.subset (flow_of_loads loads run finished loading loaded reads) inCell)

/-- A static field is one cell: whatever is stored into it anywhere is loaded from it everywhere, whether the
statements name a base that has objects or no base. -/
def OneCell (d : Description) (setting : Setting) (s : State) : Prop :=
  ∀ {f field}, setting.program.fields[f]? = some field → field.isStatic = true →
    ∀ {c c' m m' base base' x y}, d.Stores setting.program m base f x → d.Loads setting.program m' base' f y →
      ⟨c, m⟩ ∈ s.calls.reachable → ⟨c', m'⟩ ∈ s.calls.reachable →
      (∀ b ∈ base, ∃ o, o ∈ s.points (.var c b)) → (∀ b ∈ base', ∃ o, o ∈ s.points (.var c' b)) →
      ∀ o ∈ s.points (.var c x), o ∈ s.points (.var c' y)

end State

/-! ## A static field with and without a base -/

/-- Stores into a static field and loads from it, some of which name an object as base. -/
def MethodDescription.mixing : MethodDescription where
  name := "main"
  isStatic := true
  body := [
    .new "b" "A", .new "d" "A", .new "x" "A", .new "w" "A",
    .store (some "b") "A.f" "x", .store none "A.f" "w",
    .load "y" none "A.f", .load "z" (some "d") "A.f", .load "u" (some "b") "A.f"]

/-- The program that runs these stores and loads. -/
def Description.mixed : Description where
  classes := [
    { name := "A", fields := [{ name := "f", isStatic := true }], methods := [.mixing] }]
  entry := ⟨"A", "main/0"⟩

namespace State

open Description (mixed)

/-- The end of its analysis without contexts. -/
def mixedEnd : State := run mixed.setting

theorem load_mixed : mixed.load = .ok mixed.setting.program := by decide +kernel

theorem reached_mixedEnd : Reached mixed.setting mixedEnd ∧ step mixed.setting mixedEnd = none :=
  reached_run (Program.Loaded.wellFormed ⟨mixed, load_mixed⟩)

theorem mem_reachable_mixedEnd : ⟨0, 0⟩ ∈ mixedEnd.calls.reachable := by decide +kernel

/-- The accesses of the program by the names that its statements have. -/
theorem accesses_mixed (form : Option String → String → String → StatementDescription)
    (baseName : Option String) (name : String) {base : Option VarId} {v : VarId}
    (written : form baseName "A.f" name ∈ MethodDescription.mixing.body)
    (named : baseName.map (mixed.setting.program.findVar? 0) = base.map some)
    (numbered : mixed.setting.program.findVar? 0 name = some v) :
    mixed.Accesses mixed.setting.program form 0 base 0 v :=
  ⟨.mixing, baseName, "A.f", name, rfl, written, by decide +kernel, named, numbered⟩

theorem stores_mixed : mixed.Stores mixed.setting.program 0 (some 0) 0 2 :=
  accesses_mixed _ (some "b") "x" (by decide) (by decide +kernel) (by decide +kernel)

theorem loads_mixed : mixed.Loads mixed.setting.program 0 none 0 4 :=
  accesses_mixed _ none "y" (by decide) rfl (by decide +kernel)

/-- `b.f = x` is seen by `u = b.f`, and `A.f = w` by `y = A.f`. -/
theorem subset_of_meet_mixed :
    (∀ o ∈ mixedEnd.points (.var 0 2), o ∈ mixedEnd.points (.var 0 6)) ∧
    (∀ o ∈ mixedEnd.points (.var 0 3), o ∈ mixedEnd.points (.var 0 4)) ∧
    (mixedEnd.points (.var 0 2)).toList = [2] ∧ (mixedEnd.points (.var 0 3)).toList = [3] := by
  obtain ⟨reached, finished⟩ := reached_mixedEnd
  have entry := mem_reachable_mixedEnd
  have shared : mixedEnd.Meet 0 (some 0) 0 (some 0) := ⟨0, by decide +kernel, by decide +kernel⟩
  have plain : mixedEnd.Meet 0 none 0 none := trivial
  have stores_w : mixed.Stores mixed.setting.program 0 none 0 3 :=
    accesses_mixed _ none "w" (by decide) rfl (by decide +kernel)
  have loads_u : mixed.Loads mixed.setting.program 0 (some 0) 0 6 :=
    accesses_mixed _ (some "b") "u" (by decide) (by decide +kernel) (by decide +kernel)
  exact ⟨subset_of_meet load_mixed reached finished stores_mixed loads_u entry entry shared,
    subset_of_meet load_mixed reached finished stores_w loads_mixed entry entry plain,
    by decide +kernel, by decide +kernel⟩

/-- The static field is not one cell: `y = A.f` does not see `b.f = x`, `u = b.f` does not see `A.f = w`, and
`z = d.f` sees neither. -/
theorem not_oneCell_mixed :
    mixed.load = .ok mixed.setting.program ∧
    (Reached mixed.setting mixedEnd ∧ step mixed.setting mixedEnd = none) ∧
    ¬ OneCell mixed mixed.setting mixedEnd ∧
    [2, 3, 4, 5, 6].map (fun v => (mixedEnd.points (.var 0 v)).toList) = [[2], [3], [3], [], [2]] := by
  refine ⟨load_mixed, reached_mixedEnd, fun oneCell => ?_, by decide +kernel⟩
  have declared : mixed.setting.program.fields[0]? = some ⟨"f", 0, true⟩ := by decide +kernel
  have filled : ∀ b ∈ some 0, ∃ o, o ∈ mixedEnd.points (.var 0 b) := fun b same =>
    Option.mem_some_iff.mp same ▸ ⟨0, by decide +kernel⟩
  have entry := mem_reachable_mixedEnd
  have seen := oneCell declared rfl stores_mixed loads_mixed entry entry filled
    (fun b impossible => by cases impossible) 2 (by decide +kernel)
  revert seen
  decide +kernel

end State

end PointsTo
