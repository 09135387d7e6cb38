/- # Embeddings -- the results do not depend on the order of statements

When a loaded program embeds in another, with the statements of its bodies at other positions and among more
statements, the two runs meet methods, contexts and objects in different orders and have no state in common.
What they find is related all the same: an object and its renaming have the same type and the same class
(`Embeds.keeps`), the policies take renamed call sites to renamed contexts, and so the reading of the rules
for the one program is embedded in the reading for the other (`Embeds.domain`).

Statements that are appended leave the positions of the others alone, so they take no fact away.  When the
renaming can be undone and the bodies have the same lengths, the statements are only permuted, and the other
program embeds back (`Permutes.embeds`).

Main statement: `recorded_of_embeds`. -/
import Mathlib.Data.Finset.Card
import Mathlib.Logic.Equiv.Basic
import PointsTo.Proofs.Renamings

set_option autoImplicit false

namespace PointsTo

/-! ## Renaming contexts and objects -/

namespace Renaming

variable (r : Renaming)

/-- What a renamed object stands for. -/
def origin : Origin → Origin
  | .site s => .site (r.site s)
  | .type allocated container => .type allocated container

/-- The element with renamed call and allocation sites. -/
def element : ElementOf Origin → ElementOf Origin
  | .site site => .site (r.callSite site)
  | .object o => .object (r.origin o)
  | .type c => .type c

/-- The context with renamed elements. -/
def context (context : ContextOf Origin) : ContextOf Origin := context.map r.element

/-- The object in its heap context, both renamed. -/
def object (o : QualifiedOrigin) : QualifiedOrigin := ⟨r.context o.context, r.origin o.origin⟩

/-- The fact with all that it mentions renamed. -/
def fact (fact : Fact (ContextOf Origin) QualifiedOrigin) : Fact (ContextOf Origin) QualifiedOrigin :=
  (fact.rename r).map r.context r.object

/-! ### Renaming twice -/

section Twice

variable (s : Renaming)

theorem callSite_andThen (site : CallSite) : (r.andThen s).callSite site = s.callSite (r.callSite site) :=
  rfl

theorem origin_andThen (o : Origin) : (r.andThen s).origin o = s.origin (r.origin o) := by
  cases o <;> rfl

theorem element_andThen (e : ElementOf Origin) : (r.andThen s).element e = s.element (r.element e) := by
  cases e <;> simp only [element, origin_andThen, callSite_andThen]

theorem context_andThen (c : ContextOf Origin) : (r.andThen s).context c = s.context (r.context c) := by
  simp only [context, List.map_map]
  exact List.map_congr_left fun e _ => element_andThen r s e

theorem object_andThen (o : QualifiedOrigin) : (r.andThen s).object o = s.object (r.object o) := by
  simp only [object, context_andThen, origin_andThen]

theorem fact_andThen (fact : Fact (ContextOf Origin) QualifiedOrigin) :
    (r.andThen s).fact fact = s.fact (r.fact fact) := by
  have pointer (p : PointerOf (ContextOf Origin) QualifiedOrigin) :
      (p.rename (r.andThen s)).map (r.andThen s).context (r.andThen s).object =
        (((p.rename r).map r.context r.object).rename s).map s.context s.object := by
    cases p <;> simp only [PointerOf.rename, PointerOf.map, context_andThen, object_andThen]
    rfl
  cases fact <;> simp only [Renaming.fact, Fact.rename, Fact.map, pointer, context_andThen, object_andThen]
  rfl

theorem statement_andThen (x : Stmt) : (r.andThen s).statement x = s.statement (r.statement x) := by
  cases x with
  | invoke call => simp [statement, Statement.mapVars, Invocation.mapVars, andThen, Function.comp_def]
  | ret value => simp [statement, Statement.mapVars, andThen, Function.comp_def]
  | _ => rfl

theorem declaration_andThen (m : Method) : (r.andThen s).declaration m = s.declaration (r.declaration m) := by
  simp [declaration, andThen, Function.comp_def]

end Twice

theorem fact_identity (fact : Fact (ContextOf Origin) QualifiedOrigin) : identity.fact fact = fact := by
  have origins (o : Origin) : identity.origin o = o := by cases o <;> rfl
  have elements (e : ElementOf Origin) : identity.element e = e := by
    cases e <;> simp only [element, origins]
    rfl
  have contexts (c : ContextOf Origin) : identity.context c = c := by
    simp only [context, funext elements, List.map_id']
  have objects (o : QualifiedOrigin) : identity.object o = o := by
    simp only [object, contexts, origins]
  have pointers (p : PointerOf (ContextOf Origin) QualifiedOrigin) :
      p.map identity.context identity.object = p := by
    cases p <;> simp only [PointerOf.map, contexts, objects]
  unfold Renaming.fact
  rw [rename_identity]
  cases fact <;> simp only [Fact.map, contexts, objects, pointers]

/-! ### Policies -/

section Policies

variable (policy : Policy)

theorem staticContext_context (caller : ContextOf Origin) (site : CallSite) :
    policy.staticContext (r.context caller) (r.callSite site) =
      r.context (policy.staticContext caller site) := by
  cases same : policy.sensitivity <;>
    simp [Policy.staticContext, same, Context.extend, context, element]

theorem instanceContext_context (caller : ContextOf Origin) (site : CallSite) (heap : ContextOf Origin)
    (object : Origin) (container : ClassId) :
    policy.instanceContext (r.context caller) (r.callSite site) (r.context heap) (r.origin object) container =
      r.context (policy.instanceContext caller site heap object container) := by
  cases same : policy.sensitivity <;>
    simp [Policy.instanceContext, same, Context.extend, context, element]

theorem heapContext_context (caller : ContextOf Origin) :
    policy.heapContext (r.context caller) = r.context (policy.heapContext caller) := by
  cases same : policy.sensitivity <;> simp [Policy.heapContext, same, Context.truncate, context]

end Policies

end Renaming

/-! ## Objects keep their types -/

namespace Program

/-- The renamed objects have the type and the class that they have in the other program. -/
def Keeps (p : Program) (r : Renaming) (q : Program) (o : Origin) : Prop :=
  (r.origin o).typeIn q = o.typeIn p ∧ (r.origin o).containerIn q = o.containerIn p

namespace Embeds

variable {p q : Program} {r : Renaming} (embeds : p.Embeds r q) (loaded : p.Loaded) (loaded' : q.Loaded)
include embeds loaded loaded'

/-- The sites of a statement and of its renaming allocate the same type in the same class. -/
theorem objectAt {s : SiteId} (allocated : p.Allocates s) :
    (q.objectAt (r.site s)).type = (p.objectAt s).type ∧
      (q.objectAt (r.site s)).container = (p.objectAt s).container := by
  obtain ⟨m, lhs, statement⟩ := allocated
  obtain ⟨i, here⟩ := List.mem_iff_getElem?.mp statement
  obtain ⟨type, listed⟩ := loaded.site_of_new here
  obtain ⟨type', listed'⟩ := loaded'.site_of_new (embeds.statement here)
  have same := embeds.types statement
  simp only [typeAt?, listed, listed', Option.map_some, Option.some.injEq] at same
  simp only [Program.objectAt, listed, listed', same, embeds.ownerOf, and_self]

theorem originAt {s : SiteId} (allocated : p.Allocates s) (model : HeapModel) :
    r.origin (p.originAt model s) = q.originAt model (r.site s) := by
  obtain ⟨type, container⟩ := embeds.objectAt loaded loaded' allocated
  cases model with
  | site => simp [Program.originAt, HeapObject.origin, Renaming.origin]
  | type => simp [Program.originAt, HeapObject.origin, Renaming.origin, type, container]

theorem keeps {s : SiteId} (allocated : p.Allocates s) (model : HeapModel) :
    p.Keeps r q (p.originAt model s) := by
  obtain ⟨type, container⟩ := embeds.objectAt loaded loaded' allocated
  cases model with
  | site =>
      simpa [Keeps, Program.originAt, HeapObject.origin, Renaming.origin, Origin.typeIn,
        Origin.containerIn] using ⟨type, container⟩
  | type => exact ⟨rfl, rfl⟩

/-- The reading of the rules for the one program is embedded in the reading for the other. -/
theorem domain (entry : MethodId) (policy : Policy) (model : HeapModel) :
    (⟨p, entry, policy, model⟩ : Setting).domain.Embedding p r (⟨q, entry, policy, model⟩ : Setting).domain
      r.context r.object fun o => p.Keeps r q o.origin where
  initial := rfl
  object {c s} allocated := by
    simp only [Setting.domain, Renaming.object, r.heapContext_context,
      embeds.originAt loaded loaded' allocated]
  made allocated := embeds.keeps loaded loaded' allocated model
  type kept := kept.1
  callStatic c site := (r.staticContext_context policy c site).symm
  callInstance {o} kept c site := by
    simp only [Setting.domain, Renaming.object, kept.2, r.instanceContext_context]

end Embeds

/-! ## Permuted statements -/

/-- The renaming can be undone, and no body has more statements than the one that is embedded in it. -/
structure Permutes (p : Program) (r : Renaming) (q : Program) : Prop where
  undone : ∃ back : Renaming, r.andThen back = .identity ∧ back.andThen r = .identity
  length : ∀ m, (q.bodyOf m).length = (p.bodyOf m).length

/-- Every statement is the renaming of one. -/
theorem Permutes.exists_statement {p q : Program} {r : Renaming} (permutes : p.Permutes r q)
    (embeds : p.Embeds r q) {m : MethodId} {j : Nat} {s : Stmt} (here : (q.bodyOf m)[j]? = some s) :
    ∃ i t, (p.bodyOf m)[i]? = some t ∧ r.position m i = j ∧ r.statement t = s := by
  obtain ⟨⟨back, undo, -⟩, length⟩ := permutes
  have injective : Function.Injective (r.position m) := by
    refine Function.LeftInverse.injective (g := back.position m) fun i => ?_
    exact congrArg (fun r : Renaming => r.position m i) undo
  -- As many positions as there are stay different, so none is left over.
  have onto : (Finset.range (p.bodyOf m).length).image (r.position m) =
      Finset.range (q.bodyOf m).length := by
    refine Finset.eq_of_subset_of_card_le (fun k member => ?_) ?_
    · obtain ⟨i, inside, rfl⟩ := Finset.mem_image.mp member
      have there := embeds.statement (List.getElem?_eq_getElem (Finset.mem_range.mp inside))
      exact Finset.mem_range.mpr (List.getElem?_eq_some_iff.mp there).1
    · rw [Finset.card_image_of_injective _ injective, Finset.card_range, Finset.card_range, length]
  have inside : j ∈ Finset.range (q.bodyOf m).length :=
    Finset.mem_range.mpr (List.getElem?_eq_some_iff.mp here).1
  rw [← onto] at inside
  obtain ⟨i, small, rfl⟩ := Finset.mem_image.mp inside
  have there := List.getElem?_eq_getElem (Finset.mem_range.mp small)
  exact ⟨i, _, there, rfl, Option.some.inj ((embeds.statement there).symm.trans here)⟩

/-- A program with permuted statements embeds back. -/
theorem Permutes.embeds {p q : Program} {r : Renaming} (permutes : p.Permutes r q) (embeds : p.Embeds r q)
    (loaded : p.Loaded) (loaded' : q.Loaded) {back : Renaming} (undo : r.andThen back = .identity) :
    q.Embeds back p := by
  have statement {m : MethodId} {j : Nat} {s : Stmt} (here : (q.bodyOf m)[j]? = some s) :
      (p.bodyOf m)[back.position m j]? = some (back.statement s) := by
    obtain ⟨i, t, there, rfl, rfl⟩ := permutes.exists_statement embeds here
    rw [← r.statement_andThen, undo, Renaming.statement_identity]
    have same : back.position m (r.position m i) = i :=
      congrArg (fun r : Renaming => r.position m i) undo
    rw [same, there]
  refine ⟨embeds.classes.symm, embeds.fields.symm, ?_, statement, fun {m lhs s} inBody => ?_,
    fun {m v} given => ?_⟩
  · have same := congrArg (Array.map back.declaration) embeds.methods
    simp only [Array.map_map, Function.comp_def, ← Renaming.declaration_andThen, undo] at same
    exact same.symm
  · obtain ⟨j, here⟩ := List.mem_iff_getElem?.mp inBody
    obtain ⟨i, t, there, rfl, same⟩ := permutes.exists_statement embeds here
    cases t with
    | new lhs' s' =>
        cases same
        have back_site : back.site (r.site s') = s' := congrArg (fun r : Renaming => r.site s') undo
        rw [back_site]
        exact (embeds.types (List.mem_of_getElem? there)).symm
    | _ => cases same
  · rw [loaded.mem_returnsOf]
    obtain ⟨j, here⟩ := List.mem_iff_getElem?.mp (loaded'.mem_returnsOf.mp given)
    exact List.mem_of_getElem? (statement here)

end Program

/-! ## Two runs -/

namespace State

/-- The two finished runs have no state in common, but what each has found is the least solution. -/
theorem recorded_fact {p q : Program} {r : Renaming} (loaded : p.Loaded) (loaded' : q.Loaded)
    (embeds : p.Embeds r q) (entry : MethodId) (policy : Policy) (model : HeapModel)
    {fact : Fact (ContextOf Origin) QualifiedOrigin}
    (recorded : Recorded ⟨p, entry, policy, model⟩ (run ⟨p, entry, policy, model⟩) fact) :
    Recorded ⟨q, entry, policy, model⟩ (run ⟨q, entry, policy, model⟩) (r.fact fact) := by
  obtain ⟨run, -⟩ := @reached_run ⟨p, entry, policy, model⟩ loaded.wellFormed
  obtain ⟨run', finished⟩ := @reached_run ⟨q, entry, policy, model⟩ loaded'.wellFormed
  have sameEntry : (⟨q, entry, policy, model⟩ : Setting).entry =
      (⟨p, entry, policy, model⟩ : Setting).entry := rfl
  exact recorded_embedded embeds sameEntry loaded.wellFormed loaded'.wellFormed
    (embeds.domain loaded loaded' entry policy model) run run' finished recorded

/-- What a run finds in a loaded program it finds, renamed, in every loaded program that the first embeds in,
and nothing else when the statements are only permuted. -/
theorem recorded_of_embeds {p q : Program} {r : Renaming} (loaded : p.Loaded) (loaded' : q.Loaded)
    (embeds : p.Embeds r q) (entry : MethodId) (policy : Policy) (model : HeapModel) :
    (∀ fact, Recorded ⟨p, entry, policy, model⟩ (run ⟨p, entry, policy, model⟩) fact →
      Recorded ⟨q, entry, policy, model⟩ (run ⟨q, entry, policy, model⟩) (r.fact fact)) ∧
    (p.Permutes r q → ∀ fact, Recorded ⟨q, entry, policy, model⟩ (run ⟨q, entry, policy, model⟩) fact ↔
      ∃ original, Recorded ⟨p, entry, policy, model⟩ (run ⟨p, entry, policy, model⟩) original ∧
        r.fact original = fact) := by
  refine ⟨fun fact => recorded_fact loaded loaded' embeds entry policy model, fun permutes fact => ?_⟩
  constructor
  · intro recorded
    obtain ⟨back, undo, redo⟩ := permutes.undone
    have embedsBack := permutes.embeds embeds loaded loaded' undo
    refine ⟨back.fact fact, recorded_fact loaded' loaded embedsBack entry policy model recorded, ?_⟩
    rw [← back.fact_andThen, redo, Renaming.fact_identity]
  · rintro ⟨original, recorded, rfl⟩
    exact recorded_fact loaded loaded' embeds entry policy model recorded

end State

/-! ### A sample -/

namespace Description

/-- A program whose entry method has a given body; `pick` returns its argument. -/
def picking (body : List StatementDescription) : Description where
  classes := [
    { name := "Main"
      methods := [
        { name := "main", isStatic := true, body },
        { name := "pick", isStatic := true, params := ["p"], body := [.ret (some "p")] }] },
    { name := "B" }]
  entry := ⟨"Main", "main/0"⟩

/-- Two allocations and a call. -/
def inOrder : Description :=
  picking [.new "a" "Main", .new "b" "B", .invoke .static "Main" "pick/1" none ["a"] (some "c")]

/-- The same statements in another order, so that variables and sites get other numbers. -/
def permuted : Description :=
  picking [.new "b" "B", .invoke .static "Main" "pick/1" none ["a"] (some "c"), .new "a" "Main"]

/-- The permuted statements with others behind them. -/
def continued : Description :=
  picking [
    .new "b" "B", .invoke .static "Main" "pick/1" none ["a"] (some "c"), .new "a" "Main",
    .copy "d" "c", .new "d" "B"]

end Description

/-- Exchanges the first two variables and the first two sites, and moves the statements of one method. -/
def Renaming.permuting : Renaming where
  var := Equiv.swap 0 1
  site := Equiv.swap 0 1
  position m := if m = 0 then Equiv.swap 0 1 ∘ Equiv.swap 0 2 else id

/-- Makes room for one more variable. -/
def Renaming.continuing : Renaming where
  var v := if v < 3 then v else v + 1
  site := id
  position _ := id

theorem Program.permutes_sample :
    Description.inOrder.program.Permutes .permuting Description.permuted.program := by
  refine ⟨⟨⟨Equiv.swap 0 1, Equiv.swap 0 1,
    fun m => if m = 0 then Equiv.swap 0 2 ∘ Equiv.swap 0 1 else id⟩, ?_, ?_⟩, fun m => ?_⟩
  · ext m i
    · simp [Renaming.permuting, Renaming.andThen, Renaming.identity]
    · simp [Renaming.permuting, Renaming.andThen, Renaming.identity]
    · by_cases first : m = 0 <;> simp [Renaming.permuting, Renaming.andThen, Renaming.identity, first]
  · ext m i
    · simp [Renaming.permuting, Renaming.andThen, Renaming.identity]
    · simp [Renaming.permuting, Renaming.andThen, Renaming.identity]
    · by_cases first : m = 0 <;> simp [Renaming.permuting, Renaming.andThen, Renaming.identity, first]
  · by_cases inUse : m < 2
    · revert m
      decide +kernel
    · have unused {p : Program} (two : p.methods.size = 2) : p.bodyOf m = [] := by
        rw [Program.bodyOf, Array.getElem?_eq_none (two ▸ Nat.le_of_not_lt inUse)]
        rfl
      rw [unused (by decide +kernel), unused (by decide +kernel)]

theorem State.recorded_of_embeds_sample :
    (∀ fact, Recorded ⟨Description.permuted.program, 0, ⟨.callSite, 1, 1⟩, .site⟩
        (run ⟨Description.permuted.program, 0, ⟨.callSite, 1, 1⟩, .site⟩) fact ↔
      ∃ original, Recorded ⟨Description.inOrder.program, 0, ⟨.callSite, 1, 1⟩, .site⟩
        (run ⟨Description.inOrder.program, 0, ⟨.callSite, 1, 1⟩, .site⟩) original ∧
        Renaming.permuting.fact original = fact) ∧
    ∀ fact, Recorded ⟨Description.permuted.program, 0, ⟨.callSite, 1, 1⟩, .site⟩
        (run ⟨Description.permuted.program, 0, ⟨.callSite, 1, 1⟩, .site⟩) fact →
      Recorded ⟨Description.continued.program, 0, ⟨.callSite, 1, 1⟩, .site⟩
        (run ⟨Description.continued.program, 0, ⟨.callSite, 1, 1⟩, .site⟩)
        (Renaming.continuing.fact fact) := by
  have inOrder : Description.inOrder.program.Loaded := ⟨Description.inOrder, by decide +kernel⟩
  have permuted : Description.permuted.program.Loaded := ⟨Description.permuted, by decide +kernel⟩
  have continued : Description.continued.program.Loaded := ⟨Description.continued, by decide +kernel⟩
  constructor
  · exact (recorded_of_embeds inOrder permuted (by decide +kernel) 0 _ _).2 Program.permutes_sample
  · exact (recorded_of_embeds permuted continued (by decide +kernel) 0 _ _).1

end PointsTo
