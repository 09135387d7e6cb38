/- # Renamings -- programs embedded in programs

A program embeds in another one with the same declarations when every statement of it stands somewhere in the
other body of its method, with renamed variables and renamed sites (`Program.Embeds`).  The other program may
have more statements, and the same ones at other positions.  A call then resolves to the same method
(`Embeds.resolveCall`), so the rules ask of the other program for what they ask of the one, renamed.

Contexts and objects change with the program: they mention call sites and allocation sites.  As little as the
rules need to know about them (`Domain`), as little has to be said about how they change
(`Domain.Embedding`).  The type of an object is kept only when its site belongs to the program, so the facts
that are carried over are those about such objects (`Fact.Holding`).

Main statements: `Solution.comap`, the facts whose renamings are in a solution are a solution; and
`recorded_embedded`, what a run finds in the one program, renamed, is what a run finds in the other. -/
import PointsTo.Proofs.Precision
import PointsTo.Proofs.Termination

set_option autoImplicit false

namespace PointsTo

/-! ## Renaming the parts of a program -/

/-- What the variables, the allocation sites and the positions of statements of a program are called in
another. -/
@[ext]
structure Renaming where
  var : VarId → VarId
  site : SiteId → SiteId
  position : MethodId → Nat → Nat

namespace Renaming

/-- The renaming that leaves all names alone. -/
def identity : Renaming := ⟨id, id, fun _ => id⟩

/-- One renaming, then another. -/
def andThen (r s : Renaming) : Renaming :=
  ⟨s.var ∘ r.var, s.site ∘ r.site, fun m => s.position m ∘ r.position m⟩

variable (r : Renaming)

/-- The call site where the renamed call stands. -/
def callSite (site : CallSite) : CallSite := ⟨site.method, r.position site.method site.index⟩

/-- The renamed statement. -/
def statement : Stmt → Stmt
  | .new lhs site => .new (r.var lhs) (r.site site)
  | s => s.mapVars r.var

/-- The declaration of a method with renamed variables, without what its body brings. -/
def declaration (method : Method) : Method :=
  { method with
    params := method.params.map r.var
    this := method.this.map r.var
    returns := []
    locals := []
    body := [] }

end Renaming

/-- The type that is allocated at a site. -/
def Program.typeAt? (p : Program) (s : SiteId) : Option TypeRef := p.sites[s]?.map (·.type)

/-- The programs declare the same classes, fields and methods, every statement of the first stands renamed in
the second, allocating the same type, and what a method returns it returns there, too.  Nothing asks that
different statements stay different. -/
structure Program.Embeds (p : Program) (r : Renaming) (q : Program) : Prop where
  classes : q.classes = p.classes
  fields : q.fields = p.fields
  methods : q.methods.map Renaming.identity.declaration = p.methods.map r.declaration
  statement : ∀ {m i s}, (p.bodyOf m)[i]? = some s → (q.bodyOf m)[r.position m i]? = some (r.statement s)
  types : ∀ {m lhs s}, .new lhs s ∈ p.bodyOf m → q.typeAt? (r.site s) = p.typeAt? s
  returns : ∀ {m v}, v ∈ p.returnsOf m → r.var v ∈ q.returnsOf m

/-- Only methods in use have statements, so an embedding can be checked. -/
instance (p : Program) (r : Renaming) (q : Program) : Decidable (p.Embeds r q) :=
  decidable_of_iff
    (q.classes = p.classes ∧ q.fields = p.fields ∧
      q.methods.map Renaming.identity.declaration = p.methods.map r.declaration ∧
      ∀ m < p.methods.size,
        (∀ numbered ∈ (p.bodyOf m).zipIdx,
          (q.bodyOf m)[r.position m numbered.2]? = some (r.statement numbered.1) ∧
          ∀ site ∈ numbered.1.allocation?, q.typeAt? (r.site site) = p.typeAt? site) ∧
        ∀ v ∈ p.returnsOf m, r.var v ∈ q.returnsOf m) <| by
  constructor
  · rintro ⟨classes, fields, methods, parts⟩
    have inUse {m : MethodId} {i : Nat} {s : Stmt} (here : (p.bodyOf m)[i]? = some s) :
        m < p.methods.size := by
      obtain ⟨method, found, -⟩ := Program.getElem?_of_bodyOf here
      exact (Array.getElem?_eq_some_iff.mp found).1
    refine ⟨classes, fields, methods, fun {m i s} here => ?_, fun {m lhs s} inBody => ?_,
      fun {m v} given => ?_⟩
    · exact ((parts m (inUse here)).1 (s, i) (List.mem_zipIdx_iff_getElem?.mpr here)).1
    · obtain ⟨i, here⟩ := List.mem_iff_getElem?.mp inBody
      exact ((parts m (inUse here)).1 (.new lhs s, i) (List.mem_zipIdx_iff_getElem?.mpr here)).2 s rfl
    · refine (parts m ?_).2 v given
      by_contra unused
      simp [Program.returnsOf, Nat.le_of_not_lt unused] at given
  · intro embeds
    refine ⟨embeds.classes, embeds.fields, embeds.methods, fun m _ => ⟨?_, fun v => embeds.returns⟩⟩
    intro numbered inBody
    refine ⟨embeds.statement (List.mem_zipIdx_iff_getElem?.mp inBody), fun site allocated => ?_⟩
    obtain ⟨lhs, same⟩ := Statement.exists_of_allocation? allocated
    exact embeds.types (same ▸ List.fst_mem_of_mem_zipIdx inBody)

namespace Program

/-! ## Lookup -/

section Lookup

variable {p q : Program} (classes : q.classes = p.classes)
include classes

theorem superOf_congr (c : ClassId) : q.superOf c = p.superOf c := by simp only [superOf, classes]

theorem interfacesOf_congr (c : ClassId) : q.interfacesOf c = p.interfacesOf c := by
  simp only [interfacesOf, classes]

theorem superChain_congr (c : ClassId) : q.superChain c = p.superChain c := by
  have chains : ∀ bound c, q.chainUpTo bound c = p.chainUpTo bound c := by
    intro bound
    induction bound with
    | zero => exact fun c => rfl
    | succ bound ih =>
        intro c
        simp only [chainUpTo, superOf_congr classes, ih]
  simp only [superChain, classes, chains]

theorem isSubclass_congr (sub sup : ClassId) : q.isSubclass sub sup = p.isSubclass sub sup := by
  simp only [isSubclass, supertypes, searchRounds, classIds, supertypesOf, superOf_congr classes,
    interfacesOf_congr classes, classes]

theorem rootClass?_congr : q.rootClass? = p.rootClass? := by
  have named (name : String) : q.classNamed? name = p.classNamed? name := by
    simp only [classNamed?, classes]
  simp only [rootClass?, funext named]

end Lookup

namespace Embeds

variable {p q : Program} {r : Renaming} (embeds : p.Embeds r q)
include embeds

/-- Methods with one number are declared alike. -/
theorem declaration (m : MethodId) :
    q.methods[m]?.map Renaming.identity.declaration = p.methods[m]?.map r.declaration := by
  have same := congrArg (·[m]?) embeds.methods
  simpa only [Array.getElem?_map] using same

theorem subsignature (m : MethodId) :
    q.methods[m]?.map (·.subsignature) = p.methods[m]?.map (·.subsignature) := by
  simpa [Function.comp_def, Renaming.declaration] using
    congrArg (Option.map (·.subsignature)) (embeds.declaration m)

theorem isAbstract (m : MethodId) : q.isAbstract m = p.isAbstract m := by
  have same : q.methods[m]?.map (·.isAbstract) = p.methods[m]?.map (·.isAbstract) := by
    simpa [Function.comp_def, Renaming.declaration] using
      congrArg (Option.map (·.isAbstract)) (embeds.declaration m)
  cases first : q.methods[m]? <;> cases second : p.methods[m]? <;>
    simp_all [Program.isAbstract]

theorem ownerOf (m : MethodId) : q.ownerOf m = p.ownerOf m := by
  have same : q.methods[m]?.map (·.owner) = p.methods[m]?.map (·.owner) := by
    simpa [Function.comp_def, Renaming.declaration] using
      congrArg (Option.map (·.owner)) (embeds.declaration m)
  rw [Program.ownerOf, same, Program.ownerOf]

theorem paramsOf (m : MethodId) : q.paramsOf m = (p.paramsOf m).map r.var := by
  have same := congrArg (Option.map (·.params)) (embeds.declaration m)
  cases first : q.methods[m]? <;> cases second : p.methods[m]? <;>
    simp_all [Program.paramsOf, Renaming.declaration, Renaming.identity]

theorem thisOf (m : MethodId) : q.thisOf m = (p.thisOf m).map r.var := by
  have same := congrArg (Option.map (·.this)) (embeds.declaration m)
  cases first : q.methods[m]? <;> cases second : p.methods[m]? <;>
    simp_all [Program.thisOf, Renaming.declaration, Renaming.identity]

theorem dispatch (c : ClassId) (subsignature : String) :
    q.dispatch c subsignature = p.dispatch c subsignature := by
  simp only [Program.dispatch, implementation?, declaredMethod?, methodsOf,
    superChain_congr embeds.classes, embeds.classes, embeds.subsignature, embeds.isAbstract]

theorem resolveCall (receiver : Option TypeRef) (call : Invocation VarId) :
    q.resolveCall receiver (call.mapVars r.var) = p.resolveCall receiver call := by
  simp only [Program.resolveCall, Invocation.mapVars, dispatchOn, embeds.dispatch,
    isSubclass_congr embeds.classes, rootClass?_congr embeds.classes]

theorem mem_bodyOf {m : MethodId} {s : Stmt} (inBody : s ∈ p.bodyOf m) : r.statement s ∈ q.bodyOf m := by
  obtain ⟨i, there⟩ := List.mem_iff_getElem?.mp inBody
  exact List.mem_of_getElem? (embeds.statement there)

theorem callAt? {site : CallSite} {call : Invocation VarId} (here : p.callAt? site = some call) :
    q.callAt? (r.callSite site) = some (call.mapVars r.var) := by
  have there := embeds.statement (getElem?_of_callAt? here)
  simp only [Program.callAt?, Renaming.callSite, there]
  rfl

end Embeds

end Program

/-! ## Renaming facts -/

section Facts

variable {C O : Type} (r : Renaming)

/-- The pointer with a renamed variable. -/
def PointerOf.rename : PointerOf C O → PointerOf C O
  | .var c v => .var c (r.var v)
  | .static f => .static f
  | .field o f => .field o f
  | .array o => .array o

/-- The fact with renamed variables and call sites; contexts and objects are left alone. -/
def Fact.rename : Fact C O → Fact C O
  | .reach c m => .reach c m
  | .call c site d m => .call c (r.callSite site) d m
  | .flow source target => .flow (source.rename r) (target.rename r)
  | .holds p o => .holds (p.rename r) o

/-- If the fact is that an object is held, the object is a good one. -/
def Fact.Holding (good : O → Prop) : Fact C O → Prop
  | .holds _ o => good o
  | _ => True

end Facts

/-! ## The identity -/

theorem Invocation.mapVars_id {V : Type} (call : Invocation V) : call.mapVars id = call := by
  cases call
  simp [Invocation.mapVars]

theorem Statement.mapVars_id {V A : Type} (s : Statement V A) : s.mapVars id = s := by
  cases s with
  | invoke call => exact congrArg Statement.invoke call.mapVars_id
  | ret value => simp [Statement.mapVars]
  | _ => rfl

namespace Renaming

theorem statement_identity (s : Stmt) : identity.statement s = s := by
  unfold statement
  split
  · rfl
  · exact Statement.mapVars_id _

theorem rename_identity {C O : Type} (fact : Fact C O) : fact.rename identity = fact := by
  have pointers (p : PointerOf C O) : p.rename identity = p := by cases p <;> rfl
  cases fact <;> simp only [Fact.rename, pointers]
  rfl

end Renaming

theorem Program.Embeds.refl (p : Program) : p.Embeds .identity p := by
  refine ⟨rfl, rfl, rfl, fun there => ?_, fun _ => rfl, fun given => given⟩
  rw [Renaming.statement_identity]
  exact there

/-! ## The rules for the one program and for the other -/

/-- Contexts and objects of a reading of the rules stand for those of a reading for another program, where
call sites and allocation sites are renamed.  Good objects, and what the program allocates is good, keep
their type and select the same contexts. -/
structure Domain.Embedding {C O C' O' : Type} (D : Domain C O) (p : Program) (r : Renaming)
    (D' : Domain C' O') (f : C → C') (g : O → O') (good : O → Prop) : Prop where
  initial : f D.initial = D'.initial
  object : ∀ {c site}, p.Allocates site → g (D.object c site) = D'.object (f c) (r.site site)
  made : ∀ {c site}, p.Allocates site → good (D.object c site)
  type : ∀ {o}, good o → D'.type (g o) = D.type o
  callStatic : ∀ c site, f (D.callStatic c site) = D'.callStatic (f c) (r.callSite site)
  callInstance : ∀ {o}, good o → ∀ c site,
    f (D.callInstance c site o) = D'.callInstance (f c) (r.callSite site) (g o)

section Rules

variable {C O C' O' : Type} {p q : Program} {r : Renaming} {D : Domain C O} {D' : Domain C' O'}
  {f : C → C'} {g : O → O'} {good : O → Prop} {entry : MethodId}

/-- Objects come from allocations, or from where they were held before. -/
theorem Follows.holding (embedding : D.Embedding p r D' f g good) {known : Fact C O → Prop}
    (kept : ∀ {p o}, known (.holds p o) → good o) {fact : Fact C O}
    (follows : Follows p D entry known fact) : fact.Holding good := by
  cases follows with
  | entry => trivial
  | ofMethod reached demanded =>
      cases demanded with
      | new statement => exact embedding.made ⟨_, _, statement⟩
      | _ => trivial
  | ofObject reached held demanded =>
      cases demanded with
      | this => exact kept held
      | _ => trivial
  | ofCall called demanded => cases demanded <;> trivial
  | subset edge held => exact kept held

variable (embeds : p.Embeds r q)
include embeds

theorem CallDemands.embed {c : C} {site : CallSite} {d : C} {m : MethodId} {fact : Fact C O}
    (demanded : CallDemands p c site d m fact) :
    CallDemands q (f c) (r.callSite site) (f d) m ((fact.rename r).map f g) := by
  cases demanded with
  | callee => exact .callee
  | argument statement passed =>
      refine .argument (embeds.callAt? statement) ?_
      simp only [Invocation.mapVars, embeds.paramsOf, List.zip_map]
      exact List.mem_map_of_mem passed
  | result statement wanted given =>
      exact .result (embeds.callAt? statement) (congrArg (Option.map r.var) wanted)
        (embeds.returns given)

variable (embedding : D.Embedding p r D' f g good)
include embedding

theorem MethodDemands.embed {c : C} {m : MethodId} {fact : Fact C O}
    (demanded : MethodDemands p D c m fact) :
    MethodDemands q D' (f c) m ((fact.rename r).map f g) := by
  cases demanded with
  | new statement =>
      simp only [Fact.rename, Fact.map, embedding.object ⟨_, _, statement⟩]
      exact .new (embeds.mem_bodyOf statement)
  | copy statement => exact .copy (embeds.mem_bodyOf statement)
  | loadStatic statement => exact .loadStatic (embeds.mem_bodyOf statement)
  | storeStatic statement => exact .storeStatic (embeds.mem_bodyOf statement)
  | call statement static resolved =>
      rw [← embeds.resolveCall] at resolved
      simp only [Fact.rename, Fact.map, embedding.callStatic]
      exact .call (embeds.callAt? statement) (congrArg (Option.map r.var) static) resolved

theorem ObjectDemands.embed {c : C} {m : MethodId} {v : VarId} {o : O} (kept : good o) {fact : Fact C O}
    (demanded : ObjectDemands p D c m v o fact) :
    ObjectDemands q D' (f c) m (r.var v) (g o) ((fact.rename r).map f g) := by
  cases demanded with
  | loadField statement => exact .loadField (embeds.mem_bodyOf statement)
  | storeField statement => exact .storeField (embeds.mem_bodyOf statement)
  | loadArray statement => exact .loadArray (embeds.mem_bodyOf statement)
  | storeArray statement => exact .storeArray (embeds.mem_bodyOf statement)
  | call statement receiver resolved =>
      -- The callee depends on the object through its type only, which a good object keeps.
      rw [← embedding.type kept, ← embeds.resolveCall] at resolved
      simp only [Fact.rename, Fact.map, embedding.callInstance kept]
      exact .call (embeds.callAt? statement) (congrArg (Option.map r.var) receiver) resolved
  | this statement receiver resolved own =>
      rw [← embedding.type kept, ← embeds.resolveCall] at resolved
      simp only [Fact.rename, PointerOf.rename, Fact.map, PointerOf.map, embedding.callInstance kept]
      refine .this (embeds.callAt? statement) (congrArg (Option.map r.var) receiver) resolved ?_
      rw [embeds.thisOf, own]
      rfl

variable {known : Fact C' O' → Prop}

/-- What follows from good facts with known renamings has a renaming that follows from the known facts. -/
theorem Follows.embed {fact : Fact C O} (follows : Follows p D entry
      (fun fact => known ((fact.rename r).map f g) ∧ fact.Holding good) fact) :
    Follows q D' entry known ((fact.rename r).map f g) := by
  cases follows with
  | entry =>
      simp only [Fact.rename, Fact.map, embedding.initial]
      exact .entry
  | ofMethod reached demanded => exact .ofMethod reached.1 (demanded.embed embeds embedding)
  | ofObject reached held demanded =>
      exact .ofObject reached.1 held.1 (demanded.embed embeds embedding held.2)
  | ofCall called demanded => exact .ofCall called.1 (demanded.embed embeds)
  | subset edge held => exact .subset edge.1 held.1

/-- The good facts whose renamings are in a solution are a solution. -/
theorem Solution.comap (solution : Solution q D' entry known) :
    Solution p D entry fun fact => known ((fact.rename r).map f g) ∧ fact.Holding good := by
  intro fact follows
  refine ⟨solution _ (follows.embed embeds embedding), ?_⟩
  exact follows.holding embedding fun held => held.2

end Rules

/-! ## Two analyses -/

namespace State

/-- What is found in a program is found, renamed, in every program that it embeds in. -/
theorem recorded_embedded {small large : Setting} {r : Renaming}
    (embeds : small.program.Embeds r large.program) (entry : large.entry = small.entry)
    (wellFormed : small.program.WellFormed) (wellFormed' : large.program.WellFormed)
    {f : ContextOf Origin → ContextOf Origin} {g : QualifiedOrigin → QualifiedOrigin}
    {good : QualifiedOrigin → Prop}
    (embedding : small.domain.Embedding small.program r large.domain f g good)
    {s : State} (run : Reached small s) {t : State} (run' : Reached large t)
    (finished : step large t = none) {fact : Fact (ContextOf Origin) QualifiedOrigin}
    (recorded : Recorded small s fact) : Recorded large t ((fact.rename r).map f g) := by
  have solution := run'.solution_recorded wellFormed' finished
  rw [entry] at solution
  exact (run.known_of_recorded wellFormed (solution.comap embeds embedding) recorded).1

end State

end PointsTo
