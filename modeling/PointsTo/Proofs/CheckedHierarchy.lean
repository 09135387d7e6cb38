/- # CheckedHierarchy -- preparing an analysis, and the call graph from declared types, with all lookups

Preparing an analysis finds the entry by its name and goes once through the methods of all classes; the
analysis by declared types reads every method that it visits and the classes that its calls walk through.
Here both read by lookups that can fail (`Checked`).

Main statements: `make_eq_ok` and `Hierarchy.run_eq_ok`.  On a program that uses every number it mentions no
lookup fails, since only declared methods become pending (`HierarchyAnalysis.Within`). -/
import PointsTo.Proofs.Lookups

set_option autoImplicit false

namespace PointsTo

namespace Checked

/-! ## Preparation -/

section Preparation

variable (p : Program)

/-- The class is read for its methods, and these for their subsignatures. -/
def findMethod? (name subsignature : String) : Lookup (Option MethodId) := do
  match p.classNamed? name with
  | none => return none
  | some c =>
    let owner ← readClass p c
    owner.methods.findSomeM? fun m => do
      return if (← readMethod p m).subsignature = subsignature then some m else none

/-- The method that is meant by an entry text; a refusal names it. -/
def entryMethod (text : Option String) : Lookup (Except EntryFault MethodId) := do
  match text with
  | none => accept p.entry
  | some text =>
    match splitEntry text with
    | .error fault => return .error fault
    | .ok (owner, subsignature) =>
      match ← findMethod? p owner subsignature with
      | some m => accept m
      | none => return .error (.undeclared owner subsignature)
where
  accept (m : MethodId) : Lookup (Except EntryFault MethodId) := do
    if (← readMethod p m).isAbstract then return .error (.withoutBody (← methodName p m)) else return .ok m

/-- The methods of all classes are read for the table of declared methods, and the entry is named. -/
def make (text : Option String) (policy : Policy) (model : HeapModel) :
    Lookup (Except EntryFault Setting) := do
  match ← entryMethod p text with
  | .error fault => return .error fault
  | .ok entry =>
    let _ ← p.classes.toList.mapM fun c => c.methods.mapM (readMethod p)
    let _ ← methodName p entry
    return .ok ⟨p, entry, policy, model⟩

end Preparation

section Entry

variable {p : Program} (inRange : p.InRange)
include inRange

theorem methodsOf_lt {c : Class} (listed : c ∈ p.classes.toList) {m : MethodId} (member : m ∈ c.methods) :
    m < p.methods.size := by
  refine inRange.methods m ?_
  simp only [Program.mentionedMethods, List.mem_cons, List.mem_append, List.mem_flatMap]
  exact .inr (.inl (.inl ⟨c, listed, member⟩))

theorem findMethod?_eq_ok (name subsignature : String) :
    findMethod? p name subsignature = .ok (p.findMethod? name subsignature) := by
  unfold findMethod? Program.findMethod?
  cases named : p.classNamed? name with
  | none => rfl
  | some c =>
      obtain ⟨owner, read, found⟩ := exists_readClass (lt_of_classNamed? named)
      have listed : owner ∈ p.classes.toList := Array.mem_toList_iff.mpr (Array.mem_of_getElem? read)
      have methods : p.methodsOf c = owner.methods := by simp [Program.methodsOf, read]
      simp only [found, Lookup.ok_bind]
      show _ = Except.ok (p.declaredMethod? c subsignature)
      rw [Program.declaredMethod?, methods, List.find?_eq_findSome?_guard]
      refine findSomeM?_eq_ok fun m member => ?_
      obtain ⟨method, there, read⟩ := exists_readMethod (methodsOf_lt inRange listed member)
      simp [read, Option.guard, there]

/-- The entry is declared and has a body. -/
theorem runnable_of_entryMethod {text : Option String} {entry : MethodId}
    (chosen : p.entryMethod text = .ok entry) :
    entry < p.methods.size ∧ p.isAbstract entry = false := by
  have accepted {m : MethodId} (inUse : m < p.methods.size)
      (kept : (if p.isAbstract m then throw (.withoutBody (p.methodName m)) else return m :
        Except EntryFault MethodId) = .ok entry) : entry < p.methods.size ∧ p.isAbstract entry = false := by
    split at kept
    · cases kept
    · rename_i body
      cases kept
      exact ⟨inUse, by simpa using body⟩
  unfold Program.entryMethod at chosen
  cases text with
  | none => exact accepted (inRange.methods _ List.mem_cons_self) chosen
  | some text =>
      obtain ⟨⟨owner, subsignature⟩, -, rest⟩ := bind_eq_ok_iff.mp chosen
      cases known : p.findMethod? owner subsignature with
      | none => simp [known, throw, throwThe, MonadExceptOf.throw, bind, Except.bind] at rest
      | some m =>
          obtain ⟨c, -, declared⟩ := Option.bind_eq_some_iff.mp known
          simp only [known] at rest
          exact accepted (Program.lt_of_declaredMethod? declared) rest

theorem entryMethod_eq_ok (text : Option String) : entryMethod p text = .ok (p.entryMethod text) := by
  have accepts {m : MethodId} (inUse : m < p.methods.size) : entryMethod.accept p m =
      .ok (if p.isAbstract m then throw (.withoutBody (p.methodName m)) else return m) := by
    obtain ⟨method, read, found⟩ := exists_readMethod inUse
    have kind : p.isAbstract m = method.isAbstract := by simp [Program.isAbstract, read]
    rw [entryMethod.accept, found, Lookup.ok_bind, kind, methodName_eq_ok inRange inUse]
    split <;> rfl
  unfold entryMethod Program.entryMethod
  cases text with
  | none => exact accepts (inRange.methods _ List.mem_cons_self)
  | some text =>
      cases split : splitEntry text with
      | error fault => simp only [split]; rfl
      | ok parts =>
          obtain ⟨owner, subsignature⟩ := parts
          simp only [split, findMethod?_eq_ok inRange, Lookup.ok_bind]
          cases known : p.findMethod? owner subsignature with
          | none => simp [known, throw, throwThe, MonadExceptOf.throw, bind, Except.bind]
          | some m =>
              obtain ⟨c, -, declared⟩ := Option.bind_eq_some_iff.mp known
              simp [accepts (Program.lt_of_declaredMethod? declared), known, bind, Except.bind, pure,
                Except.pure]

/-- Preparing an analysis looks up only what is there. -/
theorem make_eq_ok (text : Option String) (policy : Policy) (model : HeapModel) :
    make p text policy model = .ok (Setting.make p text policy model) := by
  rw [make, entryMethod_eq_ok inRange, Lookup.ok_bind, Setting.make]
  cases chosen : p.entryMethod text with
  | error fault => rfl
  | ok entry =>
      have inUse := (runnable_of_entryMethod inRange chosen).1
      obtain ⟨table, made⟩ := exists_mapM_iff.mpr fun c (listed : c ∈ p.classes.toList) =>
        exists_mapM_iff.mpr fun m member =>
          (exists_readMethod (methodsOf_lt inRange listed member)).imp fun _ => And.right
      simp only [made, methodName_eq_ok inRange inUse, Lookup.ok_bind]
      rfl

end Entry

end Checked

/-! ## The analysis by declared types -/

namespace HierarchyAnalysis

/-- Only declared methods are pending. -/
def Within (p : Program) (a : HierarchyAnalysis) : Prop := ∀ m ∈ a.pending.toList, m < p.methods.size

variable {p : Program} {a : HierarchyAnalysis}

theorem Within.addTarget (within : a.Within p) (site : CallSite) (kind : CallKind) {m : MethodId}
    (declared : m < p.methods.size) : (a.addTarget site kind m).Within p := by
  unfold HierarchyAnalysis.addTarget
  simp only
  split
  · intro other waits
    rw [Worklist.toList_push] at waits
    rcases List.mem_append.mp waits with old | new
    · exact within other old
    · rw [List.mem_singleton.mp new]
      exact declared
  · exact within

theorem Within.addCall (within : a.Within p) (site : CallSite) (call : Invocation VarId) :
    (addCall p a site call).Within p := by
  have reported : (if (p.possibleTargets? call).isNone then a.report (.undeclared call.target) else a).Within
      p := by
    split <;> exact within
  unfold HierarchyAnalysis.addCall
  simp only
  split
  · exact reported
  · exact List.foldlRecOn _ _ reported fun b kept m possible =>
      kept.addTarget site call.kind (Program.lt_of_mem_possibleTargets possible)

theorem Within.visit (within : a.Within p) (m : MethodId) : (visit p a m).Within p := by
  unfold HierarchyAnalysis.visit
  simp only
  split
  · exact within
  · exact List.foldlRecOn _ _ within fun b kept pair _ => kept.addCall pair.1 pair.2

end HierarchyAnalysis

namespace Checked.Hierarchy

open HierarchyAnalysis (callsOf)

section Analysis

variable (p : Program)

/-- Words an event before it is noted; there are no objects to name. -/
def report (a : HierarchyAnalysis) (event : Event) : Lookup HierarchyAnalysis := do
  names p {} .site event
  return a.report event

def addCall (a : HierarchyAnalysis) (site : CallSite) (call : Invocation VarId) :
    Lookup HierarchyAnalysis := do
  let targets ← possibleTargets? p call
  let a ← if targets.isNone then report p a (.undeclared call.target) else pure a
  match targets.getD [] with
  | [] => report p a (.untargeted call.kind call.target site.method)
  | targets => return targets.foldl (fun a target => a.addTarget site call.kind target) a

def visit (a : HierarchyAnalysis) (m : MethodId) : Lookup HierarchyAnalysis := do
  let (calls, isNew) := a.calls.reach m
  if !isNew then return a
  else
    let method ← readMethod p m
    let a ← report p { a with calls, statements := a.statements + method.body.length } (.visiting m)
    (callsOf p m).foldlM (fun a (site, call) => addCall p a site call) a

def step (a : HierarchyAnalysis) : Lookup (Option HierarchyAnalysis) :=
  match a.pending.pop? with
  | none => return none
  | some (m, pending) => do return some (← visit p { a with pending } m)

def steps : Nat → HierarchyAnalysis → Lookup HierarchyAnalysis
  | 0, a => return a
  | count + 1, a => do
    match ← step p a with
    | none => return a
    | some next => steps count next

/-- The analysis from an entry method to its end. -/
def run (entry : MethodId) : Lookup HierarchyAnalysis :=
  steps p (HierarchyAnalysis.bound p) (HierarchyAnalysis.start entry)

end Analysis

section Found

variable {p : Program} (inRange : p.InRange)
include inRange

theorem report_eq_ok (a : HierarchyAnalysis) (event : Event)
    (methods : ∀ m ∈ event.methods, m < p.methods.size)
    (classes : ∀ c ∈ event.classes, c < p.classes.size) (objects : event.objects = []) :
    report p a event = .ok (a.report event) := by
  rw [report, names_eq_ok inRange methods classes (by simp [objects])]
  rfl

theorem addCall_eq_ok (a : HierarchyAnalysis) {site : CallSite} {call : Invocation VarId}
    (statement : p.callAt? site = some call) :
    addCall p a site call = .ok (HierarchyAnalysis.addCall p a site call) := by
  have owner := inRange.target_lt statement
  have caller := Program.lt_of_mem_bodyOf (Program.mem_bodyOf_of_callAt? statement)
  have undeclared := report_eq_ok inRange a (.undeclared call.target) (by simp [Event.methods])
    (by simp [Event.classes, owner]) rfl
  have untargeted (b : HierarchyAnalysis) := report_eq_ok inRange b
    (.untargeted call.kind call.target site.method) (by simp [Event.methods, caller])
    (by simp [Event.classes, owner]) rfl
  simp only [addCall, possibleTargets?_eq_ok inRange owner, Lookup.ok_bind, undeclared, Lookup.pure_eq_ok,
    HierarchyAnalysis.addCall, Program.possibleTargets]
  cases p.possibleTargets? call with
  | none => exact untargeted _
  | some targets =>
      cases targets with
      | nil => exact untargeted _
      | cons first rest => rfl

theorem visit_eq_ok (a : HierarchyAnalysis) {m : MethodId} (declared : m < p.methods.size) :
    visit p a m = .ok (HierarchyAnalysis.visit p a m) := by
  obtain ⟨method, read, found⟩ := exists_readMethod declared
  have body : p.bodyOf m = method.body := by simp [Program.bodyOf, read]
  have visiting (b : HierarchyAnalysis) := report_eq_ok inRange b (.visiting m)
    (by simp [Event.methods, declared]) (by simp [Event.classes]) rfl
  simp only [visit, HierarchyAnalysis.visit, found, Lookup.ok_bind, visiting, body]
  split
  · rfl
  · refine foldlM_eq_ok (fun _ => True) (fun call member a _ => ⟨?_, trivial⟩) trivial
    exact addCall_eq_ok inRange a (HierarchyAnalysis.mem_callsOf.mp member).2

/-- In the states of a run the lookups of a step succeed. -/
theorem steps_eq_ok (count : Nat) {a : HierarchyAnalysis} (within : a.Within p) :
    steps p count a = .ok (HierarchyAnalysis.steps p count a) := by
  induction count generalizing a with
  | zero => rfl
  | succ count ih =>
      unfold steps HierarchyAnalysis.steps step HierarchyAnalysis.step
      cases popped : a.pending.pop? with
      | none => rfl
      | some work =>
          obtain ⟨m, rest⟩ := work
          have whole := Worklist.toList_of_pop? popped
          have declared := within m (by simp [whole])
          have kept : ({ a with pending := rest } : HierarchyAnalysis).Within p :=
            fun other waits => within other (by simp [whole, waits])
          simp only [visit_eq_ok inRange _ declared, Lookup.ok_bind, Lookup.pure_eq_ok, Option.map_some]
          exact ih (kept.visit m)

theorem run_eq_ok {entry : MethodId} (declared : entry < p.methods.size) :
    run p entry = .ok (HierarchyAnalysis.run p entry) := by
  refine steps_eq_ok inRange _ fun m waits => ?_
  have here : m = entry := by
    simpa [HierarchyAnalysis.start, Worklist.empty, Worklist.toList, Worklist.push] using waits
  exact here ▸ declared

end Found

end Checked.Hierarchy

end PointsTo
