/- # WellFormed -- what the analyses rely on in a program

A loaded program keeps its parts together: the variables of a method belong to that method, and what is
abstract has no body. -/
import PointsTo.Heap

set_option autoImplicit false

namespace PointsTo

/-- The fields that a statement names. -/
def Statement.fields {V A : Type} : Statement V A → List FieldId
  | .loadStatic _ f | .storeStatic f _ | .loadField _ _ f | .storeField _ f _ => [f]
  | _ => []

namespace Program

/-- A statement of the program names a field. -/
def Names (p : Program) (f : FieldId) : Prop := ∃ m, ∃ s ∈ p.bodyOf m, f ∈ s.fields

/-- A statement of the program allocates at a site. -/
def Allocates (p : Program) (site : SiteId) : Prop := ∃ m lhs, .new lhs site ∈ p.bodyOf m

/-- A variable is in use and belongs to a method. -/
def Owns (p : Program) (m : MethodId) (v : VarId) : Prop := p.vars[v]?.map (·.method) = some m

theorem Owns.methodOfVar {p : Program} {m : MethodId} {v : VarId} (owned : p.Owns m v) :
    p.methodOfVar v = m := by
  simp only [Owns] at owned
  simp [Program.methodOfVar, owned]

theorem Owns.lt {p : Program} {m : MethodId} {v : VarId} (owned : p.Owns m v) : v < p.vars.size := by
  obtain ⟨var, read, -⟩ := Option.map_eq_some_iff.mp owned
  exact (Array.getElem?_eq_some_iff.mp read).1

/-- What the analyses rely on. -/
structure WellFormed (p : Program) : Prop where
  body : ∀ {m s v}, s ∈ p.bodyOf m → v ∈ s.mentions → p.Owns m v
  params : ∀ {m v}, v ∈ p.paramsOf m → p.Owns m v
  this : ∀ {m v}, p.thisOf m = some v → p.Owns m v
  returns : ∀ {m v}, v ∈ p.returnsOf m → p.Owns m v
  abstract : ∀ {m}, p.isAbstract m = true → p.bodyOf m = []

theorem getElem?_of_callAt? {p : Program} {site : CallSite} {call : Invocation VarId}
    (here : p.callAt? site = some call) :
    (p.bodyOf site.method)[site.index]? = some (.invoke call) := by
  obtain ⟨s, read, called⟩ := Option.bind_eq_some_iff.mp here
  rw [read]
  cases s with
  | invoke other => rw [Option.some.inj called]
  | _ => cases called

theorem mem_bodyOf_of_callAt? {p : Program} {site : CallSite} {call : Invocation VarId}
    (here : p.callAt? site = some call) : .invoke call ∈ p.bodyOf site.method :=
  List.mem_of_getElem? (getElem?_of_callAt? here)

/-- The variables of a call belong to the method that calls. -/
theorem WellFormed.owns_of_callAt? {p : Program} (wellFormed : p.WellFormed) {site : CallSite}
    {call : Invocation VarId} (here : p.callAt? site = some call) {v : VarId}
    (mentioned : v ∈ call.mentions) : p.Owns site.method v :=
  wellFormed.body (mem_bodyOf_of_callAt? here) mentioned

end Program

end PointsTo
