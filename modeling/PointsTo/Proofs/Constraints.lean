/- # Constraints -- the rules that a points-to analysis solves

A points-to analysis looks for facts: which methods are reachable in which contexts, what calls run, along
what objects flow and what holds which object.  `Follows` lists the rules by which a fact follows from others:
what a reachable method demands, what an object in one of its variables demands, what a call demands, and
that objects flow along edges.  Nothing in it speaks of work that is pending or of the order in which facts
are found.  A set of facts is a `Solution` when it is closed under the rules.

The rules are written over a type of contexts and a type of objects, of which a `Domain` says what the rules
need to know: how contexts are extended, what an allocation makes and what type an object has.  The solver
instantiates it with the numbers of a state, its specification with contexts spelled out. -/
import PointsTo.Flow.Graph
import PointsTo.Hierarchy.Targets

set_option autoImplicit false

namespace PointsTo

/-- What the rules need to know about contexts `C` and objects `O`. -/
structure Domain (C O : Type) where
  /-- The empty context. -/
  initial : C
  /-- The object that a site allocates when its method runs in a context. -/
  object : C → SiteId → O
  /-- The type of an object. -/
  type : O → TypeRef
  /-- The context of a method called without a receiver. -/
  callStatic : C → CallSite → C
  /-- The context of a method called on an object. -/
  callInstance : C → CallSite → O → C

/-- What an analysis can find out. -/
inductive Fact (C O : Type)
  /-- A method is reachable in a context. -/
  | reach (c : C) (m : MethodId)
  /-- A call site in a context runs a method in a context. -/
  | call (c : C) (site : CallSite) (d : C) (m : MethodId)
  /-- All objects of one pointer flow to another. -/
  | flow (source target : PointerOf C O)
  /-- A pointer holds an object. -/
  | holds (p : PointerOf C O) (o : O)

section Rules

variable {C O : Type} (p : Program) (D : Domain C O)

/-- What a method that is reachable in a context demands, whatever its variables hold. -/
inductive MethodDemands (c : C) (m : MethodId) : Fact C O → Prop
  | new {lhs : VarId} {site : SiteId} (statement : .new lhs site ∈ p.bodyOf m) :
      MethodDemands c m (.holds (.var c lhs) (D.object c site))
  | copy {lhs rhs : VarId} (statement : .copy lhs rhs ∈ p.bodyOf m) :
      MethodDemands c m (.flow (.var c rhs) (.var c lhs))
  | loadStatic {lhs : VarId} {f : FieldId} (statement : .loadStatic lhs f ∈ p.bodyOf m) :
      MethodDemands c m (.flow (.static f) (.var c lhs))
  | storeStatic {f : FieldId} {rhs : VarId} (statement : .storeStatic f rhs ∈ p.bodyOf m) :
      MethodDemands c m (.flow (.var c rhs) (.static f))
  | call {index : Nat} {call : Invocation VarId} {callee : MethodId}
      (statement : p.callAt? ⟨m, index⟩ = some call) (static : call.receiver = none)
      (resolved : (p.resolveCall none call).target? = some callee) :
      MethodDemands c m (.call c ⟨m, index⟩ (D.callStatic c ⟨m, index⟩) callee)

/-- What an object in a variable of a reachable method demands. -/
inductive ObjectDemands (c : C) (m : MethodId) (v : VarId) (o : O) : Fact C O → Prop
  | loadField {lhs : VarId} {f : FieldId} (statement : .loadField lhs v f ∈ p.bodyOf m) :
      ObjectDemands c m v o (.flow (.field o f) (.var c lhs))
  | storeField {f : FieldId} {rhs : VarId} (statement : .storeField v f rhs ∈ p.bodyOf m) :
      ObjectDemands c m v o (.flow (.var c rhs) (.field o f))
  | loadArray {lhs : VarId} (statement : .loadArray lhs v ∈ p.bodyOf m) :
      ObjectDemands c m v o (.flow (.array o) (.var c lhs))
  | storeArray {rhs : VarId} (statement : .storeArray v rhs ∈ p.bodyOf m) :
      ObjectDemands c m v o (.flow (.var c rhs) (.array o))
  | call {index : Nat} {call : Invocation VarId} {callee : MethodId}
      (statement : p.callAt? ⟨m, index⟩ = some call) (receiver : call.receiver = some v)
      (resolved : (p.resolveCall (some (D.type o)) call).target? = some callee) :
      ObjectDemands c m v o (.call c ⟨m, index⟩ (D.callInstance c ⟨m, index⟩ o) callee)
  | this {index : Nat} {call : Invocation VarId} {callee : MethodId} {this : VarId}
      (statement : p.callAt? ⟨m, index⟩ = some call) (receiver : call.receiver = some v)
      (resolved : (p.resolveCall (some (D.type o)) call).target? = some callee)
      (own : p.thisOf callee = some this) :
      ObjectDemands c m v o (.holds (.var (D.callInstance c ⟨m, index⟩ o) this) o)

/-- What a call that runs a method demands. -/
inductive CallDemands (c : C) (site : CallSite) (d : C) (m : MethodId) : Fact C O → Prop
  | callee : CallDemands c site d m (.reach d m)
  | argument {call : Invocation VarId} {argument parameter : VarId}
      (statement : p.callAt? site = some call)
      (passed : (argument, parameter) ∈ call.args.zip (p.paramsOf m)) :
      CallDemands c site d m (.flow (.var c argument) (.var d parameter))
  | result {call : Invocation VarId} {result returned : VarId}
      (statement : p.callAt? site = some call) (wanted : call.result = some result)
      (given : returned ∈ p.returnsOf m) :
      CallDemands c site d m (.flow (.var d returned) (.var c result))

variable (entry : MethodId) (known : Fact C O → Prop)

/-- What follows from known facts by one rule. -/
inductive Follows : Fact C O → Prop
  | entry : Follows (.reach D.initial entry)
  | ofMethod {c : C} {m : MethodId} {fact : Fact C O} (reached : known (.reach c m))
      (demanded : MethodDemands p D c m fact) : Follows fact
  | ofObject {c : C} {m : MethodId} {v : VarId} {o : O} {fact : Fact C O}
      (reached : known (.reach c m)) (held : known (.holds (.var c v) o))
      (demanded : ObjectDemands p D c m v o fact) : Follows fact
  | ofCall {c : C} {site : CallSite} {d : C} {m : MethodId} {fact : Fact C O}
      (called : known (.call c site d m)) (demanded : CallDemands p c site d m fact) : Follows fact
  | subset {source target : PointerOf C O} {o : O} (edge : known (.flow source target))
      (held : known (.holds source o)) : Follows (.holds target o)

/-- Whether facts are closed under the rules. -/
def Solution : Prop := ∀ fact, Follows p D entry known fact → known fact

end Rules

/-- More facts, more consequences. -/
theorem Follows.mono {C O : Type} {p : Program} {D : Domain C O} {entry : MethodId}
    {known more : Fact C O → Prop} (wider : ∀ fact, known fact → more fact) {fact : Fact C O}
    (follows : Follows p D entry known fact) : Follows p D entry more fact := by
  cases follows with
  | entry => exact .entry
  | ofMethod reached demanded => exact .ofMethod (wider _ reached) demanded
  | ofObject reached held demanded => exact .ofObject (wider _ reached) (wider _ held) demanded
  | ofCall called demanded => exact .ofCall (wider _ called) demanded
  | subset edge held => exact .subset (wider _ edge) (wider _ held)

/-! ## Renaming contexts and objects -/

section Renaming

variable {C O C' O' : Type} (f : C → C') (g : O → O')

/-- The pointer with renamed contexts and objects. -/
def PointerOf.map : PointerOf C O → PointerOf C' O'
  | .var c v => .var (f c) v
  | .static name => .static name
  | .field o name => .field (g o) name
  | .array o => .array (g o)

/-- The fact with renamed contexts and objects. -/
def Fact.map : Fact C O → Fact C' O'
  | .reach c m => .reach (f c) m
  | .call c site d m => .call (f c) site (f d) m
  | .flow source target => .flow (source.map f g) (target.map f g)
  | .holds p o => .holds (p.map f g) (g o)

variable {f g}

/-- What a call demands does not depend on what contexts and objects are. -/
theorem CallDemands.map {p : Program} {c : C} {site : CallSite} {d : C} {m : MethodId} {fact : Fact C O}
    (demanded : CallDemands p c site d m fact) :
    CallDemands p (f c) site (f d) m (fact.map f g) := by
  cases demanded with
  | callee => exact .callee
  | argument statement passed => exact .argument statement passed
  | result statement wanted given => exact .result statement wanted given

end Renaming

end PointsTo
