/- # Statement -- the statements of a method body

Only what moves references is distinguished.  A statement is written over a type of variables and a type
that says what an allocation records, so the same statement can name its variables or number them. -/
set_option autoImplicit false

namespace PointsTo

/-! ## Numbers of program parts -/

/-- The number of a class or interface. -/
abbrev ClassId := Nat

/-- The number of a declared field. -/
abbrev FieldId := Nat

/-- The number of a declared method. -/
abbrev MethodId := Nat

/-- The number of a local variable; variables of different methods have different numbers. -/
abbrev VarId := Nat

/-- The number of an allocation statement. -/
abbrev SiteId := Nat

/-! ## Calls -/

/-- How the target of a call is found. -/
inductive CallKind
  /-- A static method, looked up from the named class. -/
  | static
  /-- A constructor, private or superclass call, looked up from the named class. -/
  | special
  /-- Looked up from the class of the receiver object. -/
  | virtual
  /-- Through an interface, looked up from the class of the receiver object. -/
  | interface
  deriving DecidableEq, Repr

namespace CallKind

/-- All kinds, in the order in which reports list them. -/
def all : List CallKind := [.static, .special, .virtual, .interface]

/-- The name of a kind in programs and results. -/
def name : CallKind → String
  | .static => "static"
  | .special => "special"
  | .virtual => "virtual"
  | .interface => "interface"

/-- The name of a kind at the beginning of a line and in labels. -/
def title : CallKind → String
  | .static => "Static"
  | .special => "Special"
  | .virtual => "Virtual"
  | .interface => "Interface"

/-- The kind of a name. -/
def ofName? (name : String) : Option CallKind := all.find? fun kind => kind.name = name

/-- Whether the target depends on the class of the receiver object. -/
def isDynamic : CallKind → Bool
  | .virtual | .interface => true
  | _ => false

end CallKind

/-- A method named at a call: the class to look it up from, and its subsignature. -/
structure MethodRef where
  owner : ClassId
  subsignature : String
  deriving DecidableEq, Repr

/-- A call. -/
structure Invocation (V : Type) where
  kind : CallKind
  target : MethodRef
  receiver : Option V
  args : List V
  result : Option V
  deriving DecidableEq, Repr

/-! ## Statements -/

/-- A statement over variables `V`, whose allocations record an `A`. -/
inductive Statement (V A : Type)
  /-- `lhs = new T` -/
  | new (lhs : V) (allocation : A)
  /-- `lhs = rhs` -/
  | copy (lhs rhs : V)
  /-- `lhs = C.f` -/
  | loadStatic (lhs : V) (field : FieldId)
  /-- `C.f = rhs` -/
  | storeStatic (field : FieldId) (rhs : V)
  /-- `lhs = base.f` -/
  | loadField (lhs base : V) (field : FieldId)
  /-- `base.f = rhs` -/
  | storeField (base : V) (field : FieldId) (rhs : V)
  /-- `lhs = base[*]` -/
  | loadArray (lhs base : V)
  /-- `base[*] = rhs` -/
  | storeArray (base rhs : V)
  | invoke (call : Invocation V)
  | ret (value : Option V)
  | nop
  deriving DecidableEq, Repr

namespace Invocation

variable {V W : Type}

/-- The variables of a call in the order in which they are met. -/
def mentions (call : Invocation V) : List V :=
  call.receiver.toList ++ call.args ++ call.result.toList

/-- The same call over other variables. -/
def mapVars (f : V → W) (call : Invocation V) : Invocation W :=
  ⟨call.kind, call.target, call.receiver.map f, call.args.map f, call.result.map f⟩

end Invocation

namespace Statement

variable {V W A B : Type}

/-- The variables of a statement in the order in which they are met. -/
def mentions : Statement V A → List V
  | .new lhs _ => [lhs]
  | .copy lhs rhs => [lhs, rhs]
  | .loadStatic lhs _ => [lhs]
  | .storeStatic _ rhs => [rhs]
  | .loadField lhs base _ => [lhs, base]
  | .storeField base _ rhs => [rhs, base]
  | .loadArray lhs base => [lhs, base]
  | .storeArray base rhs => [base, rhs]
  | .invoke call => call.mentions
  | .ret value => value.toList
  | .nop => []

/-- The same statement over other variables. -/
def mapVars (f : V → W) : Statement V A → Statement W A
  | .new lhs allocation => .new (f lhs) allocation
  | .copy lhs rhs => .copy (f lhs) (f rhs)
  | .loadStatic lhs field => .loadStatic (f lhs) field
  | .storeStatic field rhs => .storeStatic field (f rhs)
  | .loadField lhs base field => .loadField (f lhs) (f base) field
  | .storeField base field rhs => .storeField (f base) field (f rhs)
  | .loadArray lhs base => .loadArray (f lhs) (f base)
  | .storeArray base rhs => .storeArray (f base) (f rhs)
  | .invoke call => .invoke (call.mapVars f)
  | .ret value => .ret (value.map f)
  | .nop => .nop

/-- What the statement allocates. -/
def allocation? : Statement V A → Option A
  | .new _ allocation => some allocation
  | _ => none

/-- The same statement with another record of its allocation. -/
def withAllocation (b : B) : Statement V A → Statement V B
  | .new lhs _ => .new lhs b
  | .copy lhs rhs => .copy lhs rhs
  | .loadStatic lhs field => .loadStatic lhs field
  | .storeStatic field rhs => .storeStatic field rhs
  | .loadField lhs base field => .loadField lhs base field
  | .storeField base field rhs => .storeField base field rhs
  | .loadArray lhs base => .loadArray lhs base
  | .storeArray base rhs => .storeArray base rhs
  | .invoke call => .invoke call
  | .ret value => .ret value
  | .nop => .nop

/-- The call of a call statement. -/
def call? : Statement V A → Option (Invocation V)
  | .invoke call => some call
  | _ => none

/-- The variable that the statement gives back to the caller. -/
def returned? : Statement V A → Option V
  | .ret value => value
  | _ => none

end Statement

end PointsTo
