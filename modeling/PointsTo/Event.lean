/- # Event -- what the analyses report while they work

Events are values; their wording is `Event.text`.  An event refers to parts of the program and to objects
by number, so the program and the heap are needed to word it. -/
import PointsTo.Hierarchy.Targets
import PointsTo.Setting

set_option autoImplicit false

namespace PointsTo

/-- How much an event matters. -/
inductive Level
  | debug
  | info
  | warn
  deriving DecidableEq, Repr

/-- The name of a level. -/
def Level.name : Level → String
  | .debug => "DEBUG"
  | .info => "INFO"
  | .warn => "WARN"

/-- What an analysis reports. -/
inductive Event
  | loaded (classes methods vars sites : Nat)
  | preparing
  | entryChosen (m : MethodId)
  /-- The receiver class of a call is no subtype of the named class. -/
  | notSubtype (receiver named : ClassId)
  /-- A dynamic call was resolved without a receiver. -/
  | noReceiver (ref : MethodRef)
  /-- A method reference means no declaration. -/
  | undeclared (ref : MethodRef)
  | running (policy : Policy) (model : HeapModel)
  | processing (m : MethodId) (context : Context)
  | summarised (m : MethodId)
  /-- A method without a body was reached. -/
  | bodiless (m : MethodId)
  | called (caller callee : MethodId)
  /-- A call has no target, for a receiver object if it has one. -/
  | unresolved (kind : CallKind) (ref : MethodRef) (receiver : Option ObjectId) (caller : MethodId)
  /-- A call passes more or fewer arguments than the callee has parameters. -/
  | arityMismatch (callee : MethodId) (arguments parameters : Nat)
  | completed
  | totals (methods edges pointers contexts : Nat)
  | reportingStatistics
  | visiting (m : MethodId)
  /-- No subtype of the named class has a target for a call. -/
  | untargeted (kind : CallKind) (ref : MethodRef) (caller : MethodId)
  | hierarchyCompleted
  | hierarchyTotals (methods edges : Nat)
  deriving DecidableEq, Repr

namespace Event

/-- How much an event matters. -/
def level : Event → Level
  | .preparing | .running .. | .completed | .totals .. | .reportingStatistics
  | .hierarchyCompleted | .hierarchyTotals .. => .info
  | .bodiless .. | .unresolved .. | .arityMismatch .. | .untargeted .. => .warn
  | _ => .debug

/-- The wording of an event. -/
def text (p : Program) (h : Heap) (model : HeapModel) : Event → String
  | .loaded classes methods vars sites =>
    "Loaded " ++ toString classes ++ " classes, " ++ toString methods ++ " methods, " ++
      toString vars ++ " variables, " ++ toString sites ++ " allocation sites"
  | .preparing => "Initializing AnalysisContext"
  | .entryChosen m => "Entry method: " ++ p.methodName m
  | .notSubtype receiver named =>
    "Receiver of type " ++ p.className receiver ++ " is not a subtype of " ++ p.className named
  | .noReceiver ref =>
    "Dynamic call MethodRef \x7b class: " ++ numbered "ClassId" ref.owner ++ ", subsignature: " ++
      quoted ref.subsignature ++ " \x7d resolved without a receiver type"
  | .undeclared ref => "Method reference " ++ p.methodRefName ref ++ " is not declared"
  | .running policy model =>
    "Running " ++ policy.sensitivity.name ++ " pointer analysis (context depth " ++
      toString policy.depth ++ ", heap context depth " ++ toString policy.heapDepth ++
      ", heap model " ++ model.name ++ ")"
  | .processing m context =>
    "Processing method " ++ p.methodName m ++ ", context: " ++ context.numbers
  | .summarised m =>
    "Building MethodPAG for " ++ numbered "MethodId" m ++ ": " ++ p.methodName m
  | .bodiless m => "Abstract method " ++ p.methodName m ++ " has no body"
  | .called caller callee =>
    "New call edge " ++ p.methodName caller ++ " -> " ++ p.methodName callee
  | .unresolved kind ref receiver caller =>
    "Unable to resolve " ++ kind.title ++ " call to " ++ p.methodRefName ref ++
      (match receiver with
      | some o => " on " ++ h.name model p o
      | none => "") ++ " in " ++ p.methodName caller
  | .arityMismatch callee arguments parameters =>
    "Call to " ++ p.methodName callee ++ " passes " ++ toString arguments ++ " arguments to " ++
      toString parameters ++ " parameters"
  | .completed => "Pointer analysis completed."
  | .totals methods edges pointers contexts =>
    "Reachable methods: " ++ toString methods ++ ", call edges: " ++ toString edges ++
      ", pointers: " ++ toString pointers ++ ", contexts: " ++ toString contexts
  | .reportingStatistics => "Dumping pta statistics..."
  | .visiting m => "Visiting method " ++ p.methodName m
  | .untargeted kind ref caller =>
    "No target found for " ++ kind.title ++ " call to " ++ p.methodRefName ref ++ " in " ++
      p.methodName caller
  | .hierarchyCompleted => "Class hierarchy analysis completed."
  | .hierarchyTotals methods edges =>
    "Reachable methods: " ++ toString methods ++ ", call edges: " ++ toString edges

end Event

/-- What resolving a call reports. -/
def Resolution.events : Resolution → List Event
  | .notSubtype receiver named => [.notSubtype receiver named]
  | .noReceiver ref => [.noReceiver ref]
  | _ => []

/-- What loading a program reports. -/
def Program.events (p : Program) : List Event :=
  [.loaded p.classes.size p.methods.size p.vars.size p.sites.size]

/-- What preparing an analysis reports. -/
def Setting.events (setting : Setting) : List Event := [.preparing, .entryChosen setting.entry]

end PointsTo
