/- # Options -- the arguments of the command line

Arguments are read from left to right.  An option takes its value after an equals sign or from the next
argument, unless that one looks like an option; two hyphens end the options.  Some faults stop the reading
at once, others only count when the arguments have been read to the end, so that a later request for the
version still is answered. -/
import PointsTo.Setting

set_option autoImplicit false

namespace PointsTo

/-! ## Options -/

/-- What the command line asks for. -/
structure Options where
  input : String := ""
  entry : Option String := none
  sensitivity : Sensitivity := .callSite
  depth : Nat := 1
  heapDepth : Option Nat := none
  heapModel : HeapModel := .site
  /-- Whether the call graph is made from declared types alone. -/
  hierarchy : Bool := false
  statistics : Bool := false
  callGraphOutput : Option String := none
  pointsOutput : Option String := none
  jsonOutput : Option String := none
  deadMethodsOutput : Option String := none
  deriving DecidableEq, Repr

/-- The context policy of the options. -/
def Options.policy (options : Options) : Policy :=
  .ofDepths options.sensitivity options.depth options.heapDepth

/-! ## Values -/

/-- The sensitivity of an option value. -/
def readSensitivity (value : String) : Option Sensitivity :=
  match value with
  | "andersen" | "ander" => some .insensitive
  | "callsite-sensitive" | "cs" => some .callSite
  | "object-sensitive" | "obj" => some .object
  | "type-sensitive" | "type" => some .type
  | _ => none

/-- The heap model of an option value. -/
def readHeapModel (value : String) : Option HeapModel :=
  match value with
  | "alloc-site" => some .site
  | "type" => some .type
  | _ => none

/-- The number of a list of decimal digits. -/
def readDigits (digits : List Char) : Option Nat :=
  if digits.isEmpty || !digits.all Char.isDigit then none
  else some (digits.foldl (fun n c => 10 * n + (c.toNat - '0'.toNat)) 0)

/-- The greatest depth that can be asked for. -/
def maxDepth : Nat := 0xffffffff

/-- The depth of an option value: decimal digits, which may have a sign. -/
def readDepth (value : String) : Option Nat :=
  match value.toList with
  | '-' :: digits => (readDigits digits).filter (· = 0)
  | '+' :: digits => (readDigits digits).filter (· ≤ maxDepth)
  | digits => (readDigits digits).filter (· ≤ maxDepth)

/-- An option that takes a value. -/
inductive ValueOption
  | entry
  | sensitivity
  | depth
  | heapDepth
  | heapModel
  | callGraphOutput
  | pointsOutput
  | jsonOutput
  | deadMethodsOutput
  deriving DecidableEq, Repr

/-- An option without a value. -/
inductive Flag
  | hierarchy
  | statistics
  | version
  | help
  deriving DecidableEq, Repr

/-- The option that takes a value with a name. -/
def ValueOption.named? (name : String) : Option ValueOption :=
  match name with
  | "entry-func" => some .entry
  | "pta-type" => some .sensitivity
  | "context-depth" => some .depth
  | "heap-context-depth" => some .heapDepth
  | "heap-model" => some .heapModel
  | "dump-call-graph" => some .callGraphOutput
  | "dump-pts" => some .pointsOutput
  | "dump-json" => some .jsonOutput
  | "dump-dead-methods" => some .deadMethodsOutput
  | _ => none

/-- The flag with a name. -/
def Flag.named? (name : String) : Option Flag :=
  match name with
  | "cha" => some .hierarchy
  | "dump-stats" => some .statistics
  | "version" => some .version
  | "help" => some .help
  | _ => none

/-- The options with a value set; nothing when the value is none of the option. -/
def Options.set (options : Options) (option : ValueOption) (value : String) : Option Options :=
  match option with
  | .entry => some { options with entry := some value }
  | .sensitivity => (readSensitivity value).map fun sensitivity => { options with sensitivity }
  | .depth => (readDepth value).map fun depth => { options with depth }
  | .heapDepth => (readDepth value).map fun depth => { options with heapDepth := some depth }
  | .heapModel => (readHeapModel value).map fun heapModel => { options with heapModel }
  | .callGraphOutput => some { options with callGraphOutput := some value }
  | .pointsOutput => some { options with pointsOutput := some value }
  | .jsonOutput => some { options with jsonOutput := some value }
  | .deadMethodsOutput => some { options with deadMethodsOutput := some value }

/-! ## Reading arguments -/

/-- Why there are no options. -/
inductive NoOptions
  /-- The arguments are at fault. -/
  | usage
  | version
  | help
  deriving DecidableEq, Repr

/-- The arguments read so far. -/
structure ArgumentReader where
  options : Options := {}
  input : Option String := none
  valuesGiven : List ValueOption := []
  flagsGiven : List Flag := []
  /-- The option that waits for its value. -/
  waiting : Option ValueOption := none
  optionsEnded : Bool := false
  /-- A fault was met that only counts at the end. -/
  faulty : Bool := false
  deriving Repr

namespace ArgumentReader

/-- Whether an argument cannot be the value of the option before it. -/
def looksLikeOption (argument : String) : Bool := argument.startsWith "-" && argument ≠ "-"

/-- Takes the value of an option.  Giving an option twice is a fault at the end. -/
def takeValue (r : ArgumentReader) (option : ValueOption) (value : String) :
    Except NoOptions ArgumentReader :=
  match r.options.set option value with
  | none => throw .usage
  | some options =>
    return { r with
      options
      valuesGiven := option :: r.valuesGiven
      waiting := none
      faulty := r.faulty || r.valuesGiven.contains option }

/-- Takes a flag.  Giving a flag twice is a fault at the end. -/
def takeFlag (r : ArgumentReader) (flag : Flag) : Except NoOptions ArgumentReader :=
  let r := { r with
    flagsGiven := flag :: r.flagsGiven
    faulty := r.faulty || r.flagsGiven.contains flag }
  match flag with
  | .version => throw .version
  | .help => throw .help
  | .hierarchy => return { r with options := { r.options with hierarchy := true } }
  | .statistics => return { r with options := { r.options with statistics := true } }

/-- Takes the input; there is only one. -/
def takeInput (r : ArgumentReader) (argument : String) : Except NoOptions ArgumentReader :=
  match r.input with
  | none => return { r with input := some argument }
  | some _ => throw .usage

/-- Takes an option without its two hyphens. -/
def takeLong (r : ArgumentReader) (argument : List Char) : Except NoOptions ArgumentReader :=
  let name := String.ofList (argument.takeWhile (· ≠ '='))
  let value := (argument.dropWhile (· ≠ '=')).tail?.map String.ofList
  match ValueOption.named? name, Flag.named? name, value with
  | some option, _, some value => r.takeValue option value
  | some option, _, none => return { r with waiting := some option }
  | none, some flag, none => r.takeFlag flag
  | _, _, _ => throw .usage

/-- Takes an option with one hyphen, by its first letter. -/
def takeShort (letter : Char) : Except NoOptions ArgumentReader :=
  match letter with
  | 'V' => throw .version
  | 'h' => throw .help
  | _ => throw .usage

/-- Takes an argument that is not a value. -/
def takeUnbound (r : ArgumentReader) (argument : String) : Except NoOptions ArgumentReader :=
  if r.optionsEnded then r.takeInput argument
  else
    match argument.toList with
    | ['-', '-'] => return { r with optionsEnded := true }
    | '-' :: '-' :: rest => r.takeLong rest
    | '-' :: letter :: _ => takeShort letter
    | _ => r.takeInput argument

/-- Takes the next argument.  An option whose value is missing is a fault at the end. -/
def take (r : ArgumentReader) (argument : String) : Except NoOptions ArgumentReader :=
  match r.waiting with
  | none => r.takeUnbound argument
  | some option =>
    if looksLikeOption argument then
      { r with waiting := none, faulty := true }.takeUnbound argument
    else r.takeValue option argument

/-- The options at the end of the arguments; an input is required. -/
def finish (r : ArgumentReader) : Except NoOptions Options :=
  match r.input with
  | some input =>
    if r.faulty || r.waiting.isSome then throw .usage else return { r.options with input }
  | none => throw .usage

end ArgumentReader

/-- The options of a list of arguments. -/
def Options.read (arguments : List String) : Except NoOptions Options := do
  (← arguments.foldlM ArgumentReader.take {}).finish

end PointsTo
