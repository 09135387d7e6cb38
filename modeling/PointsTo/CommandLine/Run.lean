/- # Run -- the program from its arguments to its end

The program is written over a `Console`, which reads and creates files and prints.  Everything that is
written is an `Output`, a target and a text, in the order in which it is asked for; the first target that
cannot be created ends the program, and what was written before it stays. -/
import PointsTo.CallGraph.Dot
import PointsTo.CommandLine.Failure
import PointsTo.CommandLine.Options
import PointsTo.Loading.Program
import PointsTo.Report.Listing

set_option autoImplicit false

namespace PointsTo

/-- The means to read and write; a failed operation gives the reason. -/
structure Console (m : Type → Type) where
  read : String → m (Except String String)
  create : String → String → m (Except String Unit)
  print : String → m Unit

/-- A text and where it goes. -/
structure Output where
  target : String
  text : String
  deriving DecidableEq, Repr

/-- The target that stands for the standard output. -/
def standardOutput : String := "stdout"

/-- How the program ends. -/
inductive Ending
  | done
  | failed (failure : Failure)
  | noOptions (reason : NoOptions)
  deriving DecidableEq, Repr

/-- The status that the program ends with. -/
def Ending.status : Ending → Nat
  | .done | .noOptions .version | .noOptions .help => 0
  | .failed _ => 1
  | .noOptions .usage => 2

/-- The name and version of the program. -/
def versionText : String := "jpta 0.1.0\n"

/-! ## What is written -/

/-- The output to an optional target. -/
def outputTo (target : Option String) (text : Unit → String) : List Output :=
  (target.map fun target => ⟨target, text ()⟩).toList

/-- The outputs of the pointer analysis. -/
def Options.resultOutputs (options : Options) (r : Result) : List Output :=
  let p := r.setting.program
  outputTo options.pointsOutput (fun _ => r.pointsToListing) ++
  outputTo options.callGraphOutput (fun _ => r.plainCalls.drawing p) ++
  outputTo options.deadMethodsOutput (fun _ => methodListing p r.deadMethods) ++
  outputTo options.jsonOutput (fun _ => summaryText r.summary) ++
  (if options.statistics then [⟨standardOutput, r.statistics.text⟩] else [])

/-- The outputs of the analysis by declared types, which has no points-to sets. -/
def Options.hierarchyOutputs (options : Options) (p : Program) (a : HierarchyAnalysis) : List Output :=
  outputTo options.callGraphOutput (fun _ => a.calls.drawing p) ++
  outputTo options.deadMethodsOutput (fun _ => methodListing p (a.deadMethods p)) ++
  outputTo options.jsonOutput (fun _ => summaryText (a.calls.summary p)) ++
  (if options.statistics then
    [⟨standardOutput, hierarchyStatisticsText a.calls.statistics a.statements⟩]
  else [])

/-- The outputs for a program text, or why there are none. -/
def Options.outputs (options : Options) (text : String) : Except Failure (List Output) := do
  let p ← (Program.ofText text).mapError (.unloadable options.input)
  let setting ← (Setting.make p options.entry options.policy options.heapModel).mapError .entry
  return if options.hierarchy then
    options.hierarchyOutputs p (HierarchyAnalysis.run p setting.entry)
  else options.resultOutputs setting.analyse

/-! ## Running -/

namespace Console

variable {m : Type → Type} [Monad m]

/-- Writes outputs in order, up to the first whose target cannot be created. -/
def write (console : Console m) : List Output → m Ending
  | [] => return .done
  | output :: rest => do
    if output.target = standardOutput then
      console.print output.text
      console.write rest
    else
      match ← console.create output.target output.text with
      | .ok _ => console.write rest
      | .error reason => return .failed (.uncreatable output.target reason)

/-- Runs the program with options. -/
def analyse (console : Console m) (options : Options) : m Ending := do
  match ← console.read options.input with
  | .error reason => return .failed (.unreadable options.input reason)
  | .ok text =>
    match options.outputs text with
    | .error failure => return .failed failure
    | .ok outputs => console.write outputs

/-- Runs the program with arguments. -/
def run (console : Console m) (arguments : List String) : m Ending := do
  match Options.read arguments with
  | .ok options => console.analyse options
  | .error reason =>
    if reason = .version then console.print versionText
    return .noOptions reason

end Console

end PointsTo
