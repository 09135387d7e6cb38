/- # Failure -- why the program ends without a result

A failure is a chain of causes, the outermost first.  Its text has the outermost message on the first line
and the causes below, numbered when there are several; the lines of a cause are indented together. -/
import PointsTo.Loading.Fault
import PointsTo.Setting

set_option autoImplicit false

namespace PointsTo

/-- Why the program ends without a result. -/
inductive Failure
  | unreadable (path reason : String)
  | unloadable (path : String) (cause : ProgramFault)
  | entry (cause : EntryFault)
  | uncreatable (path reason : String)
  deriving DecidableEq, Repr

/-- The messages of a failure, outermost first. -/
def Failure.chain : Failure → List String
  | .unreadable path reason => ["failed to read " ++ path, reason]
  | .unloadable path cause => ("failed to load " ++ path) :: cause.chain
  | .entry cause => [cause.message]
  | .uncreatable path reason => ["unable to create " ++ path, reason]

/-- A text whose lines after the first are indented. -/
def indented (width : Nat) (text : String) : String :=
  String.join (text.toList.map fun c =>
    if c = '\n' then "\n" ++ String.ofList (List.replicate width ' ') else c.toString)

/-- The lines of causes. -/
def causeLines : List String → String
  | [cause] => "\n    " ++ indented 4 cause
  | causes =>
    String.join (causes.zipIdx.map fun (cause, index) =>
      "\n    " ++ toString index ++ ": " ++ indented 7 cause)

/-- A chain of messages as a text. -/
def chainText : List String → String
  | [] => ""
  | [message] => message
  | message :: causes => message ++ "\n\nCaused by:" ++ causeLines causes

/-- What is written about a failure. -/
def Failure.text (failure : Failure) : String := "Error: " ++ chainText failure.chain ++ "\n"

end PointsTo
