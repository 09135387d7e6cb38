/- # Main -- the command line program -/
import PointsTo.CommandLine.Run

set_option autoImplicit false

namespace PointsTo

/-- The words for a failed file operation. -/
def fileReason : IO.Error → String
  | .noFileOrDirectory .. => "No such file or directory (os error 2)"
  | .permissionDenied .. => "Permission denied (os error 13)"
  | .inappropriateType .. => "Is a directory (os error 21)"
  | other => toString other

/-- A file operation with the reason of its failure in words. -/
def attempt {α : Type} (action : IO α) : IO (Except String α) := do
  match ← action.toBaseIO with
  | .ok result => return .ok result
  | .error cause => return .error (fileReason cause)

/-- The files and the standard output of the process. -/
def processConsole : Console IO where
  read path := attempt (IO.FS.readFile path)
  create path text := attempt (IO.FS.writeFile path text)
  print text := do
    IO.print text
    (← IO.getStdout).flush

/-- How the program is called. -/
def usageText : String := "USAGE:\n    pta [OPTIONS] INPUT\n"

end PointsTo

open PointsTo in
/-- Runs the program with the arguments of the process. -/
def main (arguments : List String) : IO UInt32 := do
  let ending ← processConsole.run arguments
  match ending with
  | .failed failure => IO.eprint failure.text
  | .noOptions .usage => IO.eprint usageText
  | .noOptions .help => IO.print usageText
  | _ => pure ()
  return ending.status.toUInt32
