/- # Directory -- a console in memory

The console of a single directory without subdirectories.  Runs of the program on it are values, so they can
be evaluated and compared. -/
import PointsTo.CommandLine.Run

set_option autoImplicit false

namespace PointsTo

/-- The files of a directory by name, latest first, and what was printed. -/
structure Directory where
  files : List (String × String) := []
  printed : String := ""
  deriving DecidableEq, Repr

namespace Directory

/-- Why a path cannot be used. -/
inductive PathFault
  | missing
  | isDirectory
  | notDirectory
  deriving DecidableEq, Repr

/-- The wording of a path fault. -/
def PathFault.reason : PathFault → String
  | .missing => "No such file or directory (os error 2)"
  | .isDirectory => "Is a directory (os error 21)"
  | .notDirectory => "Not a directory (os error 20)"

/-- Whether there is a file with a name. -/
def hasFile (d : Directory) (name : String) : Bool := (d.files.lookup name).isSome

/-- The name of the file that a path stands for.  Steps that stay in the directory do not count. -/
def resolve (d : Directory) (path : String) : Except PathFault String :=
  if path.isEmpty then throw .missing
  else
    match (path.splitOn "/").filter fun step => step ≠ "" && step ≠ "." with
    | [] => throw .isDirectory
    | [name] =>
      if name = ".." || path.startsWith "/" then throw .isDirectory
      else if path.endsWith "/" then throw (if d.hasFile name then .notDirectory else .isDirectory)
      else return name
    | first :: _ => throw (if d.hasFile first then .notDirectory else .missing)

/-- The content of a file. -/
def read (d : Directory) (path : String) : Except PathFault String := do
  match d.files.lookup (← d.resolve path) with
  | some text => return text
  | none => throw .missing

/-- The directory with a file that has a content. -/
def create (d : Directory) (path text : String) : Except PathFault Directory := do
  let name ← d.resolve path
  return { d with files := (name, text) :: d.files.filter fun (other, _) => other ≠ name }

/-- The console of a directory. -/
def console : Console (StateM Directory) where
  read path := do
    return ((← get).read path).mapError PathFault.reason
  create path text := do
    match (← get).create path text with
    | .ok d => set d; return .ok ()
    | .error fault => return .error fault.reason
  print text := modify fun d => { d with printed := d.printed ++ text }

end Directory

end PointsTo
