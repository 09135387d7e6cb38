/- # Program -- from a description to a program

`Description.load` checks a description and numbers its parts.  Faults are looked for in a fixed order:
repeated class names, then class by class unknown supertypes and faults of method declarations, then
supertype cycles, then method bodies, then the entry. -/
import PointsTo.Description.Reader
import PointsTo.Loading.Body

set_option autoImplicit false

namespace PointsTo

namespace Description

/-- The program with the given bodies, one for each declared method in order. -/
def assemble (skeleton : Program) (bodies : List (MethodDescription × List ResolvedStatement)) :
    Program :=
  let methods := completeMethods 0 0 (skeleton.methods.toList.zip bodies)
  let vars := bodies.zipIdx.flatMap fun ((m, body), id) =>
    (localNames m body).map fun name => (⟨name, id⟩ : Var)
  let sites := bodies.zipIdx.flatMap fun ((_, body), id) => sitesOf id body
  { skeleton with methods := methods.toArray, vars := vars.toArray, sites := sites.toArray }

/-- The entry method: the entry class declares it itself, and it is not abstract. -/
def resolveEntry (d : Description) (p : Program) : Except LoadFault MethodId := do
  let c ← d.resolveClass d.entry.owner
  match p.declaredMethod? c d.entry.method with
  | none => throw (.entryUndeclared d.entry.owner d.entry.method)
  | some m =>
    if p.isAbstract m then throw (.entryAbstract d.entry.owner d.entry.method) else return m

/-- The program of a description. -/
def load (d : Description) : Except LoadFault Program := do
  let skeleton ← d.skeleton
  let bodies ← d.classes.mapM skeleton.resolveBodies
  let p := assemble skeleton bodies.flatten
  let entry ← d.resolveEntry p
  return { p with entry }

end Description

/-- The program of a text. -/
def Program.ofText (text : String) : Except ProgramFault Program :=
  match Description.ofText text with
  | .error cause => .error (.shape cause)
  | .ok description =>
    match description.load with
    | .error cause => .error (.load cause)
    | .ok program => .ok program

end PointsTo
