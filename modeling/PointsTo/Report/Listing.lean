/- # Listing -- results as lines

The points-to listing has a line for every local variable of a reachable method that points to something,
below a line for its method, and then the static fields that do.  The dead method listing has a line for
every method that is never reached. -/
import PointsTo.Report.Summary

set_option autoImplicit false

namespace PointsTo

namespace Result

/-- The line of something that points to objects. -/
def setLine (r : Result) (name : String) (objects : List ObjectId) : String :=
  "\t" ++ name ++ " (" ++ toString objects.length ++ ") ==> \x7b " ++
    " ".intercalate (objects.map r.objectName) ++ " \x7d"

/-- The lines of what points to something. -/
def setLines (r : Result) (sets : List (String × List ObjectId)) : List String :=
  (sets.filter fun (_, objects) => !objects.isEmpty).map fun (name, objects) => r.setLine name objects

/-- The lines of a reachable method. -/
def methodLines (r : Result) (m : MethodId) : List String :=
  (numbered "MethodId" m ++ " - " ++ r.setting.program.methodName m) ::
    r.setLines ((r.setting.program.localsOf m).map fun v =>
      (r.setting.program.localName v, r.pointsTo v))

/-- The static fields, with their objects. -/
def staticSets (r : Result) : List (String × List ObjectId) :=
  let p := r.setting.program
  ((List.range p.fields.size).filter fun f => p.fields[f]?.any (·.isStatic)).map fun f =>
    (p.fieldName f, r.staticPointsTo f)

/-- The points-to listing. -/
def pointsToListing (r : Result) : String :=
  let statics := r.setLines r.staticSets
  textOfLines (r.reachableMethods.flatMap r.methodLines ++
    if statics.isEmpty then [] else "Static fields" :: statics)

end Result

/-- The listing of methods. -/
def methodListing (p : Program) (methods : List MethodId) : String :=
  textOfLines (methods.map p.methodName)

end PointsTo
