/- # Names -- printable names of program parts

A method is `<C: subsignature>`, a field `<C: f>`, a variable its method's name, a slash and its own, and an
allocation site says where it stands and what it allocates. -/
import PointsTo.Program.Basic

set_option autoImplicit false

namespace PointsTo.Program

/-- The name of a class. -/
def className (p : Program) (c : ClassId) : String := (p.classes[c]?.map (·.name)).getD ""

/-- `<C: member>`. -/
def memberName (p : Program) (c : ClassId) (member : String) : String :=
  "<" ++ p.className c ++ ": " ++ member ++ ">"

/-- The name of a method. -/
def methodName (p : Program) (m : MethodId) : String :=
  p.memberName (p.ownerOf m) ((p.methods[m]?.map (·.subsignature)).getD "")

/-- The name of a method reference, which need not be declared. -/
def methodRefName (p : Program) (ref : MethodRef) : String :=
  p.memberName ref.owner ref.subsignature

/-- The name of a field. -/
def fieldName (p : Program) (f : FieldId) : String :=
  p.memberName ((p.fields[f]?.map (·.owner)).getD 0) ((p.fields[f]?.map (·.name)).getD "")

/-- The name of a variable within its method. -/
def localName (p : Program) (v : VarId) : String := (p.vars[v]?.map (·.name)).getD ""

/-- The full name of a variable. -/
def varName (p : Program) (v : VarId) : String :=
  p.methodName (p.methodOfVar v) ++ "/" ++ p.localName v

/-- The name of a type. -/
def typeName (p : Program) : TypeRef → String
  | .ofClass c => p.className c
  | .array text => text

/-- `<C: subsignature>[index]`. -/
def callSiteName (p : Program) (site : CallSite) : String :=
  p.methodName site.method ++ "[" ++ toString site.index ++ "]"

/-- The name of an allocation site. -/
def siteName (p : Program) (s : SiteId) : String :=
  match p.sites[s]? with
  | some site =>
    "NewObj\x7b" ++ p.callSiteName ⟨site.method, site.index⟩ ++ ": new " ++ p.typeName site.type
      ++ "\x7d"
  | none => ""

end PointsTo.Program
