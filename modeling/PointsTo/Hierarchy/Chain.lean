/- # Chain -- the superclass chain

`Program.superChain` lists a class and its superclasses, nearest first.  In a loaded program no class is
its own superclass, so a chain has at most as many classes as the program. -/
import PointsTo.Program.Basic

set_option autoImplicit false

namespace PointsTo.Program

/-- The class and at most `bound` classes of its chain in all. -/
def chainUpTo (p : Program) : Nat → ClassId → List ClassId
  | 0, _ => []
  | bound + 1, c =>
    c :: match p.superOf c with
      | some super => p.chainUpTo bound super
      | none => []

/-- The class, its superclass, that one's superclass and so on. -/
def superChain (p : Program) (c : ClassId) : List ClassId := p.chainUpTo p.classes.size c

/-- The field that `name` means in a class: the one of the nearest class on its chain that declares it. -/
def inheritedField? (p : Program) (c : ClassId) (name : String) : Option FieldId :=
  (p.superChain c).findSome? fun d => p.declaredField? d name

end PointsTo.Program
