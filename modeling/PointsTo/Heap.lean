/- # Heap -- abstract objects

Allocation sites are grouped into objects, numbered in the order of their first request.  With the site
model every site is an object of its own; with the type model the sites that allocate one type in one
class share an object, which remembers the first of them. -/
import PointsTo.Program.Names

set_option autoImplicit false

namespace PointsTo

/-- The number of an abstract object. -/
abbrev ObjectId := Nat

/-- How allocation sites are grouped into objects. -/
inductive HeapModel
  | site
  | type
  deriving DecidableEq, Repr

/-- The name of a heap model. -/
def HeapModel.name : HeapModel → String
  | .site => "AllocSite"
  | .type => "Type"

/-- An abstract object: its type, the first site it stands for, and that site's method and class. -/
structure HeapObject where
  type : TypeRef
  site : SiteId
  method : MethodId
  container : ClassId
  deriving DecidableEq, Repr

/-- The objects so far, and the sites they stand for. -/
structure Heap where
  objects : Array HeapObject := #[]
  /-- The object of each requested site, latest request first. -/
  requested : List (SiteId × ObjectId) := []
  deriving DecidableEq, Repr

/-- The object that the allocation at a site would make. -/
def Program.objectAt (p : Program) (s : SiteId) : HeapObject :=
  match p.sites[s]? with
  | some site => ⟨site.type, s, site.method, p.ownerOf site.method⟩
  | none => ⟨.array "", s, 0, 0⟩

namespace Heap

/-- The count of objects. -/
def size (h : Heap) : Nat := h.objects.size

/-- An object. -/
def object? (h : Heap) (o : ObjectId) : Option HeapObject := h.objects[o]?

/-- The number of a site that was requested before. -/
def known? (h : Heap) (s : SiteId) : Option ObjectId := h.requested.lookup s

/-- The object of a new site that an older one stands for: with the type model one of the same type and
container. -/
def shared? (h : Heap) (model : HeapModel) (new : HeapObject) : Option ObjectId :=
  match model with
  | .site => none
  | .type => h.objects.toList.findIdx? fun o => o.type = new.type && o.container = new.container

/-- The object of a site, made when the site is new and shares none. -/
def request (h : Heap) (model : HeapModel) (p : Program) (s : SiteId) : Heap × ObjectId :=
  match h.known? s with
  | some o => (h, o)
  | none =>
    let new := p.objectAt s
    match h.shared? model new with
    | some o => ({ h with requested := (s, o) :: h.requested }, o)
    | none =>
      (⟨h.objects.push new, (s, h.objects.size) :: h.requested⟩, h.objects.size)

/-- The printable name of an object. -/
def name (h : Heap) (model : HeapModel) (p : Program) (o : ObjectId) : String :=
  match h.object? o with
  | none => ""
  | some object =>
    match model with
    | .site => p.siteName object.site
    | .type =>
      "TypeObj\x7b" ++ p.className object.container ++ ": new " ++ p.typeName object.type ++ "\x7d"

end Heap

end PointsTo
