/- # Lookups -- reading a program without trusting its numbers

The analyses read the parts of a program through numbers, and the part functions give an empty part for a
number that is not in use.  The lookups of this module (`Checked`) fail there instead, and so does everything
that is read through them: the names of methods, sites and objects, the walks along supertypes and the
resolution of calls.  A lookup fails with the number that stands for nothing (`LookupFault`).

Main statement: in a program that uses every number it mentions (`Program.InRange`) no lookup fails, and each
gives what the part functions give (`methodName_eq_ok`, `dispatch_eq_ok`, `resolveCall_eq_ok`,
`possibleTargets?_eq_ok` and their like). -/
import PointsTo.Proofs.Coherence
import PointsTo.Proofs.HierarchyClosure
import PointsTo.Proofs.Origins
import PointsTo.Proofs.Subtypes

set_option autoImplicit false

namespace PointsTo

/-- What stands for nothing. -/
inductive LookupFault
  | missingClass (c : ClassId)
  | missingMethod (m : MethodId)
  | missingVar (v : VarId)
  | missingSite (s : SiteId)
  | missingNode (id : Nat)
  | missingObject (o : ObjectId)
  | missingQualifiedObject (o : Nat)
  /-- The position is behind the end of the body. -/
  | outsideBody (site : CallSite)
  /-- The statement at the position is no call. -/
  | notCall (site : CallSite)
  /-- A summary was asked for where there is no body. -/
  | bodiless (m : MethodId)
  deriving DecidableEq, Repr

/-- What is looked up, or what stands for nothing. -/
abbrev Lookup := Except LookupFault

/-- What was read, or a fault. -/
def Lookup.found {α : Type} (read : Option α) (fault : LookupFault) : Lookup α :=
  match read with
  | some a => .ok a
  | none => .error fault

/-! ## Sequences of lookups -/

@[simp] theorem Lookup.found_some {α : Type} (a : α) (fault : LookupFault) : found (some a) fault = .ok a := rfl

@[simp] theorem Lookup.ok_bind {α β : Type} (a : α) (next : α → Lookup β) : (.ok a >>= next) = next a := rfl

@[simp] theorem Lookup.pure_eq_ok {α : Type} (a : α) : (pure a : Lookup α) = .ok a := rfl

section Traversals

variable {α β σ : Type}

theorem mapM_eq_ok_of {f : α → Lookup β} {g : α → β} {xs : List α} (one : ∀ x ∈ xs, f x = .ok (g x)) :
    xs.mapM f = .ok (xs.map g) := by
  rw [mapM_eq_ok_iff, List.forall₂_map_right_iff, List.forall₂_same]
  exact one

theorem mapM_eq_ok_filterMap {f : α → Lookup β} {g : α → Option β} {xs : List α}
    (one : ∀ x ∈ xs, ∃ b, g x = some b ∧ f x = .ok b) : xs.mapM f = .ok (xs.filterMap g) := by
  rw [mapM_eq_ok_iff]
  induction xs with
  | nil => exact .nil
  | cons x rest ih =>
      obtain ⟨b, given, read⟩ := one x List.mem_cons_self
      rw [List.filterMap_cons_some given]
      exact .cons read (ih fun y member => one y (List.mem_cons_of_mem x member))

theorem findSomeM?_eq_ok {f : α → Lookup (Option β)} {g : α → Option β} {xs : List α}
    (one : ∀ x ∈ xs, f x = .ok (g x)) : xs.findSomeM? f = .ok (xs.findSome? g) := by
  induction xs with
  | nil => rfl
  | cons x rest ih =>
      have others := ih fun y member => one y (List.mem_cons_of_mem x member)
      rw [List.findSomeM?, one x List.mem_cons_self, List.findSome?_cons]
      cases g x with
      | none => exact others
      | some b => rfl

/-- A traversal gives what the plain one does when each step does, given what all steps keep. -/
theorem foldlM_eq_ok {f : σ → α → Lookup σ} {g : σ → α → σ} (holds : σ → Prop) {xs : List α}
    (one : ∀ x ∈ xs, ∀ s, holds s → f s x = .ok (g s x) ∧ holds (g s x)) {s : σ} (first : holds s) :
    xs.foldlM f s = .ok (xs.foldl g s) := by
  induction xs generalizing s with
  | nil => rfl
  | cons x rest ih =>
      obtain ⟨step, kept⟩ := one x List.mem_cons_self s first
      rw [List.foldlM_cons, step, List.foldl_cons]
      exact ih (fun y member => one y (List.mem_cons_of_mem x member)) kept

end Traversals

/-! ## What a program mentions is in use -/

namespace Program.InRange

variable {p : Program} (inRange : p.InRange)
include inRange

theorem superOf_lt {c d : ClassId} (super : p.superOf c = some d) : d < p.classes.size := by
  obtain ⟨k, read, named⟩ := Option.bind_eq_some_iff.mp super
  refine inRange.classes d ?_
  simp only [mentionedClasses, List.mem_append, List.mem_flatMap]
  exact .inl (.inl (.inl (.inl
    ⟨k, Array.mem_toList_iff.mpr (Array.mem_of_getElem? read), by simp [named]⟩)))

theorem interfacesOf_lt {c d : ClassId} (interface : d ∈ p.interfacesOf c) : d < p.classes.size := by
  unfold interfacesOf at interface
  cases read : p.classes[c]? with
  | none => simp [read] at interface
  | some k =>
      simp only [read, Option.map_some, Option.getD_some] at interface
      refine inRange.classes d ?_
      simp only [mentionedClasses, List.mem_append, List.mem_flatMap]
      exact .inl (.inl (.inl (.inl
        ⟨k, Array.mem_toList_iff.mpr (Array.mem_of_getElem? read), .inr interface⟩)))

theorem owner_lt {m : MethodId} {method : Method} (read : p.methods[m]? = some method) :
    method.owner < p.classes.size := by
  refine inRange.classes _ ?_
  simp only [mentionedClasses, List.mem_append, List.mem_map]
  exact .inl (.inl (.inr ⟨method, Array.mem_toList_iff.mpr (Array.mem_of_getElem? read), rfl⟩))

theorem target_lt {site : CallSite} {call : Invocation VarId} (statement : p.callAt? site = some call) :
    call.target.owner < p.classes.size := by
  obtain ⟨method, read, inBody⟩ := getElem?_of_bodyOf (getElem?_of_callAt? statement)
  refine inRange.classes _ ?_
  simp only [mentionedClasses, List.mem_append, List.mem_flatMap, List.mem_filterMap]
  exact .inl (.inr ⟨method, Array.mem_toList_iff.mpr (Array.mem_of_getElem? read), _,
    List.mem_of_getElem? inBody, rfl⟩)

theorem allocated_lt {s : SiteId} {site : Site} (read : p.sites[s]? = some site) {c : ClassId}
    (type : site.type.class? = some c) : c < p.classes.size := by
  refine inRange.classes c ?_
  simp only [mentionedClasses, List.mem_append, List.mem_filterMap]
  exact .inr ⟨site, Array.mem_toList_iff.mpr (Array.mem_of_getElem? read), type⟩

theorem siteMethod_lt {s : SiteId} {site : Site} (read : p.sites[s]? = some site) :
    site.method < p.methods.size := by
  refine inRange.methods _ ?_
  simp only [mentionedMethods, List.mem_cons, List.mem_append, List.mem_map]
  exact .inr (.inr ⟨site, Array.mem_toList_iff.mpr (Array.mem_of_getElem? read), rfl⟩)

theorem site_lt {s : SiteId} (allocates : p.Allocates s) : s < p.sites.size := by
  obtain ⟨m, lhs, inBody⟩ := allocates
  obtain ⟨i, at'⟩ := List.getElem?_of_mem inBody
  obtain ⟨method, read, statement⟩ := getElem?_of_bodyOf at'
  refine inRange.sites s (List.mem_flatMap.mpr ⟨method, ?_, ?_⟩)
  · exact Array.mem_toList_iff.mpr (Array.mem_of_getElem? read)
  · exact List.mem_filterMap.mpr ⟨_, List.mem_of_getElem? statement, rfl⟩

theorem type_lt {s : SiteId} (inUse : s < p.sites.size) {c : ClassId}
    (type : (p.objectAt s).type.class? = some c) : c < p.classes.size := by
  have read := Array.getElem?_eq_getElem inUse
  rw [objectAt, read] at type
  exact inRange.allocated_lt read type

theorem container_lt {s : SiteId} (inUse : s < p.sites.size) : (p.objectAt s).container < p.classes.size := by
  have read := Array.getElem?_eq_getElem inUse
  have declared := Array.getElem?_eq_getElem (inRange.siteMethod_lt read)
  rw [objectAt, read]
  simpa [ownerOf, declared] using inRange.owner_lt declared

/-! ### Along the links of classes -/

theorem lt_of_reaches {c d : ClassId} (inUse : c < p.classes.size) (reaches : Reaches p.supertypesOf c d) :
    d < p.classes.size := by
  induction reaches with
  | refl => exact inUse
  | tail _ link _ =>
      rcases List.mem_append.mp link with super | interface
      · exact inRange.superOf_lt (Option.mem_toList.mp super)
      · exact inRange.interfacesOf_lt interface

theorem superChain_lt {c d : ClassId} (inUse : c < p.classes.size) (member : d ∈ p.superChain c) :
    d < p.classes.size :=
  inRange.lt_of_reaches inUse (reaches_supertypesOf (reaches_of_mem_chainUpTo member))

theorem supertypes_lt {c d : ClassId} (inUse : c < p.classes.size) (member : d ∈ p.supertypes c) :
    d < p.classes.size :=
  inRange.lt_of_reaches inUse (mem_supertypes_iff.mp member)

omit inRange in
theorem subtypes_lt {c d : ClassId} (inUse : c < p.classes.size) (member : d ∈ p.subtypes c) :
    d < p.classes.size := by
  cases mem_subtypes_iff.mp member with
  | refl => exact inUse
  | tail _ link => exact List.mem_range.mp (mem_classIds_of_mem_supertypesOf link.mem_supertypesOf)

end Program.InRange

/-! ## Parts and their names -/

/-- The methods whose names the wording of an event looks up. -/
def Event.methods : Event → List MethodId
  | .entryChosen m | .processing m _ | .summarised m | .bodiless m | .visiting m => [m]
  | .called caller callee => [caller, callee]
  | .unresolved _ _ _ caller | .untargeted _ _ caller => [caller]
  | .arityMismatch callee _ _ => [callee]
  | _ => []

/-- The classes whose names the wording of an event looks up. -/
def Event.classes : Event → List ClassId
  | .notSubtype receiver named => [receiver, named]
  | .undeclared ref | .unresolved _ ref _ _ | .untargeted _ ref _ => [ref.owner]
  | _ => []

/-- The objects whose names the wording of an event looks up. -/
def Event.objects : Event → List ObjectId
  | .unresolved _ _ (some o) _ => [o]
  | _ => []

namespace Checked

open Lookup (found)

variable (p : Program)

def readClass (c : ClassId) : Lookup Class := found p.classes[c]? (.missingClass c)

def readMethod (m : MethodId) : Lookup Method := found p.methods[m]? (.missingMethod m)

def readVar (v : VarId) : Lookup Var := found p.vars[v]? (.missingVar v)

def readSite (s : SiteId) : Lookup Site := found p.sites[s]? (.missingSite s)

def className (c : ClassId) : Lookup String := do return (← readClass p c).name

def methodName (m : MethodId) : Lookup String := do
  let method ← readMethod p m
  return "<" ++ (← className p method.owner) ++ ": " ++ method.subsignature ++ ">"

def typeName : TypeRef → Lookup String
  | .ofClass c => className p c
  | .array text => return text

def callSiteName (site : CallSite) : Lookup String := do
  return (← methodName p site.method) ++ "[" ++ toString site.index ++ "]"

def siteName (s : SiteId) : Lookup String := do
  let site ← readSite p s
  return "NewObj\x7b" ++ (← callSiteName p ⟨site.method, site.index⟩) ++ ": new " ++
    (← typeName p site.type) ++ "\x7d"

def objectName (h : Heap) (model : HeapModel) (o : ObjectId) : Lookup String := do
  let object ← found (h.object? o) (.missingObject o)
  match model with
  | .site => siteName p object.site
  | .type =>
    return "TypeObj\x7b" ++ (← className p object.container) ++ ": new " ++ (← typeName p object.type) ++
      "\x7d"

/-- Looks up the names in the wording of an event. -/
def names (h : Heap) (model : HeapModel) (event : Event) : Lookup Unit := do
  let _ ← event.methods.mapM (methodName p)
  let _ ← event.classes.mapM (className p)
  let _ ← event.objects.mapM (objectName p h model)

end Checked

/-- The objects of a heap are those of sites of the program. -/
def Heap.Placed (p : Program) (h : Heap) : Prop :=
  ∀ {o object}, h.object? o = some object → object.site < p.sites.size ∧ object = p.objectAt object.site

namespace Checked

section Names

variable {p : Program}

theorem exists_readClass {c : ClassId} (inUse : c < p.classes.size) :
    ∃ k, p.classes[c]? = some k ∧ readClass p c = .ok k :=
  ⟨p.classes[c], Array.getElem?_eq_getElem inUse, by simp [readClass, inUse]⟩

theorem exists_readMethod {m : MethodId} (inUse : m < p.methods.size) :
    ∃ method, p.methods[m]? = some method ∧ readMethod p m = .ok method :=
  ⟨p.methods[m], Array.getElem?_eq_getElem inUse, by simp [readMethod, inUse]⟩

theorem exists_readSite {s : SiteId} (inUse : s < p.sites.size) :
    ∃ site, p.sites[s]? = some site ∧ readSite p s = .ok site :=
  ⟨p.sites[s], Array.getElem?_eq_getElem inUse, by simp [readSite, inUse]⟩

theorem className_eq_ok {c : ClassId} (inUse : c < p.classes.size) :
    className p c = .ok (p.className c) := by
  obtain ⟨k, read, found⟩ := exists_readClass inUse
  simp [className, found, Program.className, read]

variable (inRange : p.InRange)
include inRange

theorem methodName_eq_ok {m : MethodId} (inUse : m < p.methods.size) :
    methodName p m = .ok (p.methodName m) := by
  obtain ⟨method, read, found⟩ := exists_readMethod inUse
  have owner := className_eq_ok (inRange.owner_lt read)
  simp [methodName, found, owner, Program.methodName, Program.memberName, Program.ownerOf, read]

omit inRange in
theorem typeName_eq_ok {type : TypeRef} (inUse : ∀ c, type.class? = some c → c < p.classes.size) :
    typeName p type = .ok (p.typeName type) := by
  cases type with
  | ofClass c => exact className_eq_ok (inUse c rfl)
  | array text => rfl

theorem callSiteName_eq_ok (site : CallSite) (inUse : site.method < p.methods.size) :
    callSiteName p site = .ok (p.callSiteName site) := by
  simp [callSiteName, methodName_eq_ok inRange inUse, Program.callSiteName]

theorem siteName_eq_ok {s : SiteId} (inUse : s < p.sites.size) : siteName p s = .ok (p.siteName s) := by
  obtain ⟨site, read, found⟩ := exists_readSite inUse
  have place := callSiteName_eq_ok inRange ⟨site.method, site.index⟩ (inRange.siteMethod_lt read)
  have type := typeName_eq_ok fun c => inRange.allocated_lt read (c := c)
  simp [siteName, found, place, type, Program.siteName, read]

theorem objectName_eq_ok {h : Heap} (placed : h.Placed p) (model : HeapModel) {o : ObjectId}
    (inUse : o < h.size) : objectName p h model o = .ok (h.name model p o) := by
  obtain ⟨object, made⟩ := Heap.exists_object?_of_lt inUse
  obtain ⟨allocated, same⟩ := placed made
  cases model with
  | site => simp [objectName, made, siteName_eq_ok inRange allocated, Heap.name]
  | type =>
      have container := className_eq_ok (inRange.container_lt allocated)
      have type := typeName_eq_ok fun c => inRange.type_lt allocated (c := c)
      rw [← same] at container type
      simp [objectName, made, container, type, Heap.name]

/-- An event about parts in use can be worded. -/
theorem names_eq_ok {h : Heap} {model : HeapModel} {event : Event}
    (methods : ∀ m ∈ event.methods, m < p.methods.size) (classes : ∀ c ∈ event.classes, c < p.classes.size)
    (objects : ∀ o ∈ event.objects, objectName p h model o = .ok (h.name model p o)) :
    names p h model event = .ok () := by
  have first := mapM_eq_ok_of fun m member => methodName_eq_ok inRange (methods m member)
  have second := mapM_eq_ok_of fun c member => className_eq_ok (classes c member)
  have third := mapM_eq_ok_of objects
  simp [names, first, second, third]

end Names

/-! ## Finding methods -/

section Hierarchy

variable (p : Program)

/-- The method that a class declares, where the class is read to go on when there is none. -/
def declaredOrNext (c : ClassId) (subsignature : String) : Lookup (Option MethodId) :=
  match p.declaredMethod? c subsignature with
  | some m => return some m
  | none => do
    let _ ← readClass p c
    return none

def implementation? (c : ClassId) (subsignature : String) : Lookup (Option MethodId) := do
  match p.declaredMethod? c subsignature with
  | some m => return if (← readMethod p m).isAbstract then none else some m
  | none => return none

/-- A class without an implementation is read for its superclass. -/
def dispatch (c : ClassId) (subsignature : String) : Lookup (Option MethodId) :=
  (p.superChain c).findSomeM? fun d => do
    match ← implementation? p d subsignature with
    | some m => return some m
    | none =>
      let _ ← readClass p d
      return none

def dispatchOn (type : TypeRef) (subsignature : String) : Lookup (Option MethodId) :=
  match type with
  | .ofClass c => dispatch p c subsignature
  | .array _ =>
    match p.rootClass? with
    | some c => dispatch p c subsignature
    | none => return none

/-- The walk up ends at the named class; the classes before it are read for their supertypes. -/
def isSubclass (sub sup : ClassId) : Lookup Bool := do
  let found ← (p.supertypes sub).findSomeM? fun c =>
    if c = sup then return some c
    else do
      let _ ← readClass p c
      return none
  return found.isSome

def resolveRef (ref : MethodRef) : Lookup (Option MethodId) := do
  match ← (p.superChain ref.owner).findSomeM? fun c => declaredOrNext p c ref.subsignature with
  | some m => return some m
  | none => (p.supertypes ref.owner).findSomeM? fun c => declaredOrNext p c ref.subsignature

variable {V : Type}

def resolveCall (receiver : Option TypeRef) (call : Invocation V) : Lookup Resolution := do
  if call.kind.isDynamic then
    match receiver with
    | none => return .noReceiver call.target
    | some (.ofClass c) =>
      if ← isSubclass p c call.target.owner then
        return .ofLookup (← dispatch p c call.target.subsignature)
      else return .notSubtype c call.target.owner
    | some (.array text) => return .ofLookup (← dispatchOn p (.array text) call.target.subsignature)
  else return .ofLookup (← dispatch p call.target.owner call.target.subsignature)

/-- Every class on the way down is read for whether it is an interface. -/
def possibleTargets? (call : Invocation V) : Lookup (Option (List MethodId)) := do
  match ← resolveRef p call.target with
  | none => return none
  | some _ =>
    if call.kind.isDynamic then
      let targets ← (p.subtypes call.target.owner).mapM fun c => do
        let target ← dispatch p c call.target.subsignature
        let _ ← readClass p c
        return target
      return some (targets.filterMap id).eraseDups
    else return some (← dispatch p call.target.owner call.target.subsignature).toList

end Hierarchy

section Found

variable {p : Program}

theorem declaredOrNext_eq_ok {c : ClassId} (inUse : c < p.classes.size) (subsignature : String) :
    declaredOrNext p c subsignature = .ok (p.declaredMethod? c subsignature) := by
  obtain ⟨k, -, found⟩ := exists_readClass inUse
  unfold declaredOrNext
  cases p.declaredMethod? c subsignature with
  | some m => rfl
  | none => simp [found]

theorem implementation?_eq_ok (c : ClassId) (subsignature : String) :
    implementation? p c subsignature = .ok (p.implementation? c subsignature) := by
  unfold implementation? Program.implementation?
  cases declared : p.declaredMethod? c subsignature with
  | none => rfl
  | some m =>
      obtain ⟨method, read, found⟩ := exists_readMethod (Program.lt_of_declaredMethod? declared)
      have kind : p.isAbstract m = method.isAbstract := by simp [Program.isAbstract, read]
      cases abstract : method.isAbstract <;> simp [found, Option.filter, kind, abstract]

variable (inRange : p.InRange)
include inRange

theorem dispatch_eq_ok {c : ClassId} (inUse : c < p.classes.size) (subsignature : String) :
    dispatch p c subsignature = .ok (p.dispatch c subsignature) := by
  refine findSomeM?_eq_ok fun d member => ?_
  obtain ⟨k, -, found⟩ := exists_readClass (inRange.superChain_lt inUse member)
  rw [implementation?_eq_ok, Lookup.ok_bind]
  cases p.implementation? d subsignature with
  | some m => rfl
  | none => simp [found]

omit inRange in
theorem lt_of_classNamed? {name : String} {c : ClassId} (named : p.classNamed? name = some c) :
    c < p.classes.size := by
  simpa using (List.findIdx?_eq_some_iff_getElem.mp named).1

theorem dispatchOn_eq_ok {type : TypeRef} (inUse : ∀ c, type.class? = some c → c < p.classes.size)
    (subsignature : String) : dispatchOn p type subsignature = .ok (p.dispatchOn type subsignature) := by
  cases type with
  | ofClass c => exact dispatch_eq_ok inRange (inUse c rfl) subsignature
  | array text =>
      simp only [dispatchOn, Program.dispatchOn]
      cases root : p.rootClass? with
      | none => rfl
      | some c =>
          obtain ⟨name, -, named⟩ := List.exists_of_findSome?_eq_some root
          exact dispatch_eq_ok inRange (lt_of_classNamed? named) subsignature

theorem isSubclass_eq_ok {sub : ClassId} (inUse : sub < p.classes.size) (sup : ClassId) :
    isSubclass p sub sup = .ok (p.isSubclass sub sup) := by
  have walk : (p.supertypes sub).findSomeM? (fun c => (if c = sup then return some c else do
      let _ ← readClass p c
      return none : Lookup (Option ClassId))) =
      .ok ((p.supertypes sub).findSome? fun c => if c = sup then some c else none) := by
    refine findSomeM?_eq_ok fun c member => ?_
    obtain ⟨k, -, found⟩ := exists_readClass (inRange.supertypes_lt inUse member)
    split
    · rfl
    · simp [found]
  rw [isSubclass, walk, Lookup.ok_bind, Lookup.pure_eq_ok, Program.isSubclass]
  congr 1
  rw [Bool.eq_iff_iff, List.findSome?_isSome_iff, List.contains_iff_mem]
  constructor
  · rintro ⟨c, member, here⟩
    split at here
    · rename_i same
      exact same ▸ member
    · cases here
  · exact fun member => ⟨sup, member, by simp⟩

theorem resolveRef_eq_ok {ref : MethodRef} (inUse : ref.owner < p.classes.size) :
    resolveRef p ref = .ok (p.resolveRef ref) := by
  have chain : (p.superChain ref.owner).findSomeM? (fun c => declaredOrNext p c ref.subsignature) = .ok _ :=
    findSomeM?_eq_ok fun c member => declaredOrNext_eq_ok (inRange.superChain_lt inUse member) _
  have above : (p.supertypes ref.owner).findSomeM? (fun c => declaredOrNext p c ref.subsignature) = .ok _ :=
    findSomeM?_eq_ok fun c member => declaredOrNext_eq_ok (inRange.supertypes_lt inUse member) _
  rw [resolveRef, chain, Lookup.ok_bind, Program.resolveRef]
  cases (p.superChain ref.owner).findSome? fun c => p.declaredMethod? c ref.subsignature with
  | some m => rfl
  | none => exact above

variable {V : Type} {call : Invocation V}

theorem resolveCall_eq_ok {receiver : Option TypeRef} (owner : call.target.owner < p.classes.size)
    (inUse : ∀ type, receiver = some type → ∀ c, type.class? = some c → c < p.classes.size) :
    resolveCall p receiver call = .ok (p.resolveCall receiver call) := by
  unfold resolveCall Program.resolveCall
  split
  · cases receiver with
    | none => rfl
    | some type =>
        cases type with
        | ofClass c =>
            have here := inUse _ rfl c rfl
            simp only [isSubclass_eq_ok inRange here, dispatch_eq_ok inRange here, Lookup.ok_bind]
            split <;> rfl
        | array text =>
            simp only [dispatchOn_eq_ok inRange (inUse _ rfl), Lookup.ok_bind]
            rfl
  · simp only [dispatch_eq_ok inRange owner, Lookup.ok_bind]
    rfl

theorem possibleTargets?_eq_ok (owner : call.target.owner < p.classes.size) :
    possibleTargets? p call = .ok (p.possibleTargets? call) := by
  have below : (p.subtypes call.target.owner).mapM (fun c => do
      let target ← dispatch p c call.target.subsignature
      let _ ← readClass p c
      return target) =
      .ok ((p.subtypes call.target.owner).map fun c => p.dispatch c call.target.subsignature) := by
    refine mapM_eq_ok_of fun c member => ?_
    have inUse := Program.InRange.subtypes_lt owner member
    obtain ⟨k, -, found⟩ := exists_readClass inUse
    simp [dispatch_eq_ok inRange inUse, found]
  rw [possibleTargets?, resolveRef_eq_ok inRange owner, Lookup.ok_bind, Program.possibleTargets?]
  cases p.resolveRef call.target with
  | none => rfl
  | some declaration =>
      simp only [Option.map_some]
      split
      · rw [below, Lookup.ok_bind, List.filterMap_map]
        rfl
      · rw [dispatch_eq_ok inRange owner]
        rfl

end Found

end Checked

end PointsTo
