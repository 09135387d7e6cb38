/- # StoredSummaries -- a summary is built statement by statement and loses nothing

The solver reads the summary of a method off its body.  Here a summary is built as it is stored, without the body:
one statement after the other is appended to its list (`StoredSummary.visit`), the lists of what goes through a
variable are kept in a table under that variable, and a store has the summary of every method that one was asked for
(`SummaryStore.request`).  What is stored is what the solver reads (`StoredSummary.represents_build`).

The entries of a stored summary are turned back into the statements that they stand for, list by list
(`StoredSummary.restored`).  A statement has at most one place (`Statement.place?`): a list and, if it goes through
a variable, that variable.  A list restores the statements of its place in the order of the body
(`StoredSummary.Represents.restored_eq`), and every statement that a summary does not leave out has a place, so all
lists together restore the body (`StoredSummary.Represents.everything`).

Main statement: `lossless_after`. -/
import Mathlib.Data.List.Induction
import Mathlib.Data.List.Perm.Basic
import PointsTo.Proofs.Loaded
import PointsTo.Proofs.Summaries

set_option autoImplicit false

namespace PointsTo

/-! ## Places -/

/-- A list of a summary. -/
inductive Place
  | allocations
  | copies
  | staticLoads
  | staticStores
  | storeFields (base : VarId)
  | loadFields (base : VarId)
  | storeArrays (base : VarId)
  | loadArrays (base : VarId)
  /-- The calls with a receiver, or those without. -/
  | calls (receiver : Option VarId)
  deriving DecidableEq, Repr

namespace Place

/-- The variable that a list is kept under, if it is kept under one. -/
def key? : Place → Option VarId
  | .storeFields v | .loadFields v | .storeArrays v | .loadArrays v => some v
  | .calls receiver => receiver
  | _ => none

/-- The lists that are kept under a variable, or those that are kept under none. -/
def under : Option VarId → List Place
  | none => [.allocations, .copies, .staticLoads, .staticStores, .calls none]
  | some v => [.storeFields v, .loadFields v, .storeArrays v, .loadArrays v, .calls (some v)]

theorem mem_under {place : Place} {key : Option VarId} : place ∈ under key ↔ place.key? = key := by
  cases key <;> cases place <;> simp [under, key?]

theorem nodup_under (key : Option VarId) : (under key).Nodup := by
  cases key <;> simp [under]

theorem nodup_flatMap_under {keys : List (Option VarId)} (distinct : keys.Nodup) : (keys.flatMap under).Nodup := by
  refine List.nodup_flatMap.mpr ⟨fun key _ => nodup_under key, distinct.imp ?_⟩
  intro key other differ place left right
  exact differ ((mem_under.mp left).symm.trans (mem_under.mp right))

end Place

namespace Statement

/-- Whether a summary leaves the statement out. -/
def isLeftOut : Stmt → Bool
  | .ret _ | .nop => true
  | _ => false

/-- The list of a summary that the statement belongs to; one that goes through a variable belongs under its base or
receiver. -/
def place? : Stmt → Option Place
  | .new _ _ => some .allocations
  | .copy _ _ => some .copies
  | .loadStatic _ _ => some .staticLoads
  | .storeStatic _ _ => some .staticStores
  | .loadField _ base _ => some (.loadFields base)
  | .storeField base _ _ => some (.storeFields base)
  | .loadArray _ base => some (.loadArrays base)
  | .storeArray base _ => some (.storeArrays base)
  | .invoke call => some (.calls call.receiver)
  | .ret _ | .nop => none

/-- The variable that the statement goes through. -/
def key? (s : Stmt) : Option VarId := s.place?.bind Place.key?

theorem isSome_place? (s : Stmt) : s.place?.isSome = !s.isLeftOut := by
  cases s <;> rfl

end Statement

/-- Sorting by distinct keys keeps everything that has one of them. -/
theorem flatMap_filter_perm {α κ : Type} [DecidableEq κ] (key : α → κ) {keys : List κ} (distinct : keys.Nodup)
    {l : List α} {chosen : α → Bool} (has : ∀ a ∈ l, chosen a = true ↔ key a ∈ keys) :
    (keys.flatMap fun k => l.filter fun a => key a = k).Perm (l.filter chosen) := by
  induction keys generalizing chosen with
  | nil =>
      have none : l.filter chosen = [] :=
        List.filter_eq_nil_iff.mpr fun a inside taken => List.not_mem_nil ((has a inside).mp taken)
      rw [none]
      exact List.Perm.nil
  | cons first keys ih =>
      obtain ⟨apart, distinct⟩ := List.nodup_cons.mp distinct
      have atFirst : (l.filter chosen).filter (fun a => key a = first) = l.filter fun a => key a = first := by
        rw [List.filter_filter]
        refine List.filter_congr fun a inside => ?_
        by_cases same : key a = first
        · simp [same, (has a inside).mpr (same ▸ List.mem_cons_self)]
        · simp [same]
      have later : (keys.flatMap fun k => l.filter fun a => key a = k).Perm
          ((l.filter chosen).filter fun a => !decide (key a = first)) := by
        rw [List.filter_filter]
        refine ih distinct fun a inside => ?_
        by_cases same : key a = first
        · simp [same, apart]
        · simp [same, has a inside]
      rw [List.flatMap_cons, ← atFirst]
      exact (later.append_left _).trans (List.filter_append_perm _ _)

/-! ## Building a summary -/

/-- A summary as it is stored. -/
structure StoredSummary where
  method : MethodId
  /-- `lhs = new T`, as `(lhs, site)` -/
  allocations : List (VarId × SiteId) := []
  /-- `lhs = rhs`, as `(rhs, lhs)` -/
  copies : List (VarId × VarId) := []
  /-- `lhs = C.f`, as `(f, lhs)` -/
  staticLoads : List (FieldId × VarId) := []
  /-- `C.f = rhs`, as `(rhs, f)` -/
  staticStores : List (VarId × FieldId) := []
  /-- The calls without receiver. -/
  staticCalls : List CallSite := []
  /-- The statements that go through a variable, for every variable that one goes through. -/
  accesses : Std.HashMap VarId Accesses := {}

namespace StoredSummary

/-- Changes what goes through a variable. -/
def file (t : StoredSummary) (v : VarId) (change : Accesses → Accesses) : StoredSummary :=
  { t with accesses := t.accesses.alter v fun known => some (change (known.getD {})) }

/-- Adds the statement at a position of the body. -/
def visit (t : StoredSummary) (index : Nat) : Stmt → StoredSummary
  | .new lhs site => { t with allocations := t.allocations ++ [(lhs, site)] }
  | .copy lhs rhs => { t with copies := t.copies ++ [(rhs, lhs)] }
  | .loadStatic lhs f => { t with staticLoads := t.staticLoads ++ [(f, lhs)] }
  | .storeStatic f rhs => { t with staticStores := t.staticStores ++ [(rhs, f)] }
  | .loadField lhs base f => t.file base fun a => { a with loadFields := a.loadFields ++ [(f, lhs)] }
  | .storeField base f rhs => t.file base fun a => { a with storeFields := a.storeFields ++ [(f, rhs)] }
  | .loadArray lhs base => t.file base fun a => { a with loadArrays := a.loadArrays ++ [lhs] }
  | .storeArray base rhs => t.file base fun a => { a with storeArrays := a.storeArrays ++ [rhs] }
  | .invoke call =>
    match call.receiver with
    | some v => t.file v fun a => { a with calls := a.calls ++ [⟨t.method, index⟩] }
    | none => { t with staticCalls := t.staticCalls ++ [⟨t.method, index⟩] }
  | .ret _ | .nop => t

/-- The summary of a body. -/
def build (m : MethodId) (body : List Stmt) : StoredSummary :=
  body.zipIdx.foldl (fun t (s, index) => t.visit index s) { method := m }

theorem build_concat (m : MethodId) (body : List Stmt) (s : Stmt) :
    build m (body ++ [s]) = (build m body).visit body.length s := by
  simp [build, List.zipIdx_append, List.foldl_append]

/-- What goes through a variable. -/
def accessesOf (t : StoredSummary) (v : VarId) : Accesses := t.accesses[v]?.getD {}

end StoredSummary

/-! ## What is built is what the solver reads -/

section Concat

variable {m : MethodId} {body : List Stmt} {s : Stmt}

theorem filterMap_concat_of_none {α : Type} {read : Stmt → Option α} (left : read s = none) :
    (body ++ [s]).filterMap read = body.filterMap read := by
  rw [List.filterMap_append, List.filterMap_cons_none left, List.filterMap_nil, List.append_nil]

theorem filterMap_concat_of_some {α : Type} {read : Stmt → Option α} {a : α} (taken : read s = some a) :
    (body ++ [s]).filterMap read = body.filterMap read ++ [a] := by
  rw [List.filterMap_append, List.filterMap_cons_some taken, List.filterMap_nil]

theorem callSitesOf_concat (receiver : Option VarId) : callSitesOf m (body ++ [s]) receiver =
    callSitesOf m body receiver ++ if s.place? = some (.calls receiver) then [⟨m, body.length⟩] else [] := by
  rw [callSitesOf, List.zipIdx_append, List.filterMap_append]
  congr 1
  cases s with
  | invoke call => by_cases same : call.receiver = receiver <;> simp [Statement.place?, same]
  | _ => simp [Statement.place?]

theorem callSitesOf_concat_of_ne {receiver : Option VarId} (differs : s.place? ≠ some (.calls receiver)) :
    callSitesOf m (body ++ [s]) receiver = callSitesOf m body receiver := by
  rw [callSitesOf_concat, if_neg differs, List.append_nil]

theorem callSitesOf_concat_of_eq {receiver : Option VarId} (same : s.place? = some (.calls receiver)) :
    callSitesOf m (body ++ [s]) receiver = callSitesOf m body receiver ++ [⟨m, body.length⟩] := by
  rw [callSitesOf_concat, if_pos same]

end Concat

attribute [ext] Accesses

namespace Summary

/-- What goes through a variable, if anything does. -/
def accesses? (s : Summary) (v : VarId) : Option Accesses :=
  if (s.accessesOf v).isEmpty then none else some (s.accessesOf v)

variable {s next : Summary} {v : VarId}

theorem accesses?_congr (same : next.accessesOf v = s.accessesOf v) : next.accesses? v = s.accesses? v := by
  rw [accesses?, accesses?, same]

theorem accesses?_of_something (something : (s.accessesOf v).isEmpty = false) :
    s.accesses? v = some (s.accessesOf v) :=
  if_neg (Bool.eq_false_iff.mp something)

theorem getD_accesses? (s : Summary) (v : VarId) : (s.accesses? v).getD {} = s.accessesOf v := by
  unfold accesses?
  split
  · rename_i empty
    cases accesses : s.accessesOf v
    simp_all [Accesses.isEmpty]
  · rfl

/-- A statement that does not go through a variable leaves what goes through it. -/
theorem accessesOf_concat (m : MethodId) (body : List Stmt) {s : Stmt} (differs : s.key? ≠ some v) :
    (ofBody m (body ++ [s])).accessesOf v = (ofBody m body).accessesOf v := by
  have other : ∀ w, s.key? = some w → w ≠ v := fun w through same => differs (same ▸ through)
  apply Accesses.ext
  case storeFields =>
    refine filterMap_concat_of_none ?_
    cases s with
    | storeField base => exact if_neg (other base rfl)
    | _ => rfl
  case loadFields =>
    refine filterMap_concat_of_none ?_
    cases s with
    | loadField _ base => exact if_neg (other base rfl)
    | _ => rfl
  case storeArrays =>
    refine filterMap_concat_of_none ?_
    cases s with
    | storeArray base => exact if_neg (other base rfl)
    | _ => rfl
  case loadArrays =>
    refine filterMap_concat_of_none ?_
    cases s with
    | loadArray _ base => exact if_neg (other base rfl)
    | _ => rfl
  case calls =>
    refine callSitesOf_concat_of_ne fun same => differs ?_
    rw [Statement.key?, same]
    rfl

end Summary

namespace StoredSummary

/-- A stored summary has what the solver reads, and no variable in its table that nothing goes through. -/
structure Represents (t : StoredSummary) (s : Summary) : Prop where
  method : t.method = s.method
  allocations : t.allocations = s.allocations
  copies : t.copies = s.copies
  staticLoads : t.staticLoads = s.staticLoads
  staticStores : t.staticStores = s.staticStores
  staticCalls : t.staticCalls = s.staticCalls
  accesses : ∀ v, t.accesses[v]? = s.accesses? v

theorem Represents.accessesOf {t : StoredSummary} {s : Summary} (represents : t.Represents s) (v : VarId) :
    t.accessesOf v = s.accessesOf v := by
  rw [StoredSummary.accessesOf, represents.accesses, s.getD_accesses?]

section Visit

variable {t : StoredSummary} {m : MethodId} {body : List Stmt}

/-- The table after a change under one variable. -/
theorem getElem?_file {s next : Summary} {base : VarId} {change : Accesses → Accesses}
    (read : ∀ v, t.accesses[v]? = s.accesses? v) (fills : ∀ a, (change a).isEmpty = false)
    (others : ∀ v, some base ≠ some v → next.accessesOf v = s.accessesOf v)
    (changed : next.accessesOf base = change (s.accessesOf base)) (v : VarId) :
    (t.file base change).accesses[v]? = next.accesses? v := by
  have filed : (t.file base change).accesses[v]? =
      if base = v then some (change (t.accesses[base]?.getD {})) else t.accesses[v]? := by
    simp [file, Std.HashMap.getElem?_alter]
  have something : (next.accessesOf base).isEmpty = false := changed ▸ fills _
  rw [filed]
  by_cases same : base = v
  · subst same
    rw [if_pos rfl, read, s.getD_accesses?, ← changed, Summary.accesses?_of_something something]
  · rw [if_neg same, read, Summary.accesses?_congr (others v (mt Option.some.inj same))]

/-- The table after one more statement of the body. -/
theorem getElem?_visit (method : t.method = m) (read : ∀ v, t.accesses[v]? = (Summary.ofBody m body).accesses? v)
    (s : Stmt) (v : VarId) :
    (t.visit body.length s).accesses[v]? = (Summary.ofBody m (body ++ [s])).accesses? v := by
  have others : ∀ v, s.key? ≠ some v →
      (Summary.ofBody m (body ++ [s])).accessesOf v = (Summary.ofBody m body).accessesOf v := fun _ differs =>
    Summary.accessesOf_concat m body differs
  have unchanged (immediate : s.key? = none) : t.accesses[v]? = (Summary.ofBody m (body ++ [s])).accesses? v :=
    (read v).trans (Summary.accesses?_congr (others v (by simp [immediate]))).symm
  cases s with
  | new | copy | loadStatic | storeStatic | ret | nop => exact unchanged rfl
  | loadField =>
      refine getElem?_file read (fun a => by simp [Accesses.isEmpty]) others ?_ v
      apply Accesses.ext
      case loadFields => exact filterMap_concat_of_some (if_pos rfl)
      case calls => exact callSitesOf_concat_of_ne nofun
      all_goals exact filterMap_concat_of_none rfl
  | storeField =>
      refine getElem?_file read (fun a => by simp [Accesses.isEmpty]) others ?_ v
      apply Accesses.ext
      case storeFields => exact filterMap_concat_of_some (if_pos rfl)
      case calls => exact callSitesOf_concat_of_ne nofun
      all_goals exact filterMap_concat_of_none rfl
  | loadArray =>
      refine getElem?_file read (fun a => by simp [Accesses.isEmpty]) others ?_ v
      apply Accesses.ext
      case loadArrays => exact filterMap_concat_of_some (if_pos rfl)
      case calls => exact callSitesOf_concat_of_ne nofun
      all_goals exact filterMap_concat_of_none rfl
  | storeArray =>
      refine getElem?_file read (fun a => by simp [Accesses.isEmpty]) others ?_ v
      apply Accesses.ext
      case storeArrays => exact filterMap_concat_of_some (if_pos rfl)
      case calls => exact callSitesOf_concat_of_ne nofun
      all_goals exact filterMap_concat_of_none rfl
  | invoke call =>
      obtain ⟨kind, target, receiver, args, result⟩ := call
      cases receiver with
      | none => exact unchanged rfl
      | some base =>
          subst method
          refine getElem?_file read (fun a => by simp [Accesses.isEmpty]) others ?_ v
          apply Accesses.ext
          case calls => exact callSitesOf_concat_of_eq rfl
          all_goals exact filterMap_concat_of_none rfl

theorem Represents.visit (represents : t.Represents (.ofBody m body)) (s : Stmt) :
    (t.visit body.length s).Represents (.ofBody m (body ++ [s])) := by
  obtain ⟨method, allocations, copies, staticLoads, staticStores, staticCalls, accesses⟩ := represents
  have table := getElem?_visit method accesses s
  -- a statement makes one list longer and leaves the others
  have kept {α : Type} {read : Stmt → Option α} {list : List α} (same : list = body.filterMap read)
      (left : read s = none) : list = (body ++ [s]).filterMap read := same.trans (filterMap_concat_of_none left).symm
  have longer {α : Type} {read : Stmt → Option α} {list : List α} {a : α} (same : list = body.filterMap read)
      (taken : read s = some a) : list ++ [a] = (body ++ [s]).filterMap read :=
    same ▸ (filterMap_concat_of_some taken).symm
  have calls (differs : s.place? ≠ some (.calls none)) : t.staticCalls = callSitesOf m (body ++ [s]) none :=
    staticCalls.trans (callSitesOf_concat_of_ne differs).symm
  cases s with
  | new =>
      exact ⟨method, longer allocations rfl, kept copies rfl, kept staticLoads rfl, kept staticStores rfl,
        calls nofun, table⟩
  | copy =>
      exact ⟨method, kept allocations rfl, longer copies rfl, kept staticLoads rfl, kept staticStores rfl,
        calls nofun, table⟩
  | loadStatic =>
      exact ⟨method, kept allocations rfl, kept copies rfl, longer staticLoads rfl, kept staticStores rfl,
        calls nofun, table⟩
  | storeStatic =>
      exact ⟨method, kept allocations rfl, kept copies rfl, kept staticLoads rfl, longer staticStores rfl,
        calls nofun, table⟩
  | loadField | storeField | loadArray | storeArray | ret | nop =>
      exact ⟨method, kept allocations rfl, kept copies rfl, kept staticLoads rfl, kept staticStores rfl,
        calls nofun, table⟩
  | invoke call =>
      obtain ⟨kind, target, receiver, args, result⟩ := call
      cases receiver with
      | none =>
          refine ⟨method, kept allocations rfl, kept copies rfl, kept staticLoads rfl, kept staticStores rfl,
            ?_, table⟩
          show t.staticCalls ++ [⟨t.method, body.length⟩] = callSitesOf m (body ++ [_]) none
          rw [callSitesOf_concat_of_eq rfl, staticCalls, method]
          rfl
      | some base =>
          exact ⟨method, kept allocations rfl, kept copies rfl, kept staticLoads rfl, kept staticStores rfl,
            calls nofun, table⟩

end Visit

theorem represents_nil (m : MethodId) : (build m []).Represents (.ofBody m []) :=
  ⟨rfl, rfl, rfl, rfl, rfl, rfl, fun v => by
    simp [build, Summary.accesses?, Summary.accessesOf, Summary.ofBody, callSitesOf, Accesses.isEmpty]⟩

/-- What is built of a body is what the solver reads off it. -/
theorem represents_build (m : MethodId) (body : List Stmt) : (build m body).Represents (.ofBody m body) := by
  induction body using List.reverseRecOn with
  | nil => exact represents_nil m
  | append_singleton body s ih =>
      rw [build_concat]
      exact ih.visit s

/-! ## Turning entries back into statements -/

/-- The call sites under a variable, or those that are under none. -/
def sitesUnder (t : StoredSummary) : Option VarId → List CallSite
  | none => t.staticCalls
  | some v => (t.accessesOf v).calls

/-- The statements that the entries of a list stand for; a call site stands for the call that is there. -/
def restored (p : Program) (t : StoredSummary) : Place → List (Option Stmt)
  | .allocations => t.allocations.map fun (lhs, site) => some (.new lhs site)
  | .copies => t.copies.map fun (rhs, lhs) => some (.copy lhs rhs)
  | .staticLoads => t.staticLoads.map fun (f, lhs) => some (.loadStatic lhs f)
  | .staticStores => t.staticStores.map fun (rhs, f) => some (.storeStatic f rhs)
  | .storeFields base => (t.accessesOf base).storeFields.map fun (f, rhs) => some (.storeField base f rhs)
  | .loadFields base => (t.accessesOf base).loadFields.map fun (f, lhs) => some (.loadField lhs base f)
  | .storeArrays base => (t.accessesOf base).storeArrays.map fun rhs => some (.storeArray base rhs)
  | .loadArrays base => (t.accessesOf base).loadArrays.map fun lhs => some (.loadArray lhs base)
  | .calls receiver => (t.sitesUnder receiver).map fun site => (p.callAt? site).map .invoke

/-- What lists are kept under: no variable, and every variable of the table. -/
def keys (t : StoredSummary) : List (Option VarId) := none :: t.accesses.keys.map some

/-- All lists. -/
def places (t : StoredSummary) : List Place := t.keys.flatMap Place.under

/-- All call sites. -/
def callSites (t : StoredSummary) : List CallSite := t.keys.flatMap t.sitesUnder

/-- A stored summary is that of a method and loses nothing of its body. -/
structure Lossless (p : Program) (m : MethodId) (t : StoredSummary) : Prop where
  method : t.method = m
  /-- All entries together are the statements of the body, each as often as it stands there. -/
  everything : (t.places.flatMap (t.restored p)).Perm (((p.bodyOf m).filter fun s => !s.isLeftOut).map some)
  /-- Every list has the statements that belong to it and under its variable, in the order of the body. -/
  inOrder : ∀ place, t.restored p place = ((p.bodyOf m).filter fun s => s.place? = some place).map some
  /-- Calls that are equal are in the order of the body as well. -/
  ascending : ∀ key, (t.sitesUnder key).Pairwise fun first second => first.index < second.index
  /-- No call site is in two lists, or in one list twice. -/
  nodup : t.callSites.Nodup
  /-- The call sites are the positions of the calls in the body of the method. -/
  sites : ∀ site, site ∈ t.callSites ↔ site.method = m ∧ ∃ call, (p.bodyOf m)[site.index]? = some (.invoke call)

theorem nodup_keys (t : StoredSummary) : t.keys.Nodup := by
  have distinct : (t.accesses.keys.map some).Nodup := Std.HashMap.nodup_keys.map fun _ _ => Option.some.inj
  simpa [keys] using distinct

theorem some_mem_keys {t : StoredSummary} {v : VarId} : some v ∈ t.keys ↔ t.accesses[v]? ≠ none := by
  simp [keys]

theorem mem_places {t : StoredSummary} {place : Place} : place ∈ t.places ↔ place.key? ∈ t.keys := by
  simp [places, Place.mem_under]

theorem filterMap_place (place : Place) (body : List Stmt) :
    (body.filterMap fun s => if s.place? = some place then some (some s) else none) =
      (body.filter fun s => s.place? = some place).map some := by
  rw [← List.filterMap_eq_filter, List.map_filterMap]
  refine List.filterMap_congr fun s _ => ?_
  by_cases here : s.place? = some place <;> simp [Option.guard, here]

/-- What was read off the statements of a place is turned back into them. -/
theorem map_filterMap_eq {α : Type} {read : Stmt → Option α} {back : α → Option Stmt} {place : Place}
    (inverse : ∀ s, (read s).map back = if s.place? = some place then some (some s) else none) (body : List Stmt) :
    (body.filterMap read).map back = (body.filter fun s => s.place? = some place).map some := by
  rw [List.map_filterMap, ← filterMap_place]
  exact List.filterMap_congr fun s _ => inverse s

/-- The call sites of a method are turned back into its calls. -/
theorem map_callSitesOf_eq (p : Program) (m : MethodId) (receiver : Option VarId) :
    (callSitesOf m (p.bodyOf m) receiver).map (fun site => (p.callAt? site).map .invoke) =
      ((p.bodyOf m).filter fun s => s.place? = some (.calls receiver)).map some := by
  let here (s : Stmt) : Option (Option Stmt) := if s.place? = some (.calls receiver) then some (some s) else none
  calc (callSitesOf m (p.bodyOf m) receiver).map (fun site => (p.callAt? site).map .invoke)
      = (p.bodyOf m).zipIdx.filterMap fun pair => here pair.1 := by
        rw [callSitesOf, List.map_filterMap]
        refine List.filterMap_congr ?_
        rintro ⟨s, index⟩ inside
        have there : (p.bodyOf m)[index]? = some s := List.mem_zipIdx_iff_getElem?.mp inside
        cases s with
        | invoke call =>
            by_cases same : call.receiver = receiver <;>
              simp [here, Statement.place?, Program.callAt?, Statement.call?, there, same]
        | _ => simp [here, Statement.place?]
    _ = ((p.bodyOf m).zipIdx.map Prod.fst).filterMap here := by
        rw [List.filterMap_map]
        rfl
    _ = ((p.bodyOf m).filter fun s => s.place? = some (.calls receiver)).map some := by
        rw [List.zipIdx_map_fst, filterMap_place]

namespace Represents

variable {t : StoredSummary} {p : Program} {m : MethodId} (represents : t.Represents (.ofBody m (p.bodyOf m)))
include represents

theorem sitesUnder_eq (key : Option VarId) : t.sitesUnder key = callSitesOf m (p.bodyOf m) key := by
  cases key with
  | none => exact represents.staticCalls
  | some v => exact congrArg Accesses.calls (represents.accessesOf v)

theorem restored_eq (place : Place) :
    t.restored p place = ((p.bodyOf m).filter fun s => s.place? = some place).map some := by
  cases place with
  | allocations =>
      rw [restored, represents.allocations]
      exact map_filterMap_eq (fun s => by cases s <;> simp [Statement.place?]) _
  | copies =>
      rw [restored, represents.copies]
      exact map_filterMap_eq (fun s => by cases s <;> simp [Statement.place?]) _
  | staticLoads =>
      rw [restored, represents.staticLoads]
      exact map_filterMap_eq (fun s => by cases s <;> simp [Statement.place?]) _
  | staticStores =>
      rw [restored, represents.staticStores]
      exact map_filterMap_eq (fun s => by cases s <;> simp [Statement.place?]) _
  | storeFields base | loadFields base | storeArrays base | loadArrays base =>
      rw [restored, represents.accessesOf]
      exact map_filterMap_eq (fun s => by cases s <;> grind [Statement.place?]) _
  | calls receiver =>
      rw [restored, represents.sitesUnder_eq]
      exact map_callSitesOf_eq p m receiver

/-- What a statement of the body goes through is in the table. -/
theorem key_mem_keys {s : Stmt} (inside : s ∈ p.bodyOf m) {place : Place} (belongs : s.place? = some place) :
    place.key? ∈ t.keys := by
  have member : some s ∈ t.restored p place := by
    rw [represents.restored_eq]
    exact List.mem_map.mpr ⟨s, List.mem_filter.mpr ⟨inside, decide_eq_true belongs⟩, rfl⟩
  cases key : place.key? with
  | none => exact List.mem_cons_self
  | some v =>
      refine some_mem_keys.mpr fun missing => ?_
      have nothing : t.accessesOf v = {} := by simp [StoredSummary.accessesOf, missing]
      cases place <;> cases key <;> simp [restored, sitesUnder, nothing] at member

theorem everything :
    (t.places.flatMap (t.restored p)).Perm (((p.bodyOf m).filter fun s => !s.isLeftOut).map some) := by
  have lists : t.places.flatMap (t.restored p) =
      ((t.places.map some).flatMap fun key => (p.bodyOf m).filter fun s => s.place? = key).map some := by
    rw [List.flatMap_map, List.map_flatMap]
    exact congrArg t.places.flatMap (funext represents.restored_eq)
  have distinct : (t.places.map some).Nodup :=
    (Place.nodup_flatMap_under t.nodup_keys).map fun _ _ => Option.some.inj
  have placed : ∀ s ∈ p.bodyOf m, (!s.isLeftOut) = true ↔ s.place? ∈ t.places.map some := by
    intro s inside
    rw [← s.isSome_place?]
    cases belongs : s.place? with
    | none => simp
    | some place => simpa using mem_places.mpr (represents.key_mem_keys inside belongs)
  rw [lists]
  exact (flatMap_filter_perm Statement.place? distinct placed).map some

theorem mem_sitesUnder {key : Option VarId} {site : CallSite} : site ∈ t.sitesUnder key ↔
    site.method = m ∧ ∃ call, (p.bodyOf m)[site.index]? = some (.invoke call) ∧ call.receiver = key := by
  rw [represents.sitesUnder_eq, mem_callSitesOf_iff]

theorem mem_callSites {site : CallSite} : site ∈ t.callSites ↔
    site.method = m ∧ ∃ call, (p.bodyOf m)[site.index]? = some (.invoke call) := by
  rw [callSites, List.mem_flatMap]
  constructor
  · rintro ⟨key, -, listed⟩
    obtain ⟨method, call, read, -⟩ := represents.mem_sitesUnder.mp listed
    exact ⟨method, call, read⟩
  · rintro ⟨method, call, read⟩
    have known : Place.key? (.calls call.receiver) ∈ t.keys :=
      represents.key_mem_keys (List.mem_of_getElem? read) rfl
    exact ⟨call.receiver, known, represents.mem_sitesUnder.mpr ⟨method, call, read, rfl⟩⟩

theorem ascending (key : Option VarId) :
    (t.sitesUnder key).Pairwise fun first second => first.index < second.index := by
  rw [represents.sitesUnder_eq]
  exact ascending_callSitesOf m (p.bodyOf m) key

/-- A call site is in one list, because the call there has one receiver or none. -/
theorem nodup_callSites : t.callSites.Nodup := by
  refine List.nodup_flatMap.mpr ⟨fun key _ => ?_, t.nodup_keys.imp ?_⟩
  · rw [represents.sitesUnder_eq]
    exact nodup_callSitesOf m (p.bodyOf m) key
  · intro key other differ site left right
    obtain ⟨-, call, read, receiver⟩ := represents.mem_sitesUnder.mp left
    obtain ⟨-, call', read', receiver'⟩ := represents.mem_sitesUnder.mp right
    cases read.symm.trans read'
    exact differ (receiver.symm.trans receiver')

theorem lossless : t.Lossless p m :=
  ⟨represents.method, represents.everything, represents.restored_eq, represents.ascending, represents.nodup_callSites,
    fun _ => represents.mem_callSites⟩

end Represents

end StoredSummary

/-! ## Storing summaries -/

/-- The summaries of the methods that one was asked for. -/
abbrev SummaryStore := Std.HashMap MethodId StoredSummary

namespace SummaryStore

/-- Builds the summary of a method that has none yet; says whether the method has a body. -/
def request (p : Program) (store : SummaryStore) (m : MethodId) : SummaryStore × Bool :=
  if p.isAbstract m then (store, false)
  else (store.insertIfNew m (.build m (p.bodyOf m)), true)

/-- The store after requests in order. -/
def after (p : Program) (requests : List MethodId) : SummaryStore :=
  requests.foldl (fun store m => (request p store m).1) {}

theorem after_concat (p : Program) (requests : List MethodId) (m : MethodId) :
    after p (requests ++ [m]) = (request p (after p requests) m).1 :=
  List.foldl_concat ..

/-- Stored are the summaries of the methods that were asked for and are not abstract. -/
theorem getElem?_after (p : Program) (requests : List MethodId) (m : MethodId) : (after p requests)[m]? =
    if m ∈ requests ∧ p.isAbstract m = false then some (.build m (p.bodyOf m)) else none := by
  induction requests using List.reverseRecOn with
  | nil => simp [after]
  | append_singleton requests last ih =>
      rw [after_concat, request]
      split
      · rename_i abstract
        rw [ih]
        by_cases same : m = last <;> simp [same, abstract]
      · rename_i concrete
        have stored : m ∈ after p requests ↔ m ∈ requests ∧ p.isAbstract m = false := by
          rw [Std.HashMap.mem_iff_isSome_getElem?, ih]
          split <;> simp_all
        rw [Std.HashMap.getElem?_insertIfNew, ih]
        by_cases same : last = m
        · subst same
          simp [stored, concrete]
        · simp [same, Ne.symm same]

/-- Summaries lose nothing.  The summary of a method that is not abstract is stored once it was asked for, whatever
else was asked for before and after, and however often.  All its entries turned back are the statements of the body
without returns and empty statements, each in its list and under its own base or receiver, and in the order of the
body; each call has one call site.  The solver reads the same from the summary of the body. -/
theorem lossless_after {p : Program} {m : MethodId} (concrete : p.isAbstract m = false) {requests : List MethodId}
    (asked : m ∈ requests) :
    ∃ stored summary, (after p requests)[m]? = some stored ∧ p.summary? m = some summary ∧
      stored.Represents summary ∧ stored.Lossless p m := by
  have represents := StoredSummary.represents_build m (p.bodyOf m)
  refine ⟨.build m (p.bodyOf m), .ofBody m (p.bodyOf m), ?_, ?_, represents, represents.lossless⟩
  · rw [getElem?_after, if_pos ⟨asked, concrete⟩]
  · simp [Program.summary?, concrete]

end SummaryStore

/-- A program whose entry method has statements of all kinds, some of them twice. -/
def Description.errands : Description where
  classes := [
    { name := "Box"
      fields := [{ name := "content" }, { name := "last", isStatic := true }]
      methods := [
        { name := "main", isStatic := true, body := [
          .new "box" "Box", .copy "same" "box", .store (some "box") "Box.content" "same", .nop,
          .invoke .virtual "Box" "open/1" (some "box") ["same"] (some "found"),
          .load "held" (some "box") "Box.content", .store none "Box.last" "held", .load "last" none "Box.last",
          .new "row" "Box[]", .storeArray "row" "last", .loadArray "first" "row",
          .invoke .static "Box" "clear/0" none [] none, .copy "same" "box",
          .invoke .special "Box" "open/1" (some "same") ["box"] none,
          .invoke .virtual "Box" "open/1" (some "box") ["same"] (some "found"),
          .store (some "box") "Box.content" "same", .ret (some "first")] },
        { name := "open", params := ["key"], body := [.ret (some "key")] },
        { name := "clear", isStatic := true }] }]
  entry := ⟨"Box", "main/0"⟩

namespace SummaryStore

open Description (errands)

/-- The entry method is asked for between other methods, and again later. -/
theorem lossless_after_errands :
    errands.load = .ok errands.program ∧ errands.program.isAbstract 0 = false ∧ 0 ∈ [2, 0, 1, 0] ∧
    ((errands.program.bodyOf 0).filter fun s => !s.isLeftOut).length = 15 ∧
    ∃ stored summary, (after errands.program [2, 0, 1, 0])[0]? = some stored ∧
      errands.program.summary? 0 = some summary ∧ stored.Represents summary ∧ stored.Lossless errands.program 0 := by
  have concrete : errands.program.isAbstract 0 = false := by decide +kernel
  have asked : 0 ∈ [2, 0, 1, 0] := by decide
  exact ⟨by decide +kernel, concrete, asked, by decide +kernel, lossless_after concrete asked⟩

/-- Three statements go through the variable `box` of the entry method, two of them twice. -/
example :
    (Summary.ofBody 0 (errands.program.bodyOf 0)).accessesOf 0 =
      { storeFields := [(0, 1), (0, 1)], loadFields := [(0, 3)], calls := [⟨0, 4⟩, ⟨0, 14⟩] } := by
  decide +kernel

end SummaryStore

end PointsTo
