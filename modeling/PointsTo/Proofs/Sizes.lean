/- # Sizes -- how much a program can name

A program has finitely many statements, so there are finitely many call sites and allocation sites, and
finitely many contexts of a bounded depth over them.  All are counted against `Program.parts`.

Main statements: `length_statements_le`, `length_callSites_le` and `length_allocatedSites_le` for what the
bodies hold, `lt_of_dispatch` for the methods that are run, and `length_listsUpTo_le` for contexts. -/
import Mathlib.Algebra.Order.BigOperators.Group.List
import Mathlib.Data.List.Perm.Subperm
import Mathlib.Tactic.Ring
import PointsTo.Proofs.WellFormed
import PointsTo.Solver.Run

set_option autoImplicit false

namespace PointsTo

theorem total_eq_sum (xs : List Nat) : total xs = xs.sum := by
  induction xs with
  | nil => rfl
  | cons x rest ih => simp [total, ih]

/-- Distinct elements of a list are no more than the list has. -/
theorem length_le_of_nodup {α : Type} {xs ys : List α} (distinct : xs.Nodup) (subset : xs ⊆ ys) :
    xs.length ≤ ys.length :=
  (distinct.subperm subset).length_le

/-! ## Lists over an alphabet -/

section Lists

variable {α : Type} (alphabet : List α)

/-- The lists over an alphabet that have at most `bound` elements. -/
def listsUpTo : Nat → List (List α)
  | 0 => [[]]
  | bound + 1 => [] :: alphabet.flatMap fun a => (listsUpTo bound).map (a :: ·)

variable {alphabet}

theorem mem_listsUpTo {bound : Nat} {xs : List α} (known : ∀ a ∈ xs, a ∈ alphabet)
    (short : xs.length ≤ bound) : xs ∈ listsUpTo alphabet bound := by
  induction xs generalizing bound with
  | nil => cases bound <;> simp [listsUpTo]
  | cons a rest ih =>
      cases bound with
      | zero => simp at short
      | succ bound =>
          have inRest := ih (fun b member => known b (List.mem_cons_of_mem a member))
            (Nat.le_of_succ_le_succ short)
          refine List.mem_cons_of_mem _ (List.mem_flatMap.mpr ⟨a, known a List.mem_cons_self, ?_⟩)
          exact List.mem_map.mpr ⟨rest, inRest, rfl⟩

theorem length_listsUpTo_le (bound : Nat) :
    (listsUpTo alphabet bound).length ≤ (alphabet.length + 1) ^ bound := by
  induction bound with
  | zero => simp [listsUpTo]
  | succ bound ih =>
      have positive : 1 ≤ (alphabet.length + 1) ^ bound := Nat.one_le_pow _ _ (Nat.succ_pos _)
      have count : (listsUpTo alphabet (bound + 1)).length =
          alphabet.length * (listsUpTo alphabet bound).length + 1 := by
        simp [listsUpTo, List.length_flatMap]
      calc (listsUpTo alphabet (bound + 1)).length
          = alphabet.length * (listsUpTo alphabet bound).length + 1 := count
        _ ≤ alphabet.length * (alphabet.length + 1) ^ bound + (alphabet.length + 1) ^ bound :=
            Nat.add_le_add (Nat.mul_le_mul_left _ ih) positive
        _ = (alphabet.length + 1) ^ (bound + 1) := by rw [Nat.pow_succ']; ring

end Lists

namespace Program

/-! ## Statements and sites -/

/-- The statements of all bodies. -/
def statements (p : Program) : List Stmt := (List.range p.methods.size).flatMap p.bodyOf

/-- The call sites of all bodies, and the positions of the other statements. -/
def callSites (p : Program) : List CallSite :=
  (List.range p.methods.size).flatMap fun m => (List.range (p.bodyOf m).length).map fun i => ⟨m, i⟩

/-- The sites of all allocations. -/
def allocatedSites (p : Program) : List SiteId := p.statements.filterMap (·.allocation?)

/-- The fields of all statements. -/
def namedFields (p : Program) : List FieldId := p.statements.flatMap (·.fields)

section Parts

variable (p : Program)

theorem map_bodyOf :
    (List.range p.methods.size).map p.bodyOf = p.methods.toList.map (·.body) := by
  refine List.ext_getElem (by simp) fun m below _ => ?_
  have inUse : m < p.methods.size := by simpa using below
  simp [bodyOf, Array.getElem?_eq_getElem inUse]

/-- Bodies, parameters and returned variables of one method are counted among the parts. -/
theorem length_method_le {m : MethodId} :
    (p.bodyOf m).length + (p.paramsOf m).length + (p.returnsOf m).length ≤ p.parts := by
  cases read : p.methods[m]? with
  | none => simp [bodyOf, paramsOf, returnsOf, read]
  | some method =>
      have member : method ∈ p.methods.toList :=
        Array.mem_toList_iff.mpr (Array.mem_of_getElem? read)
      have counted := le_total_of_mem (List.mem_map_of_mem
        (f := fun m : Method => m.body.length + m.params.length + m.returns.length) member)
      simp only [bodyOf, paramsOf, returnsOf, read, Option.map_some, Option.getD_some]
      unfold parts
      omega

/-- The statements of all bodies, counted in two ways. -/
theorem sum_length_bodyOf : ((List.range p.methods.size).map fun m => (p.bodyOf m).length).sum =
    total (p.methods.toList.map fun m => m.body.length) := by
  have mapped := congrArg (List.map List.length) p.map_bodyOf
  simp only [List.map_map, Function.comp_def] at mapped
  rw [mapped, total_eq_sum]

theorem total_bodies_le : total (p.methods.toList.map fun m => m.body.length) ≤ p.parts := by
  have counted : (p.methods.toList.map fun m => m.body.length).sum ≤
      (p.methods.toList.map fun m => m.body.length + m.params.length + m.returns.length).sum :=
    List.sum_le_sum fun m _ => by omega
  rw [← total_eq_sum, ← total_eq_sum] at counted
  unfold parts
  omega

theorem length_statements_le : p.statements.length ≤ p.parts := by
  rw [statements, List.length_flatMap, sum_length_bodyOf]
  exact p.total_bodies_le

theorem length_callSites : p.callSites.length = total (p.methods.toList.map fun m => m.body.length) := by
  rw [← sum_length_bodyOf, callSites, List.length_flatMap]
  simp only [List.length_map, List.length_range]

theorem length_callSites_le : p.callSites.length ≤ p.parts :=
  p.length_callSites ▸ p.total_bodies_le

theorem length_allocatedSites_le : p.allocatedSites.length ≤ p.parts :=
  Nat.le_trans (List.length_filterMap_le _ _) p.length_statements_le

theorem length_namedFields_le : p.namedFields.length ≤ p.parts := by
  have short : ∀ statements : List Stmt, (statements.flatMap (·.fields)).length ≤ statements.length := by
    intro statements
    induction statements with
    | nil => simp
    | cons s rest ih =>
        have one : s.fields.length ≤ 1 := by cases s <;> simp [Statement.fields]
        rw [List.flatMap_cons, List.length_append, List.length_cons]
        omega
  exact Nat.le_trans (short p.statements) p.length_statements_le

end Parts

section Members

variable {p : Program}

theorem lt_of_mem_bodyOf {m : MethodId} {s : Stmt} (inBody : s ∈ p.bodyOf m) : m < p.methods.size := by
  by_contra outside
  have none : p.methods[m]? = none := Array.getElem?_eq_none (Nat.le_of_not_lt outside)
  simp [bodyOf, none] at inBody

theorem mem_statements {m : MethodId} {s : Stmt} (inBody : s ∈ p.bodyOf m) : s ∈ p.statements :=
  List.mem_flatMap.mpr ⟨m, List.mem_range.mpr (lt_of_mem_bodyOf inBody), inBody⟩

theorem mem_callSites {site : CallSite} {call : Invocation VarId}
    (statement : p.callAt? site = some call) : site ∈ p.callSites := by
  have read := getElem?_of_callAt? statement
  have inBody := lt_of_mem_bodyOf (List.mem_of_getElem? read)
  have inRange := (List.getElem?_eq_some_iff.mp read).1
  exact List.mem_flatMap.mpr ⟨site.method, List.mem_range.mpr inBody,
    List.mem_map.mpr ⟨site.index, List.mem_range.mpr inRange, rfl⟩⟩

theorem mem_allocatedSites {site : SiteId} (allocates : p.Allocates site) : site ∈ p.allocatedSites := by
  obtain ⟨m, lhs, statement⟩ := allocates
  exact List.mem_filterMap.mpr ⟨_, mem_statements statement, rfl⟩

theorem mem_namedFields {f : FieldId} (named : p.Names f) : f ∈ p.namedFields := by
  obtain ⟨m, s, statement, inFields⟩ := named
  exact List.mem_flatMap.mpr ⟨s, mem_statements statement, inFields⟩

end Members

/-! ## Methods that are run -/

theorem lt_of_declaredMethod? {p : Program} {c : ClassId} {subsignature : String} {m : MethodId}
    (declared : p.declaredMethod? c subsignature = some m) : m < p.methods.size := by
  have named := List.find?_some declared
  rw [decide_eq_true_eq, Option.map_eq_some_iff] at named
  obtain ⟨method, read, -⟩ := named
  exact (Array.getElem?_eq_some_iff.mp read).1

theorem lt_of_dispatch {p : Program} {c : ClassId} {subsignature : String} {m : MethodId}
    (found : p.dispatch c subsignature = some m) : m < p.methods.size := by
  obtain ⟨d, -, implemented⟩ := List.exists_of_findSome?_eq_some found
  obtain ⟨declared, -⟩ := Option.filter_eq_some_iff.mp implemented
  exact lt_of_declaredMethod? declared

/-- What a call resolves to is the result of a dispatch. -/
theorem exists_dispatch_of_resolveCall {V : Type} {p : Program} {receiver : Option TypeRef}
    {call : Invocation V} {m : MethodId} (resolved : (p.resolveCall receiver call).target? = some m) :
    ∃ c, p.dispatch c call.target.subsignature = some m := by
  unfold resolveCall at resolved
  split at resolved
  · split at resolved
    · cases resolved
    · split at resolved
      · exact ⟨_, by rwa [Resolution.target?_ofLookup] at resolved⟩
      · cases resolved
    · rw [Resolution.target?_ofLookup] at resolved
      obtain ⟨c, -, dispatched⟩ := Option.bind_eq_some_iff.mp resolved
      exact ⟨c, dispatched⟩
  · exact ⟨_, by rwa [Resolution.target?_ofLookup] at resolved⟩

theorem lt_of_resolveCall {V : Type} {p : Program} {receiver : Option TypeRef}
    {call : Invocation V} {m : MethodId} (resolved : (p.resolveCall receiver call).target? = some m) :
    m < p.methods.size := by
  obtain ⟨c, dispatched⟩ := exists_dispatch_of_resolveCall resolved
  exact lt_of_dispatch dispatched

/-! ## Elements of contexts -/

/-- What the contexts of a run are made of. -/
def elements (p : Program) : List ContextElement :=
  p.callSites.map .site ++ (List.range p.allocatedSites.length).map .object ++
    p.allocatedSites.map fun site => .type (p.objectAt site).container

theorem length_elements_le (p : Program) : p.elements.length ≤ 3 * p.parts := by
  have calls := p.length_callSites_le
  have sites := p.length_allocatedSites_le
  simp only [elements, List.length_append, List.length_map, List.length_range]
  omega

end Program

end PointsTo
