/- # CallCounts -- what the statistics of a call graph count

The statistics of a call graph drop contexts, and so does merging.  The statistics keep the first edge of every call
site and merging the first of every pair of a call site and a callee, so the two agree because merging keeps edges in
order: the first edge of a site is the first of its pair (`kindAt?_rename`), and the callees of a site are those of
all its edges (`calleesAt_rename`).  Everything that is counted is read off the sites, their kinds and their callees
(`calledSites_eq`).

Main statement: `counts_after`, for graphs with contexts and without. -/
import Mathlib.Algebra.Order.BigOperators.Group.List
import Mathlib.Data.List.Dedup
import Mathlib.Data.Set.Card
import PointsTo.CallGraph.Statistics
import PointsTo.Proofs.CallRecords
import PointsTo.Proofs.Sizes

set_option autoImplicit false

namespace PointsTo

/-! ## Counting -/

section Counting

variable {α : Type} {xs : List α}

/-- Elements that count for nothing need not be listed. -/
theorem total_filter (keep : α → Bool) (size : α → Nat) (nothing : ∀ x ∈ xs, keep x = false → size x = 0) :
    total ((xs.filter keep).map size) = total (xs.map size) := by
  induction xs with
  | nil => rfl
  | cons x rest ih =>
      have later := ih fun y member => nothing y (List.mem_cons_of_mem x member)
      cases kept : keep x with
      | true => simp [kept, total, later]
      | false => simp [kept, total, later, nothing x List.mem_cons_self kept]

/-- First and last occurrences are occurrences of the same elements. -/
theorem perm_eraseDups_dedup [DecidableEq α] (xs : List α) : xs.eraseDups.Perm xs.dedup :=
  (List.perm_ext_iff_of_nodup (nodup_eraseDups xs) xs.nodup_dedup).mpr fun x => by
    rw [List.mem_eraseDups, List.mem_dedup]

/-- Nothing is repeated where leaving out repetitions leaves out nothing. -/
theorem nodup_of_length_eraseDups [DecidableEq α] (same : xs.eraseDups.length = xs.length) : xs.Nodup := by
  have length := (perm_eraseDups_dedup xs).length_eq.symm.trans same
  exact List.dedup_eq_self.mp (xs.dedup_sublist.eq_of_length length)

/-- Counting how often each element occurs counts all occurrences. -/
theorem total_count_eraseDups [DecidableEq α] (xs : List α) :
    total (xs.eraseDups.map fun x => xs.count x) = xs.length := by
  rw [total_eq_sum, ((perm_eraseDups_dedup xs).map _).sum_eq]
  exact List.sum_map_count_dedup_eq_length xs

/-- The elements of a list that satisfy a property, counted as a set. -/
theorem length_filter_eq_ncard [DecidableEq α] (distinct : xs.Nodup) (keep : α → Bool) :
    (xs.filter keep).length = {x | x ∈ xs ∧ keep x = true}.ncard := by
  have members : {x | x ∈ xs ∧ keep x = true} = ((xs.filter keep).toFinset : Set α) := by
    ext x
    simp
  rw [members, Set.ncard_coe_finset, List.toFinset_card_of_nodup (distinct.filter keep)]

/-- A list without repetitions has one element when all its members are equal, and has any. -/
theorem length_eq_one_iff_of_nodup (distinct : xs.Nodup) (member : ∃ x, x ∈ xs) :
    xs.length = 1 ↔ ∃ x, ∀ y ∈ xs, y = x := by
  constructor
  · intro single
    obtain ⟨x, rfl⟩ := List.length_eq_one_iff.mp single
    exact ⟨x, fun y => List.mem_singleton.mp⟩
  · rintro ⟨x, all⟩
    cases xs with
    | nil => simp at member
    | cons first others =>
        cases others with
        | nil => rfl
        | cons second rest =>
            have repeated : first = second :=
              (all first List.mem_cons_self).trans (all second (List.mem_cons_of_mem _ List.mem_cons_self)).symm
            exact absurd (repeated ▸ List.mem_cons_self) (List.nodup_cons.mp distinct).1

end Counting

/-! ## Kinds -/

section Kinds

variable {α : Type} (kind : α → CallKind)

theorem total_kinds (size : α → Nat) (xs : List α) :
    total (CallKind.all.map fun k => total ((xs.filter fun x => kind x = k).map size)) = total (xs.map size) := by
  induction xs with
  | nil => rfl
  | cons x rest ih =>
      simp only [CallKind.all, List.map_cons, List.map_nil, total, List.filter_cons] at ih ⊢
      cases kind x <;> simp [total] <;> omega

/-- The kinds that have elements. -/
def kindsOf (xs : List α) : List CallKind := CallKind.all.filter fun k => !(xs.filter fun x => kind x = k).isEmpty

/-- Sums by kind add up to the sum of all. -/
theorem total_kindsOf (size : α → Nat) (xs : List α) :
    total ((kindsOf kind xs).map fun k => total ((xs.filter fun x => kind x = k).map size)) = total (xs.map size) := by
  rw [← total_kinds kind size xs, kindsOf]
  refine total_filter _ _ fun k _ unused => ?_
  have none : xs.filter (fun x => kind x = k) = [] := by simpa using unused
  rw [none]
  rfl

/-- The number that is listed for a kind, zero when there is none. -/
theorem lookup_kindsOf (xs : List α) (k : CallKind) :
    (((kindsOf kind xs).map fun k => (k, (xs.filter fun x => kind x = k).length)).lookup k).getD 0 =
      (xs.filter fun x => kind x = k).length := by
  by_cases used : k ∈ kindsOf kind xs
  · rw [List.lookup_graph (fun k => (xs.filter fun x => kind x = k).length) used, Option.getD_some]
  · have nothing : (xs.filter fun x => kind x = k).length = 0 := by
      have listed : k ∈ CallKind.all := by cases k <;> decide
      simpa [kindsOf, listed] using used
    have missing : ((kindsOf kind xs).map fun k => (k, (xs.filter fun x => kind x = k).length)).lookup k = none := by
      rw [List.lookup_eq_none_iff]
      rintro ⟨other, n⟩ member
      obtain ⟨k', listed, same⟩ := List.mem_map.mp member
      cases same
      simpa using fun same : k = other => used (same ▸ listed)
    rw [missing, nothing]
    rfl

theorem length_dynamic (xs : List α) : (xs.filter fun x => (kind x).isDynamic).length =
    (xs.filter fun x => kind x = .virtual).length + (xs.filter fun x => kind x = .interface).length := by
  have either : ∀ k : CallKind, k.isDynamic = (decide (k = .virtual) || decide (k = .interface)) := by
    rintro (_ | _ | _ | _) <;> rfl
  simp only [either]
  induction xs with
  | nil => rfl
  | cons x rest ih =>
      simp only [List.filter_cons]
      cases kind x <;> simp <;> omega

end Kinds

namespace CallGraph

/-! ## Renaming -/

section Renamed

variable {S M T N : Type} [DecidableEq T] [DecidableEq N] (site : S → T) (method : M → N) (g : CallGraph S M)

/-- A renamed graph is made by asking for all parts of the graph under their new names. -/
theorem made_rename : Made (g.entries.toList.map (fun m => .enter (method m)) ++
    g.reachable.toList.map (fun m => .reach (method m)) ++
    g.edges.toList.map fun e => .connect (e.rename site method)) (g.rename site method) := by
  have again : g.rename site method = after (g.entries.toList.map (fun m => .enter (method m)) ++
      g.reachable.toList.map (fun m => .reach (method m)) ++
      g.edges.toList.map fun e => .connect (e.rename site method)) := by
    simp only [rename, after, List.foldl_append, List.foldl_map, apply]
  rw [again]
  exact made_after _

theorem reachable_rename :
    (g.rename site method).reachable.toList = (g.reachable.toList.map method).eraseDups := by
  rw [(made_rename site method g).reachable]
  simp [List.filterMap_append, List.filterMap_map, Function.comp_def, Operation.reached?]

/-- The edges of a renamed graph are the first of each pair of a call site and a callee. -/
theorem edges_rename : (g.rename site method).edges.toList =
    firstsOn CallEdge.call (g.edges.toList.map fun e => e.rename site method) := by
  rw [(made_rename site method g).edges]
  simp [List.filterMap_append, List.filterMap_map, Function.comp_def, Operation.edge?]

end Renamed

/-! ## Call sites in all contexts -/

section Sites

variable {S M : Type} (site : S → CallSite) (method : M → MethodId) (g : CallGraph S M)

/-- The call sites that have an edge in some context, in the order of their first edges. -/
def linkedSites : List CallSite := (g.edges.toList.map fun e => site e.site).eraseDups

/-- The kind of a call site, which is that of its first edge in any context. -/
def kindAt? (s : CallSite) : Option CallKind := (g.edges.toList.find? fun e => site e.site = s).map (·.kind)

/-- The methods that a call site leads to in all contexts together. -/
def calleesAt (s : CallSite) : List MethodId :=
  ((g.edges.toList.filter fun e => site e.site = s).map fun e => method e.callee).eraseDups

theorem mem_linkedSites {s : CallSite} : s ∈ g.linkedSites site ↔ ∃ e ∈ g.edges, site e.site = s := by
  simp [linkedSites]

theorem mem_calleesAt {s : CallSite} {m : MethodId} :
    m ∈ g.calleesAt site method s ↔ ∃ e ∈ g.edges, site e.site = s ∧ method e.callee = m := by
  simp [calleesAt, and_assoc]

theorem nodup_linkedSites : (g.linkedSites site).Nodup := nodup_eraseDups _

theorem nodup_calleesAt (s : CallSite) : (g.calleesAt site method s).Nodup := nodup_eraseDups _

/-- The sites that are counted, each with what it has in all contexts. -/
theorem calledSites_eq : g.calledSites site method = (g.linkedSites site).map fun s =>
    ⟨s, (g.kindAt? site s).getD .static, g.calleesAt site method s⟩ := by
  have sites : (g.edges.toList.map fun e => e.rename site method).map (·.site) =
      g.edges.toList.map fun e => site e.site := by
    rw [List.map_map]
    rfl
  unfold calledSites
  dsimp only
  rw [sites]
  refine (List.filterMap_congr fun s linked => ?_).trans (congrFun List.filterMap_eq_map' _)
  have part : (g.edges.toList.map fun e => e.rename site method).filter (fun e => e.site = s) =
      (g.edges.toList.filter fun e => site e.site = s).map fun e => e.rename site method := by
    rw [List.filter_map]
    rfl
  rw [part, kindAt?, ← List.head?_filter, calleesAt]
  obtain ⟨e, edge, here⟩ := (g.mem_linkedSites site).mp linked
  have member : e ∈ g.edges.toList.filter fun e => site e.site = s :=
    List.mem_filter.mpr ⟨Array.mem_toList_iff.mpr edge, decide_eq_true here⟩
  cases edges : g.edges.toList.filter fun e => site e.site = s with
  | nil => rw [edges] at member; cases member
  | cons first others => simp [CallEdge.rename, Function.comp_def]

theorem linkedSites_rename : (g.rename site method).linkedSites id = g.linkedSites site := by
  rw [linkedSites, edges_rename]
  refine (eraseDups_map_firstsOn CallEdge.call Prod.fst _).trans ?_
  rw [List.map_map]
  rfl

/-- The first edge of a call site is the first with its callee as well. -/
theorem kindAt?_rename (s : CallSite) : (g.rename site method).kindAt? id s = g.kindAt? site s := by
  rw [kindAt?, edges_rename]
  have search := find?_firstsOn CallEdge.call (fun call => decide (call.1 = s))
    (g.edges.toList.map fun e => e.rename site method)
  refine (congrArg (Option.map _) search).trans ?_
  rw [List.find?_map, Option.map_map]
  rfl

/-- In the renamed graph every callee of a call site has one edge. -/
theorem map_callee_rename (s : CallSite) :
    ((g.rename site method).edges.toList.filter fun e => e.site = s).map (·.callee) = g.calleesAt site method s := by
  rw [edges_rename, callees_firstsOn, List.filter_map, List.map_map]
  rfl

theorem calleesAt_rename (s : CallSite) : (g.rename site method).calleesAt id id s = g.calleesAt site method s := by
  refine (congrArg List.eraseDups (map_callee_rename site method g s)).trans ?_
  exact eraseDups_of_nodup (g.nodup_calleesAt site method s)

theorem calledSites_rename :
    (g.rename site method).calledSites id id = g.calledSites site method := by
  simp only [calledSites_eq, linkedSites_rename, kindAt?_rename, calleesAt_rename]

/-- Merging leaves the statistics as they are. -/
theorem statistics_rename : (g.rename site method).statistics id id = g.statistics site method := by
  have methods : ((g.rename site method).reachable.toList.map id).eraseDups =
      (g.reachable.toList.map method).eraseDups := by
    rw [List.map_id, reachable_rename, eraseDups_of_nodup (nodup_eraseDups _)]
  unfold statistics
  rw [methods, calledSites_rename]

end Sites

/-! ## Counts -/

section Counts

variable {S M : Type} (site : S → CallSite) (method : M → MethodId) (g : CallGraph S M)

/-- The first edge of a call site is of a dynamic kind. -/
def Dynamic (s : CallSite) : Prop := ∃ kind, g.kindAt? site s = some kind ∧ kind.isDynamic = true

/-- The edges of a call site lead to one method in all contexts. -/
def Monomorphic (s : CallSite) : Prop := ∃ m, ∀ e ∈ g.edges, site e.site = s → method e.callee = m

/-- What the counts of a graph are of; `merged` is the graph without contexts. -/
structure Counts (merged : PlainCallGraph) (counts : CallStatistics) : Prop where
  /-- The graph without contexts has the same counts. -/
  same : merged.statistics = counts
  reachableMethods : counts.reachableMethods = merged.reachable.size
  callEdges : counts.callEdges = merged.edges.size
  edgesByKind : counts.callEdges = total (counts.edgesByKind.map (·.2))
  /-- Every call site with an edge counts for one kind. -/
  sitesByKind : total (counts.sitesByKind.map (·.2)) = {s | ∃ e ∈ g.edges, site e.site = s}.ncard
  dynamic : counts.monomorphic + counts.polymorphic =
    (counts.sitesByKind.lookup .virtual).getD 0 + (counts.sitesByKind.lookup .interface).getD 0
  monomorphic : counts.monomorphic = {s | g.Dynamic site s ∧ g.Monomorphic site method s}.ncard
  polymorphic : counts.polymorphic = {s | g.Dynamic site s ∧ ¬g.Monomorphic site method s}.ncard

theorem length_calleesAt_eq_one_iff {s : CallSite} (linked : s ∈ g.linkedSites site) :
    (g.calleesAt site method s).length = 1 ↔ g.Monomorphic site method s := by
  obtain ⟨e, edge, here⟩ := (g.mem_linkedSites site).mp linked
  have member : ∃ m, m ∈ g.calleesAt site method s :=
    ⟨method e.callee, (g.mem_calleesAt site method).mpr ⟨e, edge, here, rfl⟩⟩
  rw [length_eq_one_iff_of_nodup (g.nodup_calleesAt site method s) member]
  refine exists_congr fun m => ⟨fun all e edge here => ?_, fun all other listed => ?_⟩
  · exact all _ ((g.mem_calleesAt site method).mpr ⟨e, edge, here, rfl⟩)
  · obtain ⟨e, edge, here, rfl⟩ := (g.mem_calleesAt site method).mp listed
    exact all e edge here

theorem mem_linkedSites_of_dynamic {s : CallSite} (dynamic : g.Dynamic site s) : s ∈ g.linkedSites site := by
  obtain ⟨kind, known, -⟩ := dynamic
  obtain ⟨e, found, -⟩ := Option.map_eq_some_iff.mp known
  exact (g.mem_linkedSites site).mpr
    ⟨e, Array.mem_toList_iff.mp (List.mem_of_find?_eq_some found), by simpa using List.find?_some found⟩

theorem isDynamic_getD_iff {s : CallSite} :
    ((g.kindAt? site s).getD .static).isDynamic = true ↔ g.Dynamic site s := by
  cases known : g.kindAt? site s <;> simp [Dynamic, known, CallKind.isDynamic]

/-- The dynamic call sites with a number of callees that passes a test, as a set. -/
theorem length_dynamicSites (test : Nat → Bool) {Counted : CallSite → Prop}
    (means : ∀ s ∈ g.linkedSites site, test (g.calleesAt site method s).length = true ↔ Counted s) :
    (((g.calledSites site method).filter fun s => s.kind.isDynamic).filter fun s => test s.callees.length).length =
      {s | g.Dynamic site s ∧ Counted s}.ncard := by
  rw [calledSites_eq, List.filter_filter, List.filter_map, List.length_map,
    length_filter_eq_ncard (g.nodup_linkedSites site)]
  congr 1
  ext s
  simp only [Function.comp_apply, Bool.and_eq_true, Set.mem_ofPred_eq, isDynamic_getD_iff]
  constructor
  · rintro ⟨linked, counted, dynamic⟩
    exact ⟨dynamic, (means s linked).mp counted⟩
  · rintro ⟨dynamic, counted⟩
    have linked := g.mem_linkedSites_of_dynamic site dynamic
    exact ⟨linked, (means s linked).mpr counted, dynamic⟩

/-- The edges of the merged graph are counted at their call sites. -/
theorem callEdges_statistics :
    (g.statistics site method).callEdges = (g.rename site method).edges.size := by
  let sites := (g.rename site method).edges.toList.map (·.site)
  have linked : sites.eraseDups = g.linkedSites site := linkedSites_rename site method g
  have each : ∀ s, sites.count s = (g.calleesAt site method s).length := by
    intro s
    rw [← map_callee_rename, List.length_map, List.count_eq_countP, List.countP_map, List.countP_eq_length_filter]
    congr 2
  calc (g.statistics site method).callEdges
      = total ((g.linkedSites site).map fun s => (g.calleesAt site method s).length) := by
        rw [statistics, calledSites_eq, List.map_map]
        rfl
    _ = total (sites.eraseDups.map fun s => sites.count s) := by simp only [linked, each]
    _ = sites.length := total_count_eraseDups sites
    _ = (g.rename site method).edges.size := by rw [List.length_map, Array.length_toList]

/-- Every call site with an edge counts for one kind. -/
theorem total_sitesByKind : total ((g.statistics site method).sitesByKind.map (·.2)) =
    {s | ∃ e ∈ g.edges, site e.site = s}.ncard := by
  let sites := g.calledSites site method
  calc total ((g.statistics site method).sitesByKind.map (·.2))
      = total ((kindsOf CalledSite.kind sites).map fun k => (sites.filter fun s => s.kind = k).length) := by
        rw [statistics, List.map_map]
        rfl
    _ = sites.length := by simpa [total_eq_sum] using total_kindsOf CalledSite.kind (fun _ => 1) sites
    _ = (g.linkedSites site).length := (congrArg List.length (calledSites_eq site method g)).trans (List.length_map _)
    _ = {s | ∃ e ∈ g.edges, site e.site = s}.ncard := by
        rw [← List.toFinset_card_of_nodup (g.nodup_linkedSites site), ← Set.ncard_coe_finset]
        congr 1
        ext s
        simp [mem_linkedSites]

/-- Dynamic call sites are those of the two dynamic kinds. -/
theorem total_dynamicSites :
    (g.statistics site method).monomorphic + (g.statistics site method).polymorphic =
      ((g.statistics site method).sitesByKind.lookup .virtual).getD 0 +
        ((g.statistics site method).sitesByKind.lookup .interface).getD 0 := by
  let sites := g.calledSites site method
  have split : (sites.filter fun s => s.kind.isDynamic).length = _ :=
    List.length_eq_length_filter_add fun s => decide (s.callees.length = 1)
  have both := length_dynamic CalledSite.kind sites
  rw [← lookup_kindsOf CalledSite.kind sites .virtual, ← lookup_kindsOf CalledSite.kind sites .interface,
    split] at both
  simp only [← decide_not] at both
  exact both

theorem counts : Counts site method g (g.rename site method) (g.statistics site method) := by
  constructor
  case same => exact statistics_rename site method g
  case reachableMethods =>
    rw [← Array.length_toList, reachable_rename]
    rfl
  case callEdges => exact callEdges_statistics site method g
  case edgesByKind =>
    refine (total_kindsOf CalledSite.kind (fun s => s.callees.length) (g.calledSites site method)).symm.trans ?_
    rw [statistics, List.map_map]
    rfl
  case sitesByKind => exact total_sitesByKind site method g
  case dynamic => exact total_dynamicSites site method g
  case monomorphic =>
    have means : ∀ s ∈ g.linkedSites site, decide ((g.calleesAt site method s).length = 1) = true ↔
        g.Monomorphic site method s :=
      fun s linked => decide_eq_true_iff.trans (length_calleesAt_eq_one_iff site method g linked)
    exact length_dynamicSites site method g (fun n => decide (n = 1)) means
  case polymorphic =>
    have means : ∀ s ∈ g.linkedSites site, decide ((g.calleesAt site method s).length ≠ 1) = true ↔
        ¬g.Monomorphic site method s :=
      fun s linked => decide_eq_true_iff.trans (not_congr (length_calleesAt_eq_one_iff site method g linked))
    exact length_dynamicSites site method g (fun n => decide (n ≠ 1)) means

end Counts

/-- Whatever operations made a graph, with contexts or without, its statistics are those of the graph without
contexts, and count its edges, its call sites and the callees of these. -/
theorem counts_after :
    (∀ operations : List (Operation QualifiedSite QualifiedMethod),
      Counts (·.site) (·.method) (after operations) (ContextCallGraph.project (after operations))
        (ContextCallGraph.statistics (after operations))) ∧
    ∀ operations : List (Operation CallSite MethodId),
      Counts id id (after operations) ((after operations).rename id id)
        (PlainCallGraph.statistics (after operations)) :=
  ⟨fun operations => counts _ _ (after operations), fun operations => counts _ _ (after operations)⟩

/-- A call site that is virtual at first, with two callees in one context and one of them again in another. -/
example :
    let g : ContextCallGraph := after [.reach ⟨0, 0⟩, .reach ⟨1, 0⟩,
      .connect ⟨⟨0, 0, 2⟩, .virtual, ⟨0, 0⟩, ⟨0, 3⟩⟩,
      .connect ⟨⟨0, 0, 2⟩, .static, ⟨0, 0⟩, ⟨0, 4⟩⟩,
      .connect ⟨⟨1, 0, 2⟩, .interface, ⟨1, 0⟩, ⟨0, 3⟩⟩]
    g.edges.size = 3 ∧ g.statistics = ⟨1, 2, [(.virtual, 1)], [(.virtual, 2)], 0, 1⟩ := by
  decide +kernel

end CallGraph

end PointsTo
