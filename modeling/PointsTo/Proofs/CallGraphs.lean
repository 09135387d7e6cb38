/- # CallGraphs -- what the operations of a call graph add

`connect` adds at most the given edge and `reach` at most the given method; neither takes anything away.  A
renamed graph has what the graph has, under its new names, and nothing else.

Main statements: `connect_spec`, `reach_spec`, and `isReachable_rename` and `hasEdge_rename` for renamed
graphs. -/
import PointsTo.CallGraph.Basic

set_option autoImplicit false

namespace PointsTo.CallGraph

variable {S M T N : Type}

theorem mem_callees [DecidableEq S] {g : CallGraph S M} {site : S} {m : M} :
    m ∈ g.callees site ↔ ∃ e ∈ g.edges, e.site = site ∧ e.callee = m := by
  simp only [callees, List.mem_map, List.mem_filter, decide_eq_true_eq, Array.mem_toList_iff]
  exact ⟨fun ⟨e, ⟨edge, here⟩, called⟩ => ⟨e, edge, here, called⟩,
    fun ⟨e, edge, here, called⟩ => ⟨e, ⟨edge, here⟩, called⟩⟩

/-! ## Adding -/

section Adding

variable [DecidableEq M]

theorem hasEdge_iff [DecidableEq S] {g : CallGraph S M} {site : S} {callee : M} :
    g.hasEdge site callee = true ↔ ∃ e ∈ g.edges, e.site = site ∧ e.callee = callee := by
  simp only [hasEdge, Array.any_eq_true', Bool.and_eq_true, decide_eq_true_eq]

theorem isReachable_iff {g : CallGraph S M} {m : M} : g.isReachable m = true ↔ m ∈ g.reachable :=
  Array.contains_iff_mem

theorem connect_spec [DecidableEq S] (g : CallGraph S M) (e : CallEdge S M) :
    (g.connect e).1.reachable = g.reachable ∧ g.edges.toList <+: (g.connect e).1.edges.toList ∧
      (∃ e' ∈ (g.connect e).1.edges, e'.site = e.site ∧ e'.callee = e.callee) ∧
      ∀ e' ∈ (g.connect e).1.edges, e' ∈ g.edges ∨ e' = e := by
  unfold connect
  split
  · rename_i old
    exact ⟨rfl, List.prefix_refl _, hasEdge_iff.mp old, fun e' edge => .inl edge⟩
  · exact ⟨rfl, by simp, ⟨e, by simp, rfl, rfl⟩, fun e' edge => by simpa using edge⟩

/-- Marking a method adds it to the reachable ones and leaves the edges alone. -/
theorem reach_spec (g : CallGraph S M) (m : M) :
    (g.reach m).1.edges = g.edges ∧ g.reachable.toList <+: (g.reach m).1.reachable.toList ∧
      ∀ other, other ∈ (g.reach m).1.reachable ↔ other ∈ g.reachable ∨ other = m := by
  unfold reach
  split
  · rename_i old
    refine ⟨rfl, List.prefix_refl _, fun other => ⟨.inl, ?_⟩⟩
    rintro (known | rfl)
    · exact known
    · exact isReachable_iff.mp old
  · simp

theorem addEntry_parts (g : CallGraph S M) (m : M) :
    (g.addEntry m).reachable = g.reachable ∧ (g.addEntry m).edges = g.edges := by
  unfold addEntry
  split <;> exact ⟨rfl, rfl⟩

end Adding

/-! ## Renaming -/

section Rename

variable [DecidableEq N] (site : S → T) (method : M → N)

theorem foldl_addEntry_parts (entries : List M) (h : CallGraph T N) :
    (entries.foldl (fun h m => h.addEntry (method m)) h).reachable = h.reachable ∧
      (entries.foldl (fun h m => h.addEntry (method m)) h).edges = h.edges := by
  induction entries generalizing h with
  | nil => exact ⟨rfl, rfl⟩
  | cons m rest ih =>
      obtain ⟨reachable, edges⟩ := ih (h.addEntry (method m))
      obtain ⟨sameReachable, sameEdges⟩ := addEntry_parts h (method m)
      exact ⟨reachable.trans sameReachable, edges.trans sameEdges⟩

theorem foldl_reach_parts (methods : List M) (h : CallGraph T N) :
    (methods.foldl (fun h m => (h.reach (method m)).1) h).edges = h.edges ∧
      ∀ n, n ∈ (methods.foldl (fun h m => (h.reach (method m)).1) h).reachable →
        n ∈ h.reachable ∨ ∃ m ∈ methods, method m = n := by
  induction methods generalizing h with
  | nil => exact ⟨rfl, fun n member => .inl member⟩
  | cons m rest ih =>
      obtain ⟨edges, reachable⟩ := ih (h.reach (method m)).1
      obtain ⟨same, -, members⟩ := reach_spec h (method m)
      refine ⟨edges.trans same, fun n member => ?_⟩
      rcases reachable n member with first | ⟨m', later, renamed⟩
      · rcases (members n).mp first with old | rfl
        · exact .inl old
        · exact .inr ⟨m, List.mem_cons_self, rfl⟩
      · exact .inr ⟨m', List.mem_cons_of_mem m later, renamed⟩

theorem foldl_connect_parts [DecidableEq T] (edges : List (CallEdge S M)) (h : CallGraph T N) :
    (edges.foldl (fun h e => (h.connect (e.rename site method)).1) h).reachable = h.reachable ∧
      ∀ e, e ∈ (edges.foldl (fun h e => (h.connect (e.rename site method)).1) h).edges →
        e ∈ h.edges ∨ ∃ e' ∈ edges, e'.rename site method = e := by
  induction edges generalizing h with
  | nil => exact ⟨rfl, fun e member => .inl member⟩
  | cons first rest ih =>
      obtain ⟨reachable, added⟩ := ih (h.connect (first.rename site method)).1
      obtain ⟨same, -, -, members⟩ := connect_spec h (first.rename site method)
      refine ⟨reachable.trans same, fun e member => ?_⟩
      rcases added e member with here | ⟨e', later, renamed⟩
      · rcases members e here with old | rfl
        · exact .inl old
        · exact .inr ⟨first, List.mem_cons_self, rfl⟩
      · exact .inr ⟨e', List.mem_cons_of_mem first later, renamed⟩

/-- Marking methods takes none away and marks each of them. -/
theorem mem_foldl_reach {n : N} (methods : List M) (h : CallGraph T N)
    (member : n ∈ h.reachable ∨ ∃ m ∈ methods, method m = n) :
    n ∈ (methods.foldl (fun h m => (h.reach (method m)).1) h).reachable := by
  induction methods generalizing h with
  | nil =>
      rcases member with old | ⟨m, impossible, -⟩
      · exact old
      · cases impossible
  | cons first rest ih =>
      obtain ⟨-, -, members⟩ := reach_spec h (method first)
      apply ih
      rcases member with old | ⟨m, inList, same⟩
      · exact .inl ((members n).mpr (.inl old))
      · rcases List.mem_cons.mp inList with rfl | later
        · exact .inl ((members n).mpr (.inr same.symm))
        · exact .inr ⟨m, later, same⟩

/-- Adding edges takes none away and connects the ends of each of them. -/
theorem hasEdge_foldl_connect [DecidableEq T] {t : T} {n : N} (edges : List (CallEdge S M))
    (h : CallGraph T N)
    (member : h.hasEdge t n = true ∨ ∃ e ∈ edges, site e.site = t ∧ method e.callee = n) :
    (edges.foldl (fun h e => (h.connect (e.rename site method)).1) h).hasEdge t n = true := by
  induction edges generalizing h with
  | nil =>
      rcases member with old | ⟨e, impossible, -⟩
      · exact old
      · cases impossible
  | cons first rest ih =>
      obtain ⟨-, grown, connected, -⟩ := connect_spec h (first.rename site method)
      apply ih
      rcases member with old | ⟨e, inList, here, called⟩
      · obtain ⟨e, edge, ends⟩ := hasEdge_iff.mp old
        have kept := grown.subset (Array.mem_toList_iff.mpr edge)
        exact .inl (hasEdge_iff.mpr ⟨e, Array.mem_toList_iff.mp kept, ends⟩)
      · rcases List.mem_cons.mp inList with rfl | later
        · obtain ⟨e', edge, sameSite, sameCallee⟩ := connected
          exact .inl (hasEdge_iff.mpr ⟨e', edge, sameSite.trans here, sameCallee.trans called⟩)
        · exact .inr ⟨e, later, here, called⟩

/-- What a renamed graph has comes from the graph. -/
theorem exists_of_mem_rename [DecidableEq T] (g : CallGraph S M) :
    (∀ n ∈ (g.rename site method).reachable, ∃ m ∈ g.reachable, method m = n) ∧
      ∀ e ∈ (g.rename site method).edges, ∃ e' ∈ g.edges, e'.rename site method = e := by
  unfold rename
  obtain ⟨entered, enteredEdges⟩ := foldl_addEntry_parts method g.entries.toList (empty : CallGraph T N)
  obtain ⟨reachedEdges, reached⟩ := foldl_reach_parts method g.reachable.toList
    (g.entries.toList.foldl (fun h m => h.addEntry (method m)) (empty : CallGraph T N))
  obtain ⟨connected, connectedEdges⟩ := foldl_connect_parts site method g.edges.toList
    (g.reachable.toList.foldl (fun h m => (h.reach (method m)).1)
      (g.entries.toList.foldl (fun h m => h.addEntry (method m)) (empty : CallGraph T N)))
  refine ⟨fun n member => ?_, fun e member => ?_⟩
  · simp only [connected] at member
    rcases reached n member with old | ⟨m, inGraph, renamed⟩
    · rw [entered] at old
      simp [empty] at old
    · exact ⟨m, Array.mem_toList_iff.mp inGraph, renamed⟩
  · rcases connectedEdges e member with old | ⟨e', inGraph, renamed⟩
    · rw [reachedEdges, enteredEdges] at old
      simp [empty] at old
    · exact ⟨e', Array.mem_toList_iff.mp inGraph, renamed⟩

/-- A renamed graph has marked what the graph has marked. -/
theorem isReachable_rename [DecidableEq T] (g : CallGraph S M) {n : N} :
    (g.rename site method).isReachable n = true ↔ ∃ m ∈ g.reachable, method m = n := by
  rw [isReachable_iff]
  constructor
  · exact (exists_of_mem_rename site method g).1 n
  · rintro ⟨m, marked, same⟩
    obtain ⟨connected, -⟩ := foldl_connect_parts site method g.edges.toList
      (g.reachable.toList.foldl (fun h m => (h.reach (method m)).1)
        (g.entries.toList.foldl (fun h m => h.addEntry (method m)) (empty : CallGraph T N)))
    show n ∈ (g.rename site method).reachable
    simp only [rename, connected]
    exact mem_foldl_reach method _ _ (.inr ⟨m, Array.mem_toList_iff.mpr marked, same⟩)

/-- A renamed graph connects what the graph connects. -/
theorem hasEdge_rename [DecidableEq T] (g : CallGraph S M) {t : T} {n : N} :
    (g.rename site method).hasEdge t n = true ↔
      ∃ e ∈ g.edges, site e.site = t ∧ method e.callee = n := by
  constructor
  · intro connected
    obtain ⟨e, edge, here, called⟩ := hasEdge_iff.mp connected
    obtain ⟨e', inGraph, rfl⟩ := (exists_of_mem_rename site method g).2 e edge
    exact ⟨e', inGraph, here, called⟩
  · rintro ⟨e, edge, here, called⟩
    apply hasEdge_foldl_connect
    exact .inr ⟨e, Array.mem_toList_iff.mpr edge, here, called⟩

end Rename

end PointsTo.CallGraph
