/- # Acyclicity -- the search for a cycle finds one exactly when there is one

A depth-first search reports a node whose link leads back to the path from the root, so there is a cycle
through that node.  When it reports none, the nodes that it is done with are layered: each has all its links
to nodes that were done before (`Layered`), and no cycle fits into layers.  The depth of the search is enough
because the nodes of a path are distinct.

Main statements: `cycleAt?_eq_none_iff` and `cycle_of_cycleAt?`.  A chain of links in a graph without cycles is
no longer than the graph has nodes either (`length_lt_of_path`). -/
import Mathlib.Data.List.Perm.Subperm
import PointsTo.Loading.Acyclic
import PointsTo.Proofs.Searching

set_option autoImplicit false

namespace PointsTo

variable {links : Nat → List Nat} {count : Nat}

/-- One or more links lead from one node to another. -/
def Passes (links : Nat → List Nat) : Nat → Nat → Prop := Relation.TransGen fun a b => b ∈ links a

/-- Distinct nodes of a graph before another one are fewer than the graph has. -/
theorem length_lt_of_path {path : List Nat} {node : Nat} (distinct : (node :: path).Nodup)
    (inside : ∀ n ∈ node :: path, n < count) : path.length < count := by
  have subset : node :: path ⊆ List.range count := fun n member => List.mem_range.mpr (inside n member)
  have length := (distinct.subperm subset).length_le
  rw [List.length_cons, List.length_range] at length
  exact length

/-! ## Layers -/

/-- Every node has links to later nodes of the list only. -/
def Layered (links : Nat → List Nat) : List Nat → Prop
  | [] => True
  | node :: rest => (∀ target ∈ links node, target ∈ rest) ∧ Layered links rest

/-- No link leads out of layers. -/
theorem Layered.closed {nodes : List Nat} (layered : Layered links nodes) {a b : Nat} (member : a ∈ nodes)
    (link : b ∈ links a) : b ∈ nodes := by
  induction nodes with
  | nil => cases member
  | cons node rest ih =>
      rcases List.mem_cons.mp member with rfl | later
      · exact List.mem_cons_of_mem _ (layered.1 b link)
      · exact List.mem_cons_of_mem _ (ih layered.2 later)

theorem Layered.mem_of_reaches {nodes : List Nat} (layered : Layered links nodes) {a b : Nat}
    (member : a ∈ nodes) (reaches : Reaches links a b) : b ∈ nodes := by
  induction reaches with
  | refl => exact member
  | tail _ link ih => exact layered.closed ih link

/-- There is no cycle within layers: the first link of one would lead to later nodes, and the others stay
there. -/
theorem Layered.acyclic {nodes : List Nat} (layered : Layered links nodes) {n : Nat} (member : n ∈ nodes) :
    ¬ Passes links n n := by
  induction nodes with
  | nil => cases member
  | cons node rest ih =>
      by_cases later : n ∈ rest
      · exact ih layered.2 later
      · have first : n = node := (List.mem_cons.mp member).resolve_right later
        intro cycle
        obtain ⟨target, link, back⟩ := Relation.TransGen.head'_iff.mp cycle
        have below : target ∈ rest := layered.1 target (first ▸ link)
        exact later (layered.2.mem_of_reaches below back)

/-! ## The search -/

/-- What a search for some targets ends with: layers with all of them, or a node on a cycle. -/
def Searched (links : Nat → List Nat) (count : Nat) (done targets : List Nat) :
    Except Nat (List Nat) → Prop
  | .ok result => Layered links result ∧ done ⊆ result ∧ targets ⊆ result
  | .error node => node < count ∧ Passes links node node

theorem searched_foldlM {targets : List Nat} {search : List Nat → Nat → Except Nat (List Nat)}
    (each : ∀ done target, Layered links done → target ∈ targets →
      Searched links count done [target] (search done target))
    {done : List Nat} (layered : Layered links done) :
    Searched links count done targets (targets.foldlM search done) := by
  induction targets generalizing done with
  | nil => exact ⟨layered, List.Subset.refl _, List.nil_subset _⟩
  | cons target rest ih =>
      have first := each done target layered List.mem_cons_self
      rw [List.foldlM_cons]
      cases answer : search done target with
      | error node =>
          rw [answer] at first
          exact first
      | ok next =>
          rw [answer] at first
          obtain ⟨still, grown, found⟩ := first
          have others := ih (fun done other layered member =>
            each done other layered (List.mem_cons_of_mem _ member)) still
          show Searched links count done (target :: rest) (rest.foldlM search next)
          cases final : rest.foldlM search next with
          | error node =>
              rw [final] at others
              exact others
          | ok result =>
              rw [final] at others
              obtain ⟨layers, more, all⟩ := others
              have here : target ∈ result := more (found (List.mem_singleton_self target))
              exact ⟨layers, List.Subset.trans grown more, List.cons_subset.mpr ⟨here, all⟩⟩

section Search

variable (inside : ∀ n < count, ∀ target ∈ links n, target < count)
include inside

/-- A search from a node at the end of a path. -/
theorem searched_searchCycle {depth : Nat} {path done : List Nat} {node : Nat}
    (distinct : (node :: path).Nodup) (below : ∀ n ∈ node :: path, n < count)
    (leads : ∀ n ∈ path, Passes links n node) (enough : count ≤ path.length + depth)
    (layered : Layered links done) :
    Searched links count done [node] (searchCycle links depth path done node) := by
  induction depth generalizing path done node with
  | zero =>
      have room := length_lt_of_path distinct below
      omega
  | succ depth ih =>
      have each : ∀ done target, Layered links done → target ∈ links node →
          Searched links count done [target]
            (if target ∈ node :: path then .error node
              else if target ∈ done then .ok done
              else searchCycle links depth (node :: path) done target) := by
        intro done target layered link
        split
        · rename_i onPath
          refine ⟨below node List.mem_cons_self, ?_⟩
          rcases List.mem_cons.mp onPath with rfl | earlier
          · exact Relation.TransGen.single link
          · exact Relation.TransGen.head link (leads target earlier)
        · rename_i offPath
          split
          · rename_i known
            exact ⟨layered, List.Subset.refl _, List.cons_subset.mpr ⟨known, List.nil_subset _⟩⟩
          · apply ih
            · exact List.nodup_cons.mpr ⟨offPath, distinct⟩
            · intro n member
              rcases List.mem_cons.mp member with rfl | earlier
              · exact inside node (below node List.mem_cons_self) n link
              · exact below n earlier
            · intro n member
              rcases List.mem_cons.mp member with rfl | earlier
              · exact Relation.TransGen.single link
              · exact Relation.TransGen.tail (leads n earlier) link
            · rw [List.length_cons]
              omega
            · exact layered
      have targets := searched_foldlM each layered
      unfold searchCycle
      generalize ((links node).foldlM _ done : Except Nat (List Nat)) = answer at targets ⊢
      cases answer with
      | error found => exact targets
      | ok result =>
          obtain ⟨layers, grown, all⟩ := targets
          show Searched links count done [node] (.ok (node :: result))
          refine ⟨⟨fun target link => all link, layers⟩, ?_, ?_⟩
          · exact List.Subset.trans grown (List.subset_cons_self _ _)
          · exact List.cons_subset.mpr ⟨List.mem_cons_self, List.nil_subset _⟩

/-- The search from every node: layers with all nodes, or a node on a cycle. -/
theorem searched_cycleAt? :
    match cycleAt? count links with
    | none => ∃ done, Layered links done ∧ List.range count ⊆ done
    | some node => node < count ∧ Passes links node node := by
  have each : ∀ done root, Layered links done → root ∈ List.range count →
      Searched links count done [root]
        (if root ∈ done then Except.ok done else searchCycle links count [] done root) := by
    intro done root layered member
    split
    · rename_i known
      exact ⟨layered, List.Subset.refl _, List.cons_subset.mpr ⟨known, List.nil_subset _⟩⟩
    · apply searched_searchCycle inside
      · exact List.pairwise_singleton _ root
      · intro n same
        rw [List.mem_singleton.mp same]
        exact List.mem_range.mp member
      · exact fun n impossible => absurd impossible List.not_mem_nil
      · exact Nat.le_add_left _ _
      · exact layered
  have start : Layered links [] := trivial
  have searched := searched_foldlM each start
  unfold cycleAt?
  generalize ((List.range count).foldlM _ [] : Except Nat (List Nat)) = answer at searched ⊢
  cases answer with
  | error node => exact searched
  | ok done => exact ⟨done, searched.1, searched.2.2⟩

/-- The node that is reported lies on a cycle. -/
theorem cycle_of_cycleAt? {node : Nat} (found : cycleAt? count links = some node) :
    node < count ∧ Passes links node node := by
  have searched := searched_cycleAt? inside
  rw [found] at searched
  exact searched

/-- No node is reported exactly when no node lies on a cycle. -/
theorem cycleAt?_eq_none_iff : cycleAt? count links = none ↔ ∀ n < count, ¬ Passes links n n := by
  constructor
  · intro nothing n bound
    have searched := searched_cycleAt? inside
    rw [nothing] at searched
    obtain ⟨done, layered, all⟩ := searched
    exact layered.acyclic (all (List.mem_range.mpr bound))
  · intro acyclic
    cases found : cycleAt? count links with
    | none => rfl
    | some node =>
        obtain ⟨bound, cycle⟩ := cycle_of_cycleAt? inside found
        exact absurd cycle (acyclic node bound)

end Search

end PointsTo
