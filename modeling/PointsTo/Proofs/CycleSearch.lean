/- # The cycle search, step by step

The search for a cycle in small steps: a stack of nodes, each with the position of its next link, and a mark
for every node.  A step takes the next link of the node on top, or is done with it (`CycleSearch.step`).

Every recursive call of `searchCycle` is a stretch of such steps, from its node on top of the stack to the
state after it is done, or to the report of a cycle (`Simulates`).  Its path is the stack and its nodes are
distinct, so the depth is never used up; and so the steps end, with what `cycleAt?` gives (`ends_cycleAt?`).

Main statement: `finds_cycles`, for the check of the loader in any table of classes. -/
import PointsTo.Proofs.Naming
import PointsTo.Proofs.Subtypes

set_option autoImplicit false

namespace PointsTo

/-- How far a search has come with a node. -/
inductive Mark
  | unvisited
  | onStack
  | done
  deriving DecidableEq, Repr

/-- A search for a cycle in the making. -/
structure CycleSearch where
  /-- The nodes of the path, the last one first, each with the position of its next link. -/
  stack : List (Nat × Nat) := []
  marks : Nat → Mark := fun _ => .unvisited
  /-- The next node to start from. -/
  root : Nat := 0

namespace CycleSearch

variable (count : Nat) (links : Nat → List Nat)

/-- The next state, or the answer with which the search stops: the node whose link closes a cycle, or
nothing. -/
def step (s : CycleSearch) : Except (Option Nat) CycleSearch :=
  match s.stack with
  | [] =>
    if s.root < count then
      if s.marks s.root = .unvisited then
        .ok ⟨[(s.root, 0)], Function.update s.marks s.root .onStack, s.root + 1⟩
      else .ok { s with root := s.root + 1 }
    else .error none
  | (node, position) :: below =>
    match (links node)[position]? with
    | none => .ok { s with stack := below, marks := Function.update s.marks node .done }
    | some target =>
      let s := { s with stack := (node, position + 1) :: below }
      match s.marks target with
      | .onStack => .error (some node)
      | .done => .ok s
      | .unvisited =>
        .ok { s with stack := (target, 0) :: s.stack, marks := Function.update s.marks target .onStack }

/-- The search from a state stops after finitely many steps, with an answer. -/
inductive Ends : CycleSearch → Option Nat → Prop
  | stop {s : CycleSearch} {answer : Option Nat} (stops : step count links s = .error answer) : Ends s answer
  | next {s t : CycleSearch} {answer : Option Nat} (steps : step count links s = .ok t) (rest : Ends t answer) :
      Ends s answer

/-! ## Paths and done nodes as a state -/

/-- The mark of a node by a path and the done nodes. -/
def markOf (path done : List Nat) (n : Nat) : Mark :=
  if n ∈ path then .onStack else if n ∈ done then .done else .unvisited

theorem update_onStack (path done : List Nat) (node : Nat) :
    Function.update (markOf path done) node .onStack = markOf (node :: path) done := by
  funext n
  by_cases same : n = node <;> simp [markOf, same]

theorem update_done {path : List Nat} (done : List Nat) {node : Nat} (fresh : node ∉ path) :
    Function.update (markOf (node :: path) done) node .done = markOf path (node :: done) := by
  funext n
  by_cases same : n = node <;> simp [markOf, same, fresh]

/-- The state whose path is on the stack. -/
def state (stack : List (Nat × Nat)) (done : List Nat) (root : Nat) : CycleSearch :=
  ⟨stack, markOf (stack.map Prod.fst) done, root⟩

section Steps

variable {count links} {node target position root : Nat} {below : List (Nat × Nat)} {done : List Nat}

/-- A link back to the path stops the search. -/
theorem step_closing (link : (links node)[position]? = some target)
    (onPath : target ∈ node :: below.map Prod.fst) :
    step count links (state ((node, position) :: below) done root) = .error (some node) := by
  have mark : markOf (node :: below.map Prod.fst) done target = .onStack := if_pos onPath
  simp [step, state, link, mark]

/-- A link to a done node is passed over. -/
theorem step_passing (link : (links node)[position]? = some target)
    (offPath : target ∉ node :: below.map Prod.fst) (known : target ∈ done) :
    step count links (state ((node, position) :: below) done root) =
      .ok (state ((node, position + 1) :: below) done root) := by
  have mark : markOf (node :: below.map Prod.fst) done target = .done := by
    rw [markOf, if_neg offPath, if_pos known]
  simp [step, state, link, mark]

/-- A link to a new node puts it on the stack. -/
theorem step_opening (link : (links node)[position]? = some target)
    (offPath : target ∉ node :: below.map Prod.fst) (fresh : target ∉ done) :
    step count links (state ((node, position) :: below) done root) =
      .ok (state ((target, 0) :: (node, position + 1) :: below) done root) := by
  have mark : markOf (node :: below.map Prod.fst) done target = .unvisited := by
    rw [markOf, if_neg offPath, if_neg fresh]
  simp [step, state, link, mark, update_onStack]

/-- A node without further links is done. -/
theorem step_finishing (last : (links node)[position]? = none) (fresh : node ∉ below.map Prod.fst) :
    step count links (state ((node, position) :: below) done root) = .ok (state below (node :: done) root) := by
  simp [step, state, last, update_done done fresh]

theorem step_skippingRoot (inside : root < count) (known : root ∈ done) :
    step count links (state [] done root) = .ok (state [] done (root + 1)) := by
  simp [step, state, inside, markOf, known]

theorem step_startingRoot (inside : root < count) (fresh : root ∉ done) :
    step count links (state [] done root) = .ok (state [(root, 0)] done (root + 1)) := by
  simp [step, state, inside, markOf, fresh, ← update_onStack]

theorem step_last (done : List Nat) : step count links (state [] done count) = .error none := by
  simp [step, state]

end Steps

/-! ## Calls as stretches of steps -/

/-- A recursive search is a stretch of steps: to a state given by the done nodes, or to the report of its
error. -/
def Simulates (s : CycleSearch) (after : List Nat → CycleSearch) : Except Nat (List Nat) → Prop
  | .ok done => ∀ answer, Ends count links (after done) answer → Ends count links s answer
  | .error node => Ends count links s (some node)

variable {count links}

/-- A search has one answer. -/
theorem Ends.unique {s : CycleSearch} {answer other : Option Nat} (ends : Ends count links s answer)
    (ends' : Ends count links s other) : answer = other := by
  induction ends with
  | stop stops =>
      cases ends' with
      | stop stops' => exact Except.error.inj (stops.symm.trans stops')
      | next steps _ => cases stops.symm.trans steps
  | next steps _ ih =>
      cases ends' with
      | stop stops => cases stops.symm.trans steps
      | next steps' rest => exact ih (Except.ok.inj (steps'.symm.trans steps) ▸ rest)

theorem Simulates.next {s t : CycleSearch} {after : List Nat → CycleSearch} {result : Except Nat (List Nat)}
    (steps : step count links s = .ok t) (rest : Simulates count links t after result) :
    Simulates count links s after result := by
  cases result with
  | ok done => exact fun answer ends => .next steps (rest answer ends)
  | error node => exact Ends.next steps rest

/-- One stretch after another. -/
theorem Simulates.bind {s : CycleSearch} {middle after : List Nat → CycleSearch}
    {result : Except Nat (List Nat)} {more : List Nat → Except Nat (List Nat)}
    (first : Simulates count links s middle result)
    (second : ∀ done, Simulates count links (middle done) after (more done)) :
    Simulates count links s after (result >>= more) := by
  cases result with
  | error node => exact first
  | ok done =>
      show Simulates count links s after (more done)
      have rest := second done
      cases final : more done with
      | ok last =>
          rw [final] at rest
          exact fun answer ends => first answer (rest answer ends)
      | error node =>
          rw [final] at rest
          exact first _ rest

/-- A loop is a stretch of steps when each round is one. -/
theorem simulates_foldlM {nodes : List Nat} {search : List Nat → Nat → Except Nat (List Nat)}
    (before : Nat → List Nat → CycleSearch)
    (round : ∀ index node, nodes[index]? = some node → ∀ done,
      Simulates count links (before index done) (before (index + 1)) (search done node)) (done : List Nat) :
    Simulates count links (before 0 done) (before nodes.length) (nodes.foldlM search done) := by
  induction nodes generalizing before done with
  | nil => exact fun _ ends => ends
  | cons node rest ih =>
      rw [List.foldlM_cons]
      refine (round 0 node rfl done).bind fun done => ?_
      exact ih (fun index => before (index + 1)) (fun index => round (index + 1)) done

section Search

variable (inside : ∀ n < count, ∀ target ∈ links n, target < count)
include inside

/-- The search from a node on top of the stack, whose nodes are distinct. -/
theorem simulates_searchCycle {depth node root : Nat} (below : List (Nat × Nat))
    (distinct : (node :: below.map Prod.fst).Nodup) (inUse : ∀ n ∈ node :: below.map Prod.fst, n < count)
    (enough : count ≤ below.length + depth) (done : List Nat) :
    Simulates count links (state ((node, 0) :: below) done root) (fun done => state below done root)
      (searchCycle links depth (below.map Prod.fst) done node) := by
  induction depth generalizing node below done with
  | zero =>
      -- So many distinct nodes there are not.
      have room := length_lt_of_path distinct inUse
      rw [List.length_map] at room
      omega
  | succ depth ih =>
      have round : ∀ position target, (links node)[position]? = some target → ∀ done,
          Simulates count links (state ((node, position) :: below) done root)
            (fun done => state ((node, position + 1) :: below) done root)
            (if target ∈ node :: below.map Prod.fst then .error node
              else if target ∈ done then .ok done
              else searchCycle links depth (node :: below.map Prod.fst) done target) := by
        intro position target link done
        split
        · rename_i onPath
          exact .stop (step_closing link onPath)
        · rename_i offPath
          split
          · rename_i known
            exact fun answer ends => .next (step_passing link offPath known) ends
          · rename_i fresh
            refine .next (step_opening link offPath fresh) ?_
            have target_lt := inside node (inUse node List.mem_cons_self) target (List.mem_of_getElem? link)
            refine ih ((node, position + 1) :: below) (List.nodup_cons.mpr ⟨offPath, distinct⟩)
              (List.forall_mem_cons.mpr ⟨target_lt, inUse⟩) ?_ done
            rw [List.length_cons]
            omega
      rw [searchCycle]
      refine (simulates_foldlM (fun position done => state ((node, position) :: below) done root)
        round done).bind fun done => ?_
      have last : (links node)[(links node).length]? = none := List.getElem?_eq_none (Nat.le_refl _)
      exact fun answer ends => .next (step_finishing last (List.nodup_cons.mp distinct).1) ends

/-- The search ends, with what `cycleAt?` gives. -/
theorem ends_cycleAt? : Ends count links {} (cycleAt? count links) := by
  have round : ∀ index root, (List.range count)[index]? = some root → ∀ done,
      Simulates count links (state [] done index) (fun done => state [] done (index + 1))
        (if root ∈ done then Except.ok done else searchCycle links count [] done root) := by
    intro index root here done
    obtain ⟨inUse, rfl⟩ := List.getElem?_eq_some_iff.mp here
    rw [List.length_range] at inUse
    rw [List.getElem_range]
    split
    · rename_i known
      exact fun answer ends => .next (step_skippingRoot inUse known) ends
    · rename_i fresh
      refine .next (step_startingRoot inUse fresh) ?_
      refine simulates_searchCycle inside [] (List.nodup_singleton index) ?_ (Nat.le_add_left _ _) done
      intro n same
      rw [List.map_nil, List.mem_singleton] at same
      exact same ▸ inUse
  have whole := simulates_foldlM (fun index done => state [] done index) round []
  rw [List.length_range] at whole
  have start : state [] [] 0 = {} := rfl
  rw [start] at whole
  unfold cycleAt?
  generalize ((List.range count).foldlM _ [] : Except Nat (List Nat)) = result at whole ⊢
  cases result with
  | ok done => exact whole none (.stop (step_last done))
  | error node => exact whole

end Search

end CycleSearch

/-! ## The check of the loader -/

/-- A step and what follows it fail when the step does or the rest does on its result. -/
theorem bind_eq_error_iff {ε α β : Type} {x : Except ε α} {f : α → Except ε β} {cause : ε} :
    x >>= f = .error cause ↔ x = .error cause ∨ ∃ a, x = .ok a ∧ f a = .error cause := by
  cases x <;> simp [bind, Except.bind]

/-- A traversal fails as it does for some element. -/
theorem exists_of_mapM_eq_error {ε α β : Type} {f : α → Except ε β} {xs : List α} {cause : ε}
    (failed : xs.mapM f = .error cause) : ∃ x ∈ xs, f x = .error cause := by
  induction xs with
  | nil => cases failed
  | cons x rest ih =>
      rw [List.mapM_cons, bind_eq_error_iff] at failed
      rcases failed with here | ⟨y, -, failed⟩
      · exact ⟨x, List.mem_cons_self, here⟩
      · rcases bind_eq_error_iff.mp failed with later | ⟨ys, -, never⟩
        · obtain ⟨x', member, same⟩ := ih later
          exact ⟨x', List.mem_cons_of_mem x member, same⟩
        · cases never

namespace Description

/-- The described classes have distinct names and declared supertypes, and make a table. -/
def Tabulates (d : Description) (p : Program) : Prop :=
  (d.classes.map (·.name)).Nodup ∧
    ∃ links, d.classes.mapM d.resolveLinks = .ok links ∧ p = d.withLinks links

variable {d : Description} {p : Program} {name : String}

theorem Tabulates.declared (table : d.Tabulates p) : d.Declared p := by
  obtain ⟨-, links, linked, rfl⟩ := table
  exact declared_withLinks linked

/-- A fault of a body is no cycle. -/
theorem mapM_resolveBodies_ne_cycle : d.classes.mapM p.resolveBodies ≠ .error (.cycle name) := by
  intro failed
  obtain ⟨c, -, inClass⟩ := exists_of_mapM_eq_error failed
  obtain ⟨m, -, inMethod⟩ := exists_of_mapM_eq_error inClass
  cases body : m.body.mapM p.resolveStatement <;> simp [body] at inMethod

/-- Neither is a fault of the entry. -/
theorem resolveEntry_ne_cycle : d.resolveEntry p ≠ .error (.cycle name) := by
  intro failed
  rcases bind_eq_error_iff.mp failed with unknown | ⟨c, -, failed⟩
  · unfold resolveClass at unknown
    split at unknown <;> cases unknown
  · split at failed
    · cases failed
    · split at failed <;> cases failed

/-- A table is refused for what the search finds in it, and for nothing else. -/
theorem Tabulates.skeleton_eq (table : d.Tabulates p) :
    d.skeleton = match cycleAt? p.classes.size p.supertypesOf with
      | some c => .error (.cycle ((d.classes[c]?.map (·.name)).getD ""))
      | none => .ok p := by
  obtain ⟨distinct, links, linked, rfl⟩ := table
  have unique := firstRepeat?_eq_none_iff.mpr ⟨distinct, fun _ _ => List.not_mem_nil⟩
  unfold skeleton
  rw [unique, linked]
  rfl

/-- A load reports a cycle exactly when the search finds one, by the name of the class that it finds. -/
theorem Tabulates.load_eq_cycle_iff (table : d.Tabulates p) :
    d.load = .error (.cycle name) ↔
      ∃ c, cycleAt? p.classes.size p.supertypesOf = some c ∧ p.classes[c]?.map (·.name) = some name := by
  have declared := table.declared
  have skeleton := table.skeleton_eq
  unfold load
  cases found : cycleAt? p.classes.size p.supertypesOf with
  | none =>
      rw [skeleton, found]
      constructor
      · intro failed
        rcases bind_eq_error_iff.mp failed with never | ⟨_, -, failed⟩
        · cases never
        rcases bind_eq_error_iff.mp failed with inBodies | ⟨_, -, failed⟩
        · exact absurd inBodies mapM_resolveBodies_ne_cycle
        rcases bind_eq_error_iff.mp failed with atEntry | ⟨_, -, never⟩
        · exact absurd atEntry resolveEntry_ne_cycle
        · cases never
      · rintro ⟨c, found', -⟩
        cases found'
  | some c =>
      have inUse : c < p.classes.size :=
        (cycle_of_cycleAt? (fun _ _ _ => declared.lt_of_mem_supertypesOf) found).1
      have here := List.getElem?_eq_getElem (declared.size ▸ inUse)
      obtain ⟨class', there, at'⟩ := declared.made here
      rw [skeleton, found]
      simp [here, there, at'.name, bind, Except.bind]

end Description

namespace Program

variable {p : Program}

/-- Only a class of the table has links. -/
theorem lt_of_passes {c d : ClassId} (passes : Passes p.supertypesOf c d) : c < p.classes.size := by
  obtain ⟨_, link, -⟩ := Relation.TransGen.head'_iff.mp passes
  exact List.mem_range.mp (mem_classIds_of_mem_supertypesOf link)

theorem exists_cycleAt?_iff (inside : ∀ c < p.classes.size, ∀ s ∈ p.supertypesOf c, s < p.classes.size) :
    (∃ c, cycleAt? p.classes.size p.supertypesOf = some c) ↔ ∃ c, Passes p.supertypesOf c c := by
  rw [← Option.ne_none_iff_exists', ne_eq, cycleAt?_eq_none_iff inside]
  push Not
  exact ⟨fun ⟨c, _, cycle⟩ => ⟨c, cycle⟩, fun ⟨c, cycle⟩ => ⟨c, lt_of_passes cycle, cycle⟩⟩

/-- What the search for supertype cycles does in a table of classes. -/
structure FindsCycles (p : Program) : Prop where
  /-- Step by step it comes to its end, with one answer. -/
  ends : ∀ answer, CycleSearch.Ends p.classes.size p.supertypesOf {} answer ↔
    answer = cycleAt? p.classes.size p.supertypesOf
  reports : (∃ c, cycleAt? p.classes.size p.supertypesOf = some c) ↔ ∃ c, Passes p.supertypesOf c c
  onCycle : ∀ c, cycleAt? p.classes.size p.supertypesOf = some c → Passes p.supertypesOf c c
  /-- A description with this table is refused for a cycle exactly when there is one. -/
  refused : ∀ d : Description, d.Tabulates p →
    ((∃ name, d.load = .error (.cycle name)) ↔ ∃ c, Passes p.supertypesOf c c)
  /-- The class that is named then lies on a cycle. -/
  named : ∀ d : Description, d.Tabulates p → ∀ name, d.load = .error (.cycle name) →
    ∃ c, p.classes[c]?.map (·.name) = some name ∧ Passes p.supertypesOf c c

/-- The search for supertype cycles ends in every table of classes, and finds one exactly when there is one. -/
theorem finds_cycles (inside : ∀ c < p.classes.size, ∀ s ∈ p.supertypesOf c, s < p.classes.size) :
    p.FindsCycles := by
  have onCycle : ∀ c, cycleAt? p.classes.size p.supertypesOf = some c → Passes p.supertypesOf c c :=
    fun c found => (cycle_of_cycleAt? inside found).2
  refine ⟨?ends, exists_cycleAt?_iff inside, onCycle, ?refused, ?named⟩
  case ends =>
    have ends := CycleSearch.ends_cycleAt? inside
    exact fun answer => ⟨fun other => other.unique ends, fun same => same ▸ ends⟩
  case refused =>
    intro d table
    simp only [table.load_eq_cycle_iff, ← exists_cycleAt?_iff inside]
    constructor
    · rintro ⟨_, c, found, -⟩
      exact ⟨c, found⟩
    · rintro ⟨c, found⟩
      have there := Array.getElem?_eq_getElem (cycle_of_cycleAt? inside found).1
      exact ⟨_, c, found, by rw [there]; rfl⟩
  case named =>
    intro d table name refused
    obtain ⟨c, found, isNamed⟩ := table.load_eq_cycle_iff.mp refused
    exact ⟨c, isNamed, onCycle c found⟩

end Program

/-- Two diamonds over shared interfaces, one of them named twice; then two classes below each other, and a
class below itself. -/
def Description.tangled : Description where
  classes := [
    { name := "Top", isInterface := true },
    { name := "Left", isInterface := true, interfaces := ["Top"] },
    { name := "Right", isInterface := true, interfaces := ["Top", "Top"] },
    { name := "Base", interfaces := ["Left", "Right"] },
    { name := "Bottom", super := some "Base", interfaces := ["Left", "Right", "Left"] },
    { name := "Ping", super := some "Pong", interfaces := ["Top"] },
    { name := "Pong", super := some "Base", interfaces := ["Ping"] },
    { name := "Self", super := some "Self" }]
  entry := ⟨"Bottom", "main/0"⟩

/-- The table of the first classes of `tangled`. -/
def Description.tangledTable (classes : Nat) : Program :=
  let d := { Description.tangled with classes := Description.tangled.classes.take classes }
  match d.classes.mapM d.resolveLinks with
  | .ok links => d.withLinks links
  | .error _ => {}

open Description (tangled tangledTable)

/-- The diamonds alone have no cycle, and the search names the second class of the first cycle. -/
theorem Program.finds_cycles_tangled :
    (∀ c < 5, ∀ s ∈ (tangledTable 5).supertypesOf c, s < 5) ∧
      (tangledTable 5).FindsCycles ∧ cycleAt? 5 (tangledTable 5).supertypesOf = none ∧
    (∀ c < 8, ∀ s ∈ (tangledTable 8).supertypesOf c, s < 8) ∧
      (tangledTable 8).FindsCycles ∧ cycleAt? 8 (tangledTable 8).supertypesOf = some 6 ∧
      tangled.load = .error (.cycle "Pong") := by
  have diamonds : ∀ c < 5, ∀ s ∈ (tangledTable 5).supertypesOf c, s < 5 := by decide +kernel
  have cycles : ∀ c < 8, ∀ s ∈ (tangledTable 8).supertypesOf c, s < 8 := by decide +kernel
  have five : (tangledTable 5).classes.size = 5 := by decide +kernel
  have eight : (tangledTable 8).classes.size = 8 := by decide +kernel
  refine ⟨diamonds, finds_cycles ?_, by decide +kernel, cycles, finds_cycles ?_, by decide +kernel,
    by decide +kernel⟩
  · rwa [five]
  · rwa [eight]

end PointsTo
