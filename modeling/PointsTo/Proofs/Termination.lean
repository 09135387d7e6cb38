/- # Termination -- every run of the solver ends

A step that learns nothing takes a piece of work away; a step that learns something queues at most
`State.most` pieces, and there is only so much to learn, since a run gives out boundedly many numbers
(`State.learnable`).  So what is still to be learned, times `most`, together with the length of the queue goes
down with every step (`potential_step_lt`), whatever is copied, stored or called in a circle.

Main statement: `run_finished`, the analysis comes to its end within the rounds that `State.run` takes. -/
import Mathlib.Data.Finset.Prod
import Mathlib.Data.Finset.Sum
import PointsTo.Proofs.Bounds
import PointsTo.Proofs.Loaded
import PointsTo.Proofs.Queue

set_option autoImplicit false

namespace PointsTo.State

variable {setting : Setting} {s t next : State}

/-! ## Bounds that do not depend on the state -/

/-- A number that no count of contexts or objects of a run exceeds, and whose square no count of nodes
exceeds. -/
def limit (setting : Setting) : Nat :=
  (4 * (setting.program.parts + 1)) ^ (setting.policy.depth + setting.policy.heapDepth + 1)

theorem parts_lt_limit (setting : Setting) : 4 * (setting.program.parts + 1) ≤ limit setting :=
  Nat.le_self_pow (Nat.succ_ne_zero _) _

/-- Contexts leave room for a factor as large as the program. -/
theorem contexts_mul_le (listed : s.Listed setting) (valid : s.Valid setting) :
    s.contexts.size * (4 * (setting.program.parts + 1)) ≤ limit setting := by
  have deep : max setting.policy.depth setting.policy.heapDepth ≤
      setting.policy.depth + setting.policy.heapDepth := by omega
  unfold limit
  rw [Nat.pow_succ]
  refine Nat.mul_le_mul_right _ ?_
  calc s.contexts.size
      ≤ (3 * setting.program.parts + 1) ^ max setting.policy.depth setting.policy.heapDepth :=
        listed.contexts_size_le valid
    _ ≤ (4 * (setting.program.parts + 1)) ^ max setting.policy.depth setting.policy.heapDepth :=
        Nat.pow_le_pow_left (by omega) _
    _ ≤ (4 * (setting.program.parts + 1)) ^ (setting.policy.depth + setting.policy.heapDepth) :=
        Nat.pow_le_pow_right (by omega) deep

theorem heap_size_le_parts (listed : s.Listed setting) (valid : s.Valid setting) :
    s.heap.size ≤ setting.program.parts :=
  Nat.le_trans (listed.heap_size_le valid) setting.program.length_allocatedSites_le

theorem contexts_size_le_limit (listed : s.Listed setting) (valid : s.Valid setting) :
    s.contexts.size ≤ limit setting :=
  Nat.le_trans (Nat.le_mul_of_pos_right _ (by omega)) (contexts_mul_le listed valid)

theorem objects_size_le_limit (listed : s.Listed setting) (valid : s.Valid setting) :
    s.objects.size ≤ limit setting := by
  have heap := heap_size_le_parts listed valid
  calc s.objects.size ≤ s.contexts.size * s.heap.size := valid.objects_size_le
    _ ≤ s.contexts.size * (4 * (setting.program.parts + 1)) := Nat.mul_le_mul_left _ (by omega)
    _ ≤ limit setting := contexts_mul_le listed valid

theorem nodes_size_le_limit (listed : s.Listed setting) (consistent : s.Consistent setting) :
    s.network.graph.nodes.size ≤ limit setting * limit setting := by
  have fields := setting.program.length_namedFields_le
  have vars : setting.program.vars.size ≤ setting.program.parts := by unfold Program.parts; omega
  have large := parts_lt_limit setting
  have objects := objects_size_le_limit listed consistent.toValid
  have locals : s.contexts.size * setting.program.vars.size ≤ limit setting :=
    Nat.le_trans (Nat.mul_le_mul_left _ (by omega)) (contexts_mul_le listed consistent.toValid)
  have objectFields : s.objects.size * setting.program.namedFields.length ≤
      limit setting * setting.program.parts := Nat.mul_le_mul objects fields
  have room : limit setting * (setting.program.parts + 3) ≤ limit setting * limit setting :=
    Nat.mul_le_mul_left _ (by omega)
  have counted := consistent.nodes_size_le
  rw [Nat.mul_add] at room
  omega

/-! ## Order in the network -/

theorem Change.ordered (change : Change setting s t) (ordered : s.network.Ordered) :
    t.network.Ordered := by
  cases change with
  | report _ => exact ordered
  | node _ => exact Network.ordered_node ordered _
  | flow _ _ => exact Network.ordered_flow ordered _ _ _
  | seed _ _ _ => exact Network.ordered_seed ordered _ _
  | call _ _ _ => exact Network.ordered_announce ordered _
  | numberObject _ _ => exact ordered
  | numberStatic _ _ => exact ordered
  | numberInstance _ _ _ => exact ordered

theorem Reached.ordered (wellFormed : setting.program.WellFormed) (run : Reached setting s) :
    s.network.Ordered := by
  refine run.invariant wellFormed ?_ (fun _ => Change.ordered) ?_ ?_
  · exact Network.ordered_announce Network.ordered_empty _
  · exact fun _ popped ordered => Network.ordered_of_pop ordered popped
  · intro s id set rest _ popped ordered
    obtain ⟨whole, -, -⟩ := Network.toList_of_pop? popped
    have sent : set.Ordered := ordered.pending id set (by rw [whole]; exact List.mem_cons_self)
    exact (Network.ordered_absorb (Network.ordered_of_pop ordered popped) id sent).1

/-! ## What there is to learn -/

/-- What a state has learned for good: methods that are marked and objects that are in sets. -/
def Learned (s : State) : (ContextId × MethodId) ⊕ (NodeId × QualifiedObjectId) → Prop
  | .inl (c, m) => ⟨c, m⟩ ∈ s.calls.reachable
  | .inr (id, o) => o ∈ s.network.points.points id

/-- All that any state of a run can learn. -/
def learnable (setting : Setting) : Finset ((ContextId × MethodId) ⊕ (NodeId × QualifiedObjectId)) :=
  (Finset.range (limit setting) ×ˢ insert setting.entry (Finset.range (limit setting))).disjSum
    (Finset.range (limit setting * limit setting) ×ˢ Finset.range (limit setting))

instance (s : State) : DecidablePred s.Learned
  | .inl (c, m) => inferInstanceAs (Decidable ((⟨c, m⟩ : QualifiedMethod) ∈ s.calls.reachable))
  | .inr (id, o) => inferInstanceAs (Decidable (o ∈ s.network.points.points id))

/-- The count of what a state has learned. -/
def learned (setting : Setting) (s : State) : Nat :=
  ((learnable setting).filter s.Learned).card

theorem learned_le (setting : Setting) (s : State) : learned setting s ≤ (learnable setting).card :=
  Finset.card_filter_le _ _

theorem learned_mono (grown : ∀ x, s.Learned x → t.Learned x) :
    learned setting s ≤ learned setting t :=
  Finset.card_le_card (Finset.monotone_filter_right _ fun x _ => grown x)

theorem learned_lt (grown : ∀ x, s.Learned x → t.Learned x) {x} (member : x ∈ learnable setting)
    (new : t.Learned x) (unknown : ¬ s.Learned x) : learned setting s < learned setting t := by
  refine Finset.card_lt_card (Finset.ssubset_iff_subset_ne.mpr
    ⟨Finset.monotone_filter_right _ fun x _ => grown x, fun same => unknown ?_⟩)
  have there := Finset.mem_filter.mpr ⟨member, new⟩
  rw [← same] at there
  exact (Finset.mem_filter.mp there).2

theorem Grows.learned (grown : s.Grows t) (x) (known : s.Learned x) : t.Learned x := by
  rcases x with ⟨c, m⟩ | ⟨id, o⟩
  · exact mem_of_prefix grown.reachable known
  · exact grown.network.points id o known

section Learnable

variable (wellFormed : setting.program.WellFormed) (run : Reached setting s)
include wellFormed run

/-- A method that is expected can be learned. -/
theorem Reached.method_mem_learnable {c : ContextId} {m : MethodId} (expected : s.Expected (.reach c m)) :
    .inl (c, m) ∈ learnable setting := by
  have consistent := run.consistent wellFormed
  have context : c < s.contexts.size := consistent.facts expected
  have room := contexts_size_le_limit (run.listed wellFormed) consistent.toValid
  have methods : setting.program.methods.size ≤ setting.program.parts := by unfold Program.parts; omega
  have large := parts_lt_limit setting
  refine Finset.inl_mem_disjSum.mpr (Finset.mem_product.mpr
    ⟨Finset.mem_range.mpr (Nat.lt_of_lt_of_le context room), ?_⟩)
  rcases run.declared wellFormed expected with rfl | below
  · exact Finset.mem_insert_self _ _
  · exact Finset.mem_insert_of_mem (Finset.mem_range.mpr (Nat.lt_of_lt_of_le below (by omega)))

/-- An object that arrives at a node can be learned. -/
theorem Reached.object_mem_learnable {id : NodeId} {o : QualifiedObjectId}
    (arrives : s.network.Arrives id o) : o < s.objects.size ∧ .inr (id, o) ∈ learnable setting := by
  have consistent := run.consistent wellFormed
  have node := consistent.arrivals arrives
  obtain ⟨p, pointer⟩ := Table.exists_key?_of_lt node
  have expected : s.Expected (.holds p o) := ⟨id, pointer, arrives⟩
  have object : o < s.objects.size := (consistent.facts expected).2
  have nodes := nodes_size_le_limit (run.listed wellFormed) consistent
  have objects := objects_size_le_limit (run.listed wellFormed) consistent.toValid
  refine ⟨object, Finset.inr_mem_disjSum.mpr (Finset.mem_product.mpr ⟨?_, ?_⟩)⟩
  · exact Finset.mem_range.mpr (Nat.lt_of_lt_of_le node nodes)
  · exact Finset.mem_range.mpr (Nat.lt_of_lt_of_le object objects)

end Learnable

/-! ## The potential of a state -/

/-- The most that one step may queue. -/
def most (setting : Setting) : Nat :=
  limit setting * limit setting + (limit setting + 1) * surge setting

/-- What goes down with every step. -/
def potential (setting : Setting) (s : State) : Nat :=
  ((learnable setting).card - learned setting s) * most setting + s.queued

theorem potential_lt_of_learned (more : learned setting s < learned setting t)
    (bound : t.queued + 1 ≤ s.queued + most setting) : potential setting t < potential setting s := by
  have enough := learned_le setting t
  have split : (learnable setting).card - learned setting s =
      (learnable setting).card - learned setting t + (learned setting t - learned setting s) := by omega
  have one : most setting ≤ (learned setting t - learned setting s) * most setting :=
    Nat.le_mul_of_pos_left _ (by omega)
  unfold potential
  rw [split, Nat.add_mul]
  omega

theorem potential_lt_of_queued (same : learned setting s ≤ learned setting t)
    (less : t.queued + 1 = s.queued) : potential setting t < potential setting s := by
  have rest := Nat.mul_le_mul_right (most setting)
    (Nat.sub_le_sub_left same (learnable setting).card)
  unfold potential
  omega

section Step

variable (wellFormed : setting.program.WellFormed) (run : Reached setting s)
include wellFormed run

/-- A step that takes a method learns it, or only takes it away. -/
theorem potential_lt_of_method {m : QualifiedMethod} {rest : Network}
    (popped : s.network.pop? = some (.method m, rest)) : potential setting
      (enter setting { s with network := rest, iterations := s.iterations + 1 } m) <
        potential setting s := by
  have consistent := run.consistent wellFormed
  have shorter := queued_of_pop popped
  have grown : s.Grows (s.takeMethod m rest) := grows_takeMethod popped
  cases known : s.calls.isReachable m with
  | true =>
      rw [enter_of_isReachable known]
      exact potential_lt_of_queued (learned_mono grown.learned) shorter.symm
  | false =>
      obtain ⟨whole, -, -⟩ := Network.toList_of_pop? popped
      obtain ⟨runs, -⟩ := enter_spec wellFormed consistent popped known
      have expected : s.Expected (.reach m.context m.method) := .inr (by simp [Network.Announces, whole])
      have marked : (s.takeMethod m rest).Learned (.inl (m.context, m.method)) :=
        ((CallGraph.reach_spec s.calls m).2.2 m).mpr (.inr rfl)
      have unknown : ¬ s.Learned (.inl (m.context, m.method)) := fun member => by
        have there : s.calls.isReachable m = true := CallGraph.isReachable_iff.mpr member
        rw [known] at there
        cases there
      have bound : (enter setting { s with network := rest, iterations := s.iterations + 1 } m).queued ≤
          rest.pending.toList.length + surge setting := queued_enter_le m
      have enough : surge setting ≤ most setting := by
        unfold most
        rw [Nat.succ_mul]
        omega
      refine potential_lt_of_learned (learned_lt (grown.trans runs.grows).learned
        (run.method_mem_learnable wellFormed expected) (runs.grows.learned _ marked) unknown) ?_
      omega

/-- A step that takes objects learns one of them, or only takes them away. -/
theorem potential_lt_of_objects {id : NodeId} {set : ObjectSet} {rest : Network}
    (popped : s.network.pop? = some (.objects id set, rest)) :
    potential setting (react setting (s.takeObjects id set rest) id (rest.absorb id set).2) <
      potential setting s := by
  have consistent := run.consistent wellFormed
  have ordered := run.ordered wellFormed
  have grown : s.Grows (s.takeObjects id set rest) := grows_takeObjects popped
  obtain ⟨whole, -, points⟩ := Network.toList_of_pop? popped
  obtain ⟨-, -, added, fresh, -⟩ := Network.absorb_spec rest id set
  have counted := queued_takeObjects popped
  cases something : (rest.absorb id set).2.isEmpty with
  | true =>
      rw [react_of_isEmpty something]
      rw [something, if_pos rfl] at counted
      exact potential_lt_of_queued (learned_mono grown.learned) counted
  | false =>
      rw [something, if_neg Bool.false_ne_true] at counted
      have sent : .objects id set ∈ s.network.pending.toList := by rw [whole]; exact List.mem_cons_self
      have arrives : ∀ o, o ∈ set → s.network.Arrives id o := fun o member => .inr ⟨set, sent, member⟩
      obtain ⟨o, new⟩ := ObjectSet.exists_mem_of_isEmpty something
      obtain ⟨inSet, unknown⟩ := (fresh o).mp new
      rw [points] at unknown
      have taken : ∀ o, o ∈ (rest.absorb id set).2 →
          o ∈ (s.takeObjects id set rest).network.points.points id :=
        fun o member => (added id o).mpr (.inr ⟨rfl, ((fresh o).mp member).1⟩)
      obtain ⟨runs, -⟩ := react_spec wellFormed (consistent_takeObjects consistent popped)
        fun o member => .inl (taken o member)
      have inUse := (run.object_mem_learnable wellFormed (arrives o inSet)).2
      have short : (rest.absorb id set).2.toList.length ≤ limit setting := by
        refine ObjectSet.length_toList_le (Network.ordered_absorb (Network.ordered_of_pop ordered popped) id
          (ordered.pending id set sent)).2 fun x member => ?_
        have below := (run.object_mem_learnable wellFormed (arrives x ((fresh x).mp member).1)).1
        exact Nat.lt_of_lt_of_le below (objects_size_le_limit (run.listed wellFormed) consistent.toValid)
      have targets : (s.network.graph.successors id).length ≤ limit setting * limit setting :=
        Nat.le_trans
          (FlowGraph.length_successors_le ordered.simple (fun e edge => (consistent.edges edge).2) id)
          (nodes_size_le_limit (run.listed wellFormed) consistent)
      have bound : (react setting (s.takeObjects id set rest) id (rest.absorb id set).2).queued ≤
          (s.takeObjects id set rest).queued + (rest.absorb id set).2.toList.length * surge setting :=
        queued_react_le id _
      have scaled := Nat.mul_le_mul_right (surge setting) short
      refine potential_lt_of_learned (learned_lt (grown.trans runs.grows).learned inUse
        (runs.grows.learned _ (taken o new)) unknown) ?_
      unfold most
      rw [Nat.succ_mul]
      omega

/-- Every step makes the potential smaller. -/
theorem potential_step_lt (taken : step setting s = some next) :
    potential setting next < potential setting s := by
  cases popped : s.network.pop? with
  | none => simp [step, popped] at taken
  | some work =>
      obtain ⟨item, rest⟩ := work
      cases item with
      | method m =>
          rw [step_method popped, Option.some.injEq] at taken
          rw [← taken]
          exact potential_lt_of_method wellFormed run popped
      | objects id set =>
          rw [step_objects popped, Option.some.injEq] at taken
          rw [← taken]
          exact potential_lt_of_objects wellFormed run popped

/-- As many steps as the potential is large lead to the end. -/
theorem step_steps_eq_none {count : Nat} (enough : potential setting s ≤ count) :
    step setting (steps setting count s) = none := by
  induction count generalizing s with
  | zero =>
      cases taken : step setting s with
      | none => exact taken
      | some next =>
          have less := potential_step_lt wellFormed run taken
          omega
  | succ count ih =>
      unfold steps
      cases taken : step setting s with
      | none => exact taken
      | some next =>
          have less := potential_step_lt wellFormed run taken
          exact ih (run.step taken) (by omega)

end Step

/-! ## Rounds -/

section Rounds

theorem steps_add (first second : Nat) (s : State) :
    steps setting (first + second) s = steps setting second (steps setting first s) := by
  induction first generalizing s with
  | zero => rw [Nat.zero_add, steps]
  | succ first ih =>
      rw [Nat.succ_add, steps, steps]
      cases taken : step setting s with
      | none => cases second <;> simp [steps, taken]
      | some next => exact ih next

/-- Rounds amount to some number of steps, after which there is nothing to do, or which is as large as the
rounds allow. -/
theorem exists_steps_of_settle (setting : Setting) (rounds length : Nat) (s : State) :
    ∃ count, settle setting rounds length s = steps setting count s ∧
      (step setting (settle setting rounds length s) = none ∨ length * (2 ^ rounds - 1) ≤ count) := by
  induction rounds generalizing length s with
  | zero => exact ⟨0, rfl, .inr (by simp)⟩
  | succ rounds ih =>
      rw [settle]
      split
      · rename_i nothing
        refine ⟨length, rfl, .inl ?_⟩
        have empty := (Worklist.isEmpty_iff _).mp nothing
        cases popped : (steps setting length s).network.pop? with
        | none => simp [step, popped]
        | some work =>
            obtain ⟨whole, -, -⟩ := Network.toList_of_pop? popped
            rw [empty] at whole
            cases whole
      · obtain ⟨count, same, finished⟩ := ih (2 * length) (steps setting length s)
        refine ⟨length + count, by rw [steps_add, same], finished.imp_right fun enough => ?_⟩
        have positive : 1 ≤ 2 ^ rounds := Nat.one_le_two_pow
        have all : length * (2 ^ (rounds + 1) - 1) = length + 2 * length * (2 ^ rounds - 1) := by
          obtain ⟨rest, power⟩ := Nat.exists_eq_add_of_le positive
          rw [Nat.pow_succ, power, show (1 + rest) * 2 - 1 = 1 + 2 * rest by omega, Nat.add_sub_cancel_left]
          ring
        rw [all]
        exact Nat.add_le_add_left enough length

theorem card_learnable_le (setting : Setting) :
    (learnable setting).card ≤ 3 * limit setting ^ 3 := by
  have large := parts_lt_limit setting
  have methods : (insert setting.entry (Finset.range (limit setting))).card ≤ 2 * limit setting := by
    have inserted := Finset.card_insert_le setting.entry (Finset.range (limit setting))
    rw [Finset.card_range] at inserted
    omega
  have squares : limit setting * (2 * limit setting) ≤ 2 * limit setting ^ 3 := by
    have cubed := Nat.le_mul_of_pos_right (2 * (limit setting * limit setting)) (by omega : 0 < limit setting)
    calc limit setting * (2 * limit setting) = 2 * (limit setting * limit setting) := by ring
      _ ≤ 2 * (limit setting * limit setting) * limit setting := cubed
      _ = 2 * limit setting ^ 3 := by ring
  unfold learnable
  rw [Finset.card_disjSum, Finset.card_product, Finset.card_product]
  simp only [Finset.card_range]
  have pairs := Nat.mul_le_mul_left (limit setting) methods
  have cube : limit setting * limit setting * limit setting = limit setting ^ 3 := by ring
  omega

theorem most_le (setting : Setting) : most setting ≤ 3 * limit setting ^ 3 := by
  have large := parts_lt_limit setting
  have one : surge setting ≤ limit setting * limit setting := by
    unfold surge
    calc setting.program.parts * (setting.program.parts + 6)
        ≤ setting.program.parts * (setting.program.parts + 6) + 9 := Nat.le_add_right _ 9
      _ = (setting.program.parts + 3) * (setting.program.parts + 3) := by ring
      _ ≤ limit setting * limit setting := Nat.mul_le_mul (by omega) (by omega)
  have squares : limit setting * limit setting ≤ limit setting ^ 3 := by
    calc limit setting * limit setting ≤ limit setting * limit setting * limit setting :=
          Nat.le_mul_of_pos_right _ (by omega)
      _ = limit setting ^ 3 := by ring
  have many : (limit setting + 1) * surge setting ≤ limit setting ^ 3 + limit setting * limit setting := by
    calc (limit setting + 1) * surge setting ≤ (limit setting + 1) * (limit setting * limit setting) :=
          Nat.mul_le_mul_left _ one
      _ = limit setting ^ 3 + limit setting * limit setting := by ring
  unfold most
  omega

/-- The limit in bits. -/
theorem limit_le_two_pow (setting : Setting) : limit setting ≤
    2 ^ ((setting.program.parts.log2 + 3) * (setting.policy.depth + setting.policy.heapDepth + 1)) := by
  have bits : setting.program.parts + 1 ≤ 2 ^ (setting.program.parts.log2 + 1) := Nat.lt_log2_self
  unfold limit
  rw [Nat.pow_mul]
  refine Nat.pow_le_pow_left ?_ _
  calc 4 * (setting.program.parts + 1) ≤ 4 * 2 ^ (setting.program.parts.log2 + 1) :=
        Nat.mul_le_mul_left 4 bits
    _ = 2 ^ (setting.program.parts.log2 + 3) := by ring

/-- The rounds of a run have room for as many steps as the start has potential. -/
theorem potential_start_lt (setting : Setting) :
    potential setting (start setting) < 2 ^ setting.rounds := by
  have queue : (start setting).queued = 1 := rfl
  have large := parts_lt_limit setting
  have product : ((learnable setting).card - learned setting (start setting)) * most setting ≤
      3 * limit setting ^ 3 * (3 * limit setting ^ 3) :=
    Nat.mul_le_mul (Nat.le_trans (Nat.sub_le _ _) (card_learnable_le setting)) (most_le setting)
  have positive : 1 ≤ limit setting ^ 6 := Nat.one_le_pow _ _ (by omega)
  have exponent : 4 + (setting.program.parts.log2 + 3) *
      (setting.policy.depth + setting.policy.heapDepth + 1) * 6 ≤ setting.rounds := by
    unfold Setting.rounds
    generalize setting.program.parts.log2 = bits
    generalize setting.policy.depth + setting.policy.heapDepth = depth
    calc 4 + (bits + 3) * (depth + 1) * 6
        ≤ 4 + (bits + 3) * (depth + 1) * 6 + (10 * bits * depth + 26 * bits + 14 * depth + 42) :=
          Nat.le_add_right _ _
      _ = 16 * (depth + 2) * (bits + 2) := by ring
  calc potential setting (start setting)
      = ((learnable setting).card - learned setting (start setting)) * most setting + 1 := by
        rw [potential, queue]
    _ ≤ 3 * limit setting ^ 3 * (3 * limit setting ^ 3) + 1 := Nat.succ_le_succ product
    _ = 9 * limit setting ^ 6 + 1 := by ring
    _ < 2 ^ 4 * limit setting ^ 6 := by omega
    _ ≤ 2 ^ 4 * (2 ^ ((setting.program.parts.log2 + 3) *
          (setting.policy.depth + setting.policy.heapDepth + 1))) ^ 6 :=
        Nat.mul_le_mul_left _ (Nat.pow_le_pow_left (limit_le_two_pow setting) 6)
    _ = 2 ^ (4 + (setting.program.parts.log2 + 3) *
          (setting.policy.depth + setting.policy.heapDepth + 1) * 6) := by
        rw [← Nat.pow_mul, ← Nat.pow_add]
    _ ≤ 2 ^ setting.rounds := Nat.pow_le_pow_right (by omega) exponent

end Rounds

/-! ## The end of a run -/

/-- The analysis takes some number of steps, and there is no other one. -/
theorem exists_steps_run (wellFormed : setting.program.WellFormed) :
    ∃ count, step setting (steps setting count (start setting)) = none ∧
      State.run setting = steps setting count (start setting) := by
  obtain ⟨count, same, finished⟩ := exists_steps_of_settle setting setting.rounds 1 (start setting)
  refine ⟨count, ?_, same⟩
  rcases finished with nothing | enough
  · rw [← same]
    exact nothing
  · have bound := potential_start_lt setting
    exact step_steps_eq_none wellFormed .start (by omega)

/-- The state at the end of the analysis is one of its run, and there is nothing left to do in it. -/
theorem reached_run (wellFormed : setting.program.WellFormed) :
    Reached setting (State.run setting) ∧ step setting (State.run setting) = none := by
  obtain ⟨count, finished, same⟩ := exists_steps_run wellFormed
  rw [same]
  exact ⟨Reached.start.steps count, finished⟩

/-- The solver ends for every program, whatever the policy and the heap model are: some number of steps leaves
nothing to do, and the rounds of the analysis amount to such a number. -/
theorem run_finished (setting : Setting) (loaded : setting.program.Loaded) :
    ∃ count, step setting (steps setting count (start setting)) = none ∧
      State.run setting = steps setting count (start setting) :=
  exists_steps_run loaded.wellFormed

/-- The analysis of the sample comes to its end. -/
theorem run_finished_sample :
    ∃ count, step Setting.sample (steps Setting.sample count (start Setting.sample)) = none ∧
      State.run Setting.sample = steps Setting.sample count (start Setting.sample) :=
  run_finished Setting.sample Program.loaded_sample

end PointsTo.State
