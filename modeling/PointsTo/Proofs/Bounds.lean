/- # Bounds -- how much a run can number

Contexts are cut to the depths of the policy and are made of call sites, objects and classes of the program;
objects are made for allocations of the program (`State.Listed`).  So a run can give out only so many
numbers, and only declared methods and the entry are ever expected.

Main statements: `Listed.contexts_size_le`, `Valid.objects_size_le` and `Consistent.nodes_size_le` bound the
tables, `Reached.declared` the methods. -/
import PointsTo.Proofs.Sizes
import PointsTo.Proofs.Steps

set_option autoImplicit false

namespace PointsTo

namespace State

variable {setting : Setting} {s t : State}

/-- The facts in which the methods are the entry or declared. -/
def Declared (setting : Setting) : Fact ContextId QualifiedObjectId → Prop
  | .reach _ m => m = setting.entry ∨ m < setting.program.methods.size
  | .call _ _ _ m => m < setting.program.methods.size
  | _ => True

theorem closed_declared (s : State) : s.Closed setting (Declared setting) := by
  intro fact follows _
  cases follows with
  | entry => exact .inl rfl
  | ofMethod _ demanded =>
      cases demanded with
      | call _ _ resolved => exact Program.lt_of_resolveCall resolved
      | _ => trivial
  | ofObject _ _ demanded =>
      cases demanded with
      | call _ _ resolved => exact Program.lt_of_resolveCall resolved
      | _ => trivial
  | ofCall called demanded =>
      cases demanded with
      | callee => exact .inr called
      | _ => trivial
  | subset => trivial

/-- Only the entry and declared methods are ever expected. -/
theorem Reached.declared (wellFormed : setting.program.WellFormed) (run : Reached setting s)
    {c : ContextId} {m : MethodId} (expected : s.Expected (.reach c m)) :
    m = setting.entry ∨ m < setting.program.methods.size := by
  have all : ∀ fact, s.Expected fact → Declared setting fact :=
    run.expected_subset (fun s _ => closed_declared s) (fun _ _ _ _ _ => id) wellFormed
  exact all _ expected

/-! ## Contexts and objects -/

/-- Contexts are short and made of what the program names, and objects are made for its allocations. -/
structure Listed (setting : Setting) (s : State) : Prop where
  depth : ∀ {context}, context ∈ s.contexts.toList →
    context.length ≤ max setting.policy.depth setting.policy.heapDepth
  elements : ∀ {context}, context ∈ s.contexts.toList → ∀ {e}, e ∈ context →
    e ∈ setting.program.elements
  sites : ∀ {o object}, s.heap.object? o = some object → setting.program.Allocates object.site

/-- There are at most as many objects as allocations. -/
theorem Listed.heap_size_le (listed : s.Listed setting) (valid : s.Valid setting) :
    s.heap.size ≤ setting.program.allocatedSites.length := by
  have read {o : ObjectId} (inUse : o < s.heap.objects.size) :
      s.heap.object? o = some s.heap.objects[o] := Array.getElem?_eq_getElem inUse
  have distinct : (s.heap.objects.toList.map (·.site)).Nodup := by
    refine List.pairwise_iff_getElem.mpr fun i j first second less same => ?_
    simp only [List.length_map, Array.length_toList] at first second
    simp only [List.getElem_map, Array.getElem_toList] at same
    have knownFirst := (valid.heap.made (read first)).2
    have knownSecond := (valid.heap.made (read second)).2
    rw [same, knownSecond] at knownFirst
    exact Nat.ne_of_lt less (Option.some.inj knownFirst).symm
  have subset : s.heap.objects.toList.map (·.site) ⊆ setting.program.allocatedSites := by
    intro site member
    obtain ⟨object, inHeap, rfl⟩ := List.mem_map.mp member
    obtain ⟨o, found⟩ := List.getElem?_of_mem inHeap
    rw [Array.getElem?_toList] at found
    exact Program.mem_allocatedSites (listed.sites found)
  simpa [Heap.size] using length_le_of_nodup distinct subset

/-- The context of a number is short, also when the number is not in use. -/
theorem Listed.length_context_le (listed : s.Listed setting) (c : ContextId) :
    (s.contexts.context c).length ≤ max setting.policy.depth setting.policy.heapDepth := by
  rcases s.contexts.context_eq_nil_or_mem c with unused | inTable
  · rw [unused]
    exact Nat.zero_le _
  · exact listed.depth inTable

theorem Listed.mem_elements (listed : s.Listed setting) {c : ContextId} {e : ContextElement}
    (member : e ∈ s.contexts.context c) : e ∈ setting.program.elements := by
  rcases s.contexts.context_eq_nil_or_mem c with unused | inTable
  · rw [unused] at member
    cases member
  · exact listed.elements inTable member

theorem Change.listed (consistent : s.Consistent setting) (change : Change setting s t)
    (listed : s.Listed setting) : t.Listed setting := by
  cases change with
  | report _ => exact ⟨listed.depth, listed.elements, listed.sites⟩
  | node _ => exact ⟨listed.depth, listed.elements, listed.sites⟩
  | flow _ _ => exact ⟨listed.depth, listed.elements, listed.sites⟩
  | seed _ _ _ => exact ⟨listed.depth, listed.elements, listed.sites⟩
  | call _ _ _ => exact ⟨listed.depth, listed.elements, listed.sites⟩
  | @numberObject c site allocates =>
      have numbers := ContextTable.numbers_internHeap consistent.contexts c
      refine ⟨fun member => ?_, fun member e inside => ?_, fun read => ?_⟩
      · rcases numbers.new _ member with old | rfl
        · exact listed.depth old
        · exact Nat.le_trans (Policy.length_heapContext_le _ _) (Nat.le_max_right _ _)
      · rcases numbers.new _ member with old | rfl
        · exact listed.elements old inside
        · exact listed.mem_elements (Policy.mem_heapContext inside)
      · rcases Heap.object?_request read with old | rfl
        · exact listed.sites old
        · rw [Program.site_objectAt]
          exact allocates
  | @numberStatic c inUse site call statement =>
      have numbers := ContextTable.numbers_internStatic consistent.contexts inUse site
      refine ⟨fun member => ?_, fun member e inside => ?_, listed.sites⟩
      · rcases numbers.new _ member with old | rfl
        · exact listed.depth old
        · exact Nat.le_trans (Policy.length_staticContext_le _ _ _)
            (Nat.max_le.mpr ⟨listed.length_context_le c, Nat.le_max_left _ _⟩)
      · rcases numbers.new _ member with old | rfl
        · exact listed.elements old inside
        · rcases Policy.mem_staticContext inside with old | rfl
          · exact listed.mem_elements old
          · simp [Program.elements, Program.mem_callSites statement]
  | @numberInstance c site call statement o receiver type found =>
      have numbers := ContextTable.numbers_internInstance consistent.contexts c site receiver
      obtain ⟨held, object, -, made, rfl, -⟩ := receiver?_eq_some found
      refine ⟨fun member => ?_, fun member e inside => ?_, listed.sites⟩
      · rcases numbers.new _ member with old | rfl
        · exact listed.depth old
        · exact Nat.le_trans (Policy.length_instanceContext_le _ _ _ _ _ _) (Nat.le_max_left _ _)
      · rcases numbers.new _ member with old | rfl
        · exact listed.elements old inside
        · have inUse := Nat.lt_of_lt_of_le (Heap.lt_of_object? made)
            (listed.heap_size_le consistent.toValid)
          have allocated := Program.mem_allocatedSites (listed.sites made)
          have container := congrArg HeapObject.container (consistent.heap.made made).1
          rcases Policy.mem_instanceContext inside with old | old | rfl | rfl | rfl
          · exact listed.mem_elements old
          · exact listed.mem_elements old
          · simp [Program.elements, Program.mem_callSites statement]
          · simp [Program.elements, inUse]
          · refine List.mem_append_right _ (List.mem_map.mpr ⟨_, allocated, ?_⟩)
            rw [← container]

theorem Reached.listed (wellFormed : setting.program.WellFormed) (run : Reached setting s) :
    s.Listed setting := by
  refine run.invariant wellFormed ?_ Change.listed ?_ ?_
  · refine ⟨fun member => ?_, fun member e inside => ?_, fun read => by cases read⟩
    · rcases Table.mem_toList_intern.mp member with old | rfl
      · cases old
      · exact Nat.zero_le _
    · rcases Table.mem_toList_intern.mp member with old | rfl
      · cases old
      · cases inside
  · exact fun _ _ listed => ⟨listed.depth, listed.elements, listed.sites⟩
  · exact fun _ _ listed => ⟨listed.depth, listed.elements, listed.sites⟩

/-! ## Sizes of tables -/

theorem Listed.contexts_size_le (listed : s.Listed setting) (valid : s.Valid setting) :
    s.contexts.size ≤
      (3 * setting.program.parts + 1) ^ max setting.policy.depth setting.policy.heapDepth := by
  have subset : s.contexts.toList ⊆ listsUpTo setting.program.elements
      (max setting.policy.depth setting.policy.heapDepth) :=
    fun context member => mem_listsUpTo (fun e inside => listed.elements member inside)
      (listed.depth member)
  rw [Table.size_eq_length]
  calc s.contexts.toList.length
      ≤ (listsUpTo setting.program.elements
          (max setting.policy.depth setting.policy.heapDepth)).length :=
        length_le_of_nodup valid.contexts.distinct subset
    _ ≤ (setting.program.elements.length + 1) ^ max setting.policy.depth setting.policy.heapDepth :=
        length_listsUpTo_le _
    _ ≤ (3 * setting.program.parts + 1) ^ max setting.policy.depth setting.policy.heapDepth :=
        Nat.pow_le_pow_left (Nat.succ_le_succ setting.program.length_elements_le) _

theorem Valid.objects_size_le (valid : s.Valid setting) :
    s.objects.size ≤ s.contexts.size * s.heap.size := by
  have subset : s.objects.toList ⊆ (List.range s.contexts.size).flatMap fun c =>
      (List.range s.heap.size).map fun o => ⟨c, o⟩ := by
    intro held member
    obtain ⟨context, object⟩ := valid.parts member
    exact List.mem_flatMap.mpr ⟨_, List.mem_range.mpr context,
      List.mem_map.mpr ⟨_, List.mem_range.mpr object, rfl⟩⟩
  rw [Table.size_eq_length]
  refine Nat.le_trans (length_le_of_nodup valid.objects subset) ?_
  simp [List.length_flatMap]

/-- Nodes are variables in contexts, static fields, fields of objects and arrays. -/
theorem Consistent.nodes_size_le (consistent : s.Consistent setting) :
    s.network.graph.nodes.size ≤ s.contexts.size * setting.program.vars.size +
      setting.program.namedFields.length + s.objects.size * setting.program.namedFields.length +
      s.objects.size := by
  have subset : s.network.graph.nodes.toList ⊆
      ((List.range s.contexts.size).flatMap fun c =>
        (List.range setting.program.vars.size).map fun v => .var c v) ++
      setting.program.namedFields.map .static ++
      ((List.range s.objects.size).flatMap fun o =>
        setting.program.namedFields.map fun f => .field o f) ++
      (List.range s.objects.size).map .array := by
    intro p member
    have rooted := consistent.rooted member
    cases p with
    | var c v =>
        obtain ⟨m, owned, reached⟩ := rooted
        have context : c < s.contexts.size := consistent.facts reached
        simp [context, owned.lt]
    | static f =>
        have named := Program.mem_namedFields rooted
        simp [named]
    | field o f =>
        have named := Program.mem_namedFields rooted.2
        simp [named, rooted.1]
    | array o =>
        have inUse : o < s.objects.size := rooted
        simp [inUse]
  rw [Table.size_eq_length]
  refine Nat.le_trans (length_le_of_nodup consistent.nodes subset) ?_
  simp [List.length_flatMap, Nat.add_assoc]

end State

end PointsTo
