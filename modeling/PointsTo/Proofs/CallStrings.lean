/- # CallStrings -- contexts of call sites are truncated call strings

A path in a call graph spells a call string: the sites of its calls, the last one first.  With call sites for
contexts a call puts its site in front of the context of its caller and keeps the first `k` elements, so what
is kept of a context and of a whole call string is the same, however long the path was that led to a method
(`Path.key?`).  Every edge that is added starts at an expected method, so every method is at the end of a
path (`Reached.exists_path`).

Main statement: `callStrings_of_reached`. -/
import PointsTo.Proofs.Precedence
import PointsTo.Proofs.Refinement

set_option autoImplicit false

namespace PointsTo

/-! ## Paths -/

namespace CallGraph

variable {S M : Type}

/-- A path of calls from a method to another, with its call sites in the order in which they call. -/
inductive Path (g : CallGraph S M) (first : M) : M → List S → Prop
  | nil : Path g first first []
  | snoc {e : CallEdge S M} {sites : List S} (path : Path g first e.caller sites) (edge : e ∈ g.edges) :
      Path g first e.callee (sites ++ [e.site])

theorem Path.mono {g h : CallGraph S M} (grown : g.edges.toList <+: h.edges.toList) {first last : M}
    {sites : List S} (path : g.Path first last sites) : h.Path first last sites := by
  induction path with
  | nil => exact .nil
  | snoc _ edge ih => exact .snoc ih (State.mem_of_prefix grown edge)

/-- A path goes on along an edge that starts where it ends. -/
theorem Path.step {g : CallGraph S M} {first m n : M} {sites : List S} (path : g.Path first m sites)
    {e : CallEdge S M} (edge : e ∈ g.edges) (caller : e.caller = m) (callee : e.callee = n) :
    g.Path first n (sites ++ [e.site]) := by
  subst caller callee
  exact .snoc path edge

end CallGraph

/-- What is kept of the call string of a path. -/
def callString (k : Nat) (sites : List QualifiedSite) : Context :=
  (sites.reverse.take k).map fun site => .site site.site

/-- The call string of a longer path extends what is kept of the shorter one's. -/
theorem callString_snoc (k : Nat) (sites : List QualifiedSite) (last : QualifiedSite) :
    callString k (sites ++ [last]) = Context.extend (callString k sites) (.site last.site) k := by
  have whole : min k k = min k (k + 1) := by omega
  have kept := @Context.take_extend ContextElement (sites.reverse.map fun site => .site site.site)
    (.site last.site) _ _ _ _ whole
  simp only [callString, Context.extend, List.map_take, List.reverse_append, List.reverse_singleton,
    List.singleton_append, List.map_cons] at kept ⊢
  rw [← kept, List.take_take, Nat.min_self]

namespace State

variable {setting : Setting} {s t : State}

/-! ## Paths to methods -/

/-- Every call is recorded with the method that its site stands in, and every expected method is at the end
of a path from the entry. -/
structure Connected (setting : Setting) (s : State) : Prop where
  caller : ∀ {e}, e ∈ s.calls.edges → e.caller = e.site.caller
  path : ∀ {c m}, s.Expected (.reach c m) →
    ∃ sites, s.calls.Path ⟨ContextTable.emptyId, setting.entry⟩ ⟨c, m⟩ sites

/-- A later state with the same calls is connected when it expects no other methods. -/
theorem Connected.of_calls (before : s.Connected setting) (calls : t.calls.edges = s.calls.edges)
    (reach : ∀ c m, t.Expected (.reach c m) → s.Expected (.reach c m)) : t.Connected setting := by
  refine ⟨fun edge => before.caller (calls ▸ edge), fun {c m} expected => ?_⟩
  obtain ⟨sites, path⟩ := before.path (reach c m expected)
  exact ⟨sites, path.mono (by rw [calls])⟩

/-- A new call goes on from a path to its caller. -/
theorem Connected.call (before : s.Connected setting) {c : ContextId} {site : CallSite} {d : ContextId}
    {m : MethodId} (kind : CallKind) (reached : s.Expected (.reach c site.method)) :
    ((s.withCall kind c site d m).announce ⟨d, m⟩).Connected setting := by
  obtain ⟨-, grown, ⟨added, recorded, atSite, toCallee⟩, members⟩ :=
    CallGraph.connect_spec s.calls ⟨⟨c, site⟩, kind, ⟨c, site.method⟩, ⟨d, m⟩⟩
  have caller {e : CallEdge QualifiedSite QualifiedMethod}
      (edge : e ∈ (s.withCall kind c site d m).calls.edges) : e.caller = e.site.caller := by
    rcases members e edge with old | rfl
    · exact before.caller old
    · rfl
  refine ⟨caller, fun {c' m'} expected => ?_⟩
  rcases expected_call expected with old | impossible | same
  · obtain ⟨sites, path⟩ := before.path old
    exact ⟨sites, path.mono grown⟩
  · cases impossible
  · cases same
    obtain ⟨sites, path⟩ := before.path reached
    have toCaller : added.caller = ⟨c, site.method⟩ := by
      rw [caller recorded, atSite]
      rfl
    exact ⟨_, (path.mono grown).step recorded toCaller toCallee⟩

theorem Change.connected (consistent : s.Consistent setting) (change : Change setting s t)
    (before : s.Connected setting) : t.Connected setting := by
  cases change with
  | node rooted => exact before.of_calls rfl fun _ _ => expected_node consistent.toValid
  | flow kind follows =>
      refine before.of_calls rfl fun c m expected => ?_
      rcases expected_flow consistent.toValid expected with old | impossible | ⟨o, impossible, -⟩
      · exact old
      · cases impossible
      · cases impossible
  | seed follows rooted inUse =>
      refine before.of_calls rfl fun c m expected => ?_
      rcases expected_seed consistent.toValid expected with old | impossible
      · exact old
      · cases impossible
  | call kind follows inUse => exact before.call kind (reach_of_follows_call follows)
  | _ => exact before.of_calls rfl fun _ _ => id

theorem Reached.connected (wellFormed : setting.program.WellFormed) (run : Reached setting s) :
    s.Connected setting := by
  refine run.invariant wellFormed ?_ Change.connected ?_ ?_
  · refine ⟨fun edge => ?_, fun expected => ?_⟩
    · have none : (State.start setting).calls.edges = #[] := (CallGraph.addEntry_parts _ _).2
      simp [none] at edge
    · cases expected_start expected
      exact ⟨[], .nil⟩
  · intro s m rest _ popped before
    obtain ⟨edges, -, -⟩ := CallGraph.reach_spec s.calls m
    exact before.of_calls edges fun _ _ => expected_takeMethod popped
  · intro s id set rest consistent popped before
    refine before.of_calls rfl fun c m expected => ?_
    rcases expected_takeObjects consistent popped expected with old | ⟨p, q, o, impossible, -⟩
    · exact old
    · cases impossible

/-! ## Contexts along a path -/

section CallSites

variable (sensitivity : setting.policy.sensitivity = .callSite)
include sensitivity

/-- With call sites for contexts a call on an object runs its callee in the context of a call without
receiver. -/
theorem selectsStatic_of_follows (consistent : s.Consistent setting) {c : ContextId} {site : CallSite}
    {d : ContextId} {m : MethodId} (inUse : d < s.contexts.size)
    (follows : Follows setting.program (s.domain setting) setting.entry s.Expected (.call c site d m)) :
    s.SelectsStatic setting c site d := by
  cases follows with
  | ofMethod reached demanded =>
      cases demanded with
      | call => exact consistent.selectsStatic_of_lt (consistent.facts reached) inUse
  | ofObject reached held demanded =>
      cases demanded with
      | call =>
          obtain ⟨receiver, type, -, read⟩ :=
            consistent.selectsInstance_of_lt (consistent.facts held).2 inUse
          simp only [Policy.instanceContext, sensitivity] at read
          simp only [SelectsStatic, Policy.staticContext, sensitivity]
          exact read
  | ofCall called demanded => cases demanded

/-- Every call runs its callee in the context of a call without receiver. -/
def Extending (setting : Setting) (s : State) : Prop :=
  ∀ {c site d m}, s.Expected (.call c site d m) → s.SelectsStatic setting c site d

theorem Change.extending (consistent : s.Consistent setting) (change : Change setting s t)
    (before : s.Extending setting) : t.Extending setting := by
  intro c site d m called
  have old (known : s.Expected (.call c site d m)) : t.SelectsStatic setting c site d :=
    (before known).mono change.grows (consistent.facts known).1
  cases change with
  | @call c' site' d' m' kind follows inUse =>
      rcases expected_call called with known | same | impossible
      · exact old known
      · cases same
        exact selectsStatic_of_follows sensitivity consistent inUse follows
      · cases impossible
  | _ => exact old called

theorem Reached.extending (wellFormed : setting.program.WellFormed) (run : Reached setting s) :
    s.Extending setting := by
  refine run.invariant wellFormed ?_ (Change.extending sensitivity) ?_ ?_
  · intro c site d m called
    cases expected_start called
  · exact fun _ popped before _ _ _ _ called => before (expected_takeMethod popped called)
  · exact fun _ _ before => before

/-- The context at the end of a path is what is kept of the call string, although no more than that was kept
at any step. -/
theorem Path.key? (consistent : s.Consistent setting) (connected : s.Connected setting)
    (extending : s.Extending setting) {m : QualifiedMethod} {sites : List QualifiedSite}
    (path : s.calls.Path ⟨ContextTable.emptyId, setting.entry⟩ m sites) :
    s.contexts.key? m.context = some (callString setting.policy.depth sites) := by
  induction path with
  | nil =>
      rw [consistent.contexts.initial]
      simp [callString]
  | @snoc e sites path edge ih =>
      rw [connected.caller edge] at ih
      have called : s.Expected (.call e.site.context e.site.site e.callee.context e.callee.method) :=
        ⟨e, edge, rfl, rfl⟩
      have selects := extending called
      simp only [SelectsStatic, Policy.staticContext, sensitivity,
        ContextTable.context_of_key? (show s.contexts.key? e.site.context = _ from ih)] at selects
      rw [callString_snoc]
      exact selects

end CallSites

/-! ## Truncated call strings -/

/-- The object of an allocation has what is kept of the context of its method for its heap context. -/
theorem Valid.parts_of_allocates (valid : s.Valid setting) {c : ContextId} {site : SiteId}
    {o : QualifiedObjectId} (allocates : s.Allocates setting c site o) :
    ∃ held, s.objects.key? o = some held ∧
      (s.heap.request setting.heapModel setting.program site).2 = held.object ∧
      s.contexts.key? held.context = some (setting.policy.heapContext (s.contexts.context c)) := by
  obtain ⟨held, object, read, context, made, origin⟩ := allocates
  obtain ⟨known, answered, same⟩ := valid.origin_request site
  have kept := (Heap.extends_request s.heap setting.heapModel setting.program site).object? made
  exact ⟨held, read, (valid.heap.request site).distinct answered kept (same.trans origin.symm), context⟩

/-- Contexts are call strings of at most `k` calls, and heap contexts are their first `h` elements. -/
structure CallStrings (setting : Setting) (k h : Nat) (s : State) : Prop where
  /-- The context at the end of a path is the first `k` call sites of the path, read backwards. -/
  context : ∀ {m sites}, s.calls.Path ⟨ContextTable.emptyId, setting.entry⟩ m sites →
    s.contexts.key? m.context = some ((sites.reverse.take k).map fun site => .site site.site)
  /-- Every reachable method is at the end of a path. -/
  path : ∀ {m}, m ∈ s.calls.reachable →
    ∃ sites, s.calls.Path ⟨ContextTable.emptyId, setting.entry⟩ m sites
  /-- An object in a set was allocated by a reachable method, at a site that the heap gives it out for, and
  its heap context is the beginning of the context of the method. -/
  object : ∀ {p o}, o ∈ s.points p → ∃ held, s.objects.key? o = some held ∧
    ∃ c m, ⟨c, m⟩ ∈ s.calls.reachable ∧
      s.contexts.key? held.context = some ((s.contexts.context c).take h) ∧
      ∃ lhs site, .new lhs site ∈ setting.program.bodyOf m ∧
        (s.heap.request setting.heapModel setting.program site).2 = held.object

/-- In every state of a run with call sites for contexts, contexts are call strings, however long the paths
are that lead to a method. -/
theorem callStrings_of_reached (loaded : setting.program.Loaded) {k h : Nat}
    (policy : setting.policy = ⟨.callSite, k, h⟩) (run : Reached setting s) : s.CallStrings setting k h := by
  have wellFormed := loaded.wellFormed
  have sensitivity : setting.policy.sensitivity = .callSite := by rw [policy]
  have consistent := run.consistent wellFormed
  have connected := run.connected wellFormed
  refine ⟨fun {m sites} path => ?_, fun reachable => connected.path (.inl reachable),
    fun {p o} member => ?_⟩
  · have kept := Path.key? sensitivity consistent connected (run.extending sensitivity wellFormed) path
    rw [policy] at kept
    exact kept
  · obtain ⟨c, m, lhs, site, statement, allocates, reachable⟩ := run.allocated wellFormed member
    obtain ⟨held, read, object, context⟩ := consistent.parts_of_allocates allocates
    rw [policy] at context
    exact ⟨held, read, c, m, reachable, context, lhs, site, statement, object⟩

end State

/-- A method that goes on calling itself. -/
def Description.descent : Description where
  classes := [
    { name := "Main"
      methods := [
        { name := "main", isStatic := true, body := [
          .invoke .static "Main" "walk/0" none [] (some "x")] },
        { name := "walk", isStatic := true, body := [
          .new "n" "Main", .invoke .static "Main" "walk/0" none [] (some "r"), .ret (some "n")] }] }]
  entry := ⟨"Main", "main/0"⟩

/-- Its contexts are the call strings of at most two calls, although its paths have no greatest length. -/
theorem State.callStrings_of_reached_descent :
    (State.run { Description.descent.setting with policy := ⟨.callSite, 2, 1⟩ }).CallStrings
        { Description.descent.setting with policy := ⟨.callSite, 2, 1⟩ } 2 1 ∧
      (State.run { Description.descent.setting with policy := ⟨.callSite, 2, 1⟩ }).contexts.toList =
        [[], [.site ⟨0, 0⟩], [.site ⟨1, 1⟩, .site ⟨0, 0⟩], [.site ⟨1, 1⟩], [.site ⟨1, 1⟩, .site ⟨1, 1⟩]] := by
  have loaded : Description.descent.program.Loaded := ⟨Description.descent, by decide +kernel⟩
  constructor
  · exact callStrings_of_reached loaded rfl (reached_run loaded.wellFormed).1
  · decide +kernel

end PointsTo
