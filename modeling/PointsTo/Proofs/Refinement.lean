/- # Refinement -- finer analyses find no more

Forgetting part of a context, or what distinguishes objects, is a morphism of the readings of two settings, so
the analysis that distinguishes more is within the one that distinguishes less:

* contexts cut to smaller depths (`within_of_depths`);
* receiver objects replaced by the classes that allocate them (`object_within_type`);
* allocation sites replaced by what they allocate and where (`site_within_type`).

The first needs care with the lengths.  With objects or types for elements, a method context is a heap context
with one more element in front, so a policy of depths `k` and `h` never meets one of more than `h + 1` elements,
however large `k` is; and a heap context is cut from a method context, so it never has more than `k`.  Deeper
contexts are therefore cut to `Policy.methodLength` and `Policy.heapLength` and not to `k` and `h`. -/
import PointsTo.Proofs.Merged

set_option autoImplicit false

namespace PointsTo

/-! ## A sample program -/

/-- Two boxes that are filled by one method and read by another. -/
def Description.boxes : Description where
  classes := [
    { name := "Main"
      methods := [
        { name := "main", isStatic := true, body := [
          .new "a" "Box", .new "b" "Box", .new "x" "X", .new "y" "Y",
          .invoke .virtual "Box" "set/1" (some "a") ["x"] none,
          .invoke .virtual "Box" "set/1" (some "b") ["y"] none,
          .invoke .virtual "Box" "get/0" (some "a") [] (some "z")] }] },
    { name := "Box"
      fields := [{ name := "item" }]
      methods := [
        { name := "set", params := ["v"], body := [.store (some "this") "Box.item" "v"] },
        { name := "get", body := [.load "w" (some "this") "Box.item", .ret (some "w")] }] },
    { name := "X" }, { name := "Y" }]
  entry := ⟨"Main", "main/0"⟩

theorem Program.loaded_boxes : Description.boxes.program.Loaded := ⟨Description.boxes, by decide +kernel⟩

/-- The variable of `main` that gets what is read. -/
def Description.boxed : VarId := 4

/-! ## Depths -/

/-- Extending what is left of a context leaves as much as extending it whole and cutting it. -/
theorem Context.take_extend {α : Type} {context : List α} {element : α} {deep shallow length kept : Nat}
    (lengths : min length deep = min shallow (kept + 1)) :
    (Context.extend context element deep).take length =
      Context.extend (context.take kept) element shallow := by
  unfold Context.extend
  rw [List.take_take, ← List.take_succ_cons, List.take_take, lengths]

theorem Context.take_truncate {α : Type} {context : List α} {deep shallow length kept : Nat}
    (lengths : min length deep = min shallow kept) :
    (Context.truncate context deep).take length = Context.truncate (context.take kept) shallow := by
  unfold Context.truncate
  rw [List.take_take, List.take_take, lengths]

namespace Policy

/-- The contexts of one policy are those of another when method contexts and heap contexts are cut to given
lengths. -/
structure Cuts (fine coarse : Policy) (length heapLength : Nat) : Prop where
  staticContext : ∀ (caller : ContextOf Origin) site,
    (fine.staticContext caller site).take length = coarse.staticContext (caller.take length) site
  instanceContext : ∀ (caller : ContextOf Origin) site heap object container,
    (fine.instanceContext caller site heap object container).take length =
      coarse.instanceContext (caller.take length) site (heap.take heapLength) object container
  heapContext : ∀ context : ContextOf Origin,
    (fine.heapContext context).take heapLength = coarse.heapContext (context.take length)

/-- The greatest length of the method contexts that a run meets. -/
def methodLength (policy : Policy) : Nat :=
  match policy.sensitivity with
  | .insensitive => 0
  | .callSite => policy.depth
  | .object | .type => min policy.depth (policy.heapDepth + 1)

/-- The greatest length of the heap contexts that a run meets. -/
def heapLength (policy : Policy) : Nat :=
  match policy.sensitivity with
  | .insensitive => 0
  | _ => min policy.depth policy.heapDepth

theorem cuts_of_depths (sensitivity : Sensitivity) {k k' h h' : Nat} (depth : k ≤ k')
    (heapDepth : h ≤ h') :
    Cuts ⟨sensitivity, k', h'⟩ ⟨sensitivity, k, h⟩ (methodLength ⟨sensitivity, k, h⟩)
      (heapLength ⟨sensitivity, k, h⟩) := by
  cases sensitivity with
  | insensitive => exact ⟨fun _ _ => rfl, fun _ _ _ _ _ => rfl, fun _ => rfl⟩
  | callSite =>
      have method : min k k' = min k (k + 1) := by omega
      have heap : min (min k h) h' = min h k := by omega
      exact ⟨fun _ _ => Context.take_extend method, fun _ _ _ _ _ => Context.take_extend method,
        fun _ => Context.take_truncate heap⟩
  | object | type =>
      have method : min (min k (h + 1)) k' = min k (min k h + 1) := by omega
      have heap : min (min k h) h' = min h (min k (h + 1)) := by omega
      exact ⟨fun _ _ => rfl, fun _ _ _ _ _ => Context.take_extend method,
        fun _ => Context.take_truncate heap⟩

/-- The policy has a sensitivity and two depths, where the policy without contexts counts as one of every
sensitivity with the depths zero. -/
def Counts (policy : Policy) (sensitivity : Sensitivity) (depth heapDepth : Nat) : Prop :=
  policy = ⟨sensitivity, depth, heapDepth⟩ ∨
    policy.sensitivity = .insensitive ∧ depth = 0 ∧ heapDepth = 0

/-- With the depths zero there is only the empty context. -/
theorem Counts.cuts {coarse : Policy} {sensitivity : Sensitivity} (counts : coarse.Counts sensitivity 0 0)
    (fine : Policy) : Cuts fine coarse 0 0 := by
  have flat : coarse.sensitivity = .insensitive ∨ coarse.depth = 0 ∧ coarse.heapDepth = 0 := by
    rcases counts with rfl | ⟨insensitive, -, -⟩
    · exact .inr ⟨rfl, rfl⟩
    · exact .inl insensitive
  obtain ⟨sensitivity, depth, heapDepth⟩ := coarse
  rcases flat with rfl | ⟨rfl, rfl⟩
  · exact ⟨fun _ _ => rfl, fun _ _ _ _ _ => rfl, fun _ => rfl⟩
  · cases sensitivity <;> exact ⟨fun _ _ => rfl, fun _ _ _ _ _ => rfl, fun _ => rfl⟩

/-- A policy that counts as one of smaller depths has the contexts of the deeper one, cut. -/
theorem Counts.exists_cuts {fine coarse : Policy} {sensitivity : Sensitivity} {k k' h h' : Nat}
    (deep : fine.Counts sensitivity k' h') (shallow : coarse.Counts sensitivity k h) (depth : k ≤ k')
    (heapDepth : h ≤ h') : ∃ length heapLength, Cuts fine coarse length heapLength := by
  rcases shallow with rfl | ⟨insensitive, rfl, rfl⟩
  · rcases deep with rfl | ⟨-, rfl, rfl⟩
    · exact ⟨_, _, cuts_of_depths sensitivity depth heapDepth⟩
    · cases Nat.le_zero.mp depth
      cases Nat.le_zero.mp heapDepth
      have counts : Counts ⟨sensitivity, 0, 0⟩ sensitivity 0 0 := .inl rfl
      exact ⟨0, 0, counts.cuts fine⟩
  · have counts : coarse.Counts sensitivity 0 0 := .inr ⟨insensitive, rfl, rfl⟩
    exact ⟨0, 0, counts.cuts fine⟩

end Policy

namespace Setting

open Description

variable (setting : Setting)

/-- Cutting contexts is a morphism. -/
theorem morphism_of_cuts {fine coarse : Policy} {length heapLength : Nat}
    (cuts : fine.Cuts coarse length heapLength) :
    Domain.Morphism (domain { setting with policy := fine }) (domain { setting with policy := coarse })
      (fun context => context.take length) (fun o => ⟨o.context.take heapLength, o.origin⟩) where
  initial := List.take_nil
  object context site := by simp only [domain, cuts.heapContext]
  type o := rfl
  callStatic context site := cuts.staticContext context site
  callInstance context site o := cuts.instanceContext context site o.context o.origin _

/-- Deeper contexts find no more: what an analysis answers with contexts merged, the analysis with smaller
depths and the one without contexts answer as well. -/
theorem within_of_depths (loaded : setting.program.Loaded) {sensitivity : Sensitivity}
    {fine coarse : Policy} {k k' h h' : Nat} (deep : fine.Counts sensitivity k' h')
    (shallow : coarse.Counts sensitivity k h) (depth : k ≤ k') (heapDepth : h ≤ h') :
    Result.Within id (analyse { setting with policy := fine })
      (analyse { setting with policy := coarse }) := by
  obtain ⟨length, heapLength, cuts⟩ := deep.exists_cuts shallow depth heapDepth
  have morphism := setting.morphism_of_cuts cuts
  exact Result.within_of_morphism morphism rfl rfl loaded.wellFormed fun _ => rfl

/-- With the receiver as context the first box has what was put into it, and without contexts what was put
into any box. -/
theorem within_of_depths_boxes :
    Result.Within id (analyse { boxes.setting with policy := ⟨.object, 1, 0⟩ })
      (analyse { boxes.setting with policy := ⟨.insensitive, 0, 0⟩ }) ∧
    (analyse { boxes.setting with policy := ⟨.object, 1, 0⟩ }).pointsTo boxed = [2] ∧
    (analyse { boxes.setting with policy := ⟨.insensitive, 0, 0⟩ }).pointsTo boxed = [2, 3] := by
  have deep : Policy.Counts ⟨.object, 1, 0⟩ .object 1 0 := .inl rfl
  have shallow : Policy.Counts ⟨.insensitive, 0, 0⟩ .object 0 0 := .inr ⟨rfl, rfl, rfl⟩
  have depths : 0 ≤ 1 ∧ 0 ≤ 0 := by decide
  constructor
  · exact within_of_depths boxes.setting Program.loaded_boxes deep shallow depths.1 depths.2
  · decide +kernel

end Setting

/-! ## Objects and types -/

/-- The element with a receiver object replaced by the class that allocates it. -/
def ElementOf.typed (p : Program) : ElementOf Origin → ElementOf Origin
  | .object o => .type (o.containerIn p)
  | .site value => .site value
  | .type value => .type value

/-- The object in a heap context of the classes that allocate objects. -/
def QualifiedOrigin.typed (p : Program) (o : QualifiedOrigin) : QualifiedOrigin :=
  ⟨o.context.map (ElementOf.typed p), o.origin⟩

namespace Setting

open Description

variable (setting : Setting)

/-- Replacing receiver objects by the classes that allocate them is a morphism. -/
theorem morphism_typed (depth heapDepth : Nat) :
    Domain.Morphism (domain { setting with policy := ⟨.object, depth, heapDepth⟩ })
      (domain { setting with policy := ⟨.type, depth, heapDepth⟩ })
      (List.map (ElementOf.typed setting.program)) (QualifiedOrigin.typed setting.program) where
  initial := rfl
  object context site := by
    simp only [domain, QualifiedOrigin.typed, Policy.heapContext, Context.truncate, List.map_take]
  type o := rfl
  callStatic context site := rfl
  callInstance context site o := by
    simp only [domain, QualifiedOrigin.typed, Policy.instanceContext, Context.extend, List.map_take,
      List.map_cons, ElementOf.typed]

/-- Receiver objects as contexts find no more than the classes that allocate them: every fact of the analysis
by objects, with the objects in contexts replaced by these classes, is a fact of the analysis by types. -/
theorem object_within_type (loaded : setting.program.Loaded) (depth heapDepth : Nat) :
    Result.Carries (List.map (ElementOf.typed setting.program)) (QualifiedOrigin.typed setting.program)
        (analyse { setting with policy := ⟨.object, depth, heapDepth⟩ })
        (analyse { setting with policy := ⟨.type, depth, heapDepth⟩ }) ∧
      Result.Within id (analyse { setting with policy := ⟨.object, depth, heapDepth⟩ })
        (analyse { setting with policy := ⟨.type, depth, heapDepth⟩ }) := by
  have morphism := setting.morphism_typed depth heapDepth
  constructor
  · exact Result.carries_of_morphism morphism rfl rfl loaded.wellFormed
  · exact Result.within_of_morphism morphism rfl rfl loaded.wellFormed fun _ => rfl

/-- One class allocates both boxes, so types as contexts do not tell them apart. -/
theorem object_within_type_boxes :
    (Result.Carries (List.map (ElementOf.typed boxes.program)) (QualifiedOrigin.typed boxes.program)
        (analyse { boxes.setting with policy := ⟨.object, 1, 1⟩ })
        (analyse { boxes.setting with policy := ⟨.type, 1, 1⟩ }) ∧
      Result.Within id (analyse { boxes.setting with policy := ⟨.object, 1, 1⟩ })
        (analyse { boxes.setting with policy := ⟨.type, 1, 1⟩ })) ∧
    (analyse { boxes.setting with policy := ⟨.object, 1, 1⟩ }).pointsTo boxed = [2] ∧
    (analyse { boxes.setting with policy := ⟨.type, 1, 1⟩ }).pointsTo boxed = [2, 3] := by
  constructor
  · exact object_within_type boxes.setting Program.loaded_boxes 1 1
  · decide +kernel

end Setting

/-! ## Sites and types of objects -/

/-- The origin with an allocation site replaced by the type and the class of what it allocates. -/
def Origin.grouped (p : Program) (o : Origin) : Origin := .type (o.typeIn p) (o.containerIn p)

/-- The object with allocation sites replaced, also in its heap context. -/
def QualifiedOrigin.grouped (p : Program) (o : QualifiedOrigin) : QualifiedOrigin :=
  ⟨o.context.map (ElementOf.map (Origin.grouped p)), o.origin.grouped p⟩

theorem Program.grouped_originAt (p : Program) (s : SiteId) :
    (p.originAt .site s).grouped p = p.originAt .type s := by
  simp only [originAt, HeapObject.origin, site_objectAt, Origin.grouped, Origin.typeIn,
    Origin.containerIn]

namespace Setting

open Description

variable (setting : Setting)

/-- Replacing allocation sites by what they allocate and where is a morphism. -/
theorem morphism_grouped :
    Domain.Morphism (domain { setting with heapModel := .site })
      (domain { setting with heapModel := .type })
      (List.map (ElementOf.map (Origin.grouped setting.program)))
      (QualifiedOrigin.grouped setting.program) where
  initial := rfl
  object context site := by
    simp only [domain, QualifiedOrigin.grouped, Program.grouped_originAt, heapContext_map]
  type o := rfl
  callStatic context site := (staticContext_map _ setting.policy context site).symm
  callInstance context site o :=
    (instanceContext_map _ setting.policy context site o.context o.origin _).symm

/-- Allocation sites as objects find no more than their types: every fact of the analysis by sites, with each
site replaced by the type it allocates and the class that does so, is a fact of the analysis by types. -/
theorem site_within_type (loaded : setting.program.Loaded) :
    Result.Carries (List.map (ElementOf.map (Origin.grouped setting.program)))
        (QualifiedOrigin.grouped setting.program) (analyse { setting with heapModel := .site })
        (analyse { setting with heapModel := .type }) ∧
      Result.Within (Origin.grouped setting.program) (analyse { setting with heapModel := .site })
        (analyse { setting with heapModel := .type }) := by
  have morphism := setting.morphism_grouped
  constructor
  · exact Result.carries_of_morphism morphism rfl rfl loaded.wellFormed
  · exact Result.within_of_morphism morphism rfl rfl loaded.wellFormed fun _ => rfl

/-- Both boxes have one type and one class that allocates them, so they are one object by types. -/
theorem site_within_type_boxes :
    (Result.Carries (List.map (ElementOf.map (Origin.grouped boxes.program)))
        (QualifiedOrigin.grouped boxes.program)
        (analyse { boxes.setting with policy := ⟨.object, 1, 0⟩, heapModel := .site })
        (analyse { boxes.setting with policy := ⟨.object, 1, 0⟩, heapModel := .type }) ∧
      Result.Within (Origin.grouped boxes.program)
        (analyse { boxes.setting with policy := ⟨.object, 1, 0⟩, heapModel := .site })
        (analyse { boxes.setting with policy := ⟨.object, 1, 0⟩, heapModel := .type })) ∧
    (analyse { boxes.setting with policy := ⟨.object, 1, 0⟩, heapModel := .site }).pointsTo boxed = [2] ∧
    (analyse { boxes.setting with policy := ⟨.object, 1, 0⟩, heapModel := .type }).pointsTo boxed =
      [1, 2] := by
  constructor
  · exact site_within_type { boxes.setting with policy := ⟨.object, 1, 0⟩ } Program.loaded_boxes
  · decide +kernel

end Setting

end PointsTo
