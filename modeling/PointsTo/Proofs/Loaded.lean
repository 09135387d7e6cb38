/- # Loaded -- loaded programs are well formed

A method of a loaded program is completed from a described one, and everything it mentions is in its own
block of variables.  An abstract method has no body because its declaration was checked, and an allocation
is recorded with its method and its position.

Main statements: `Program.Loaded.wellFormed` and `Program.Loaded.site_of_new`. -/
import PointsTo.Proofs.Lowering
import PointsTo.Setting

set_option autoImplicit false

namespace PointsTo

/-- A program that comes out of the loader. -/
def Program.Loaded (p : Program) : Prop := ∃ d : Description, d.load = .ok p

/-- A statement of the program stands in the body of a listed method. -/
theorem Program.getElem?_of_bodyOf {p : Program} {m : MethodId} {i : Nat} {s : Stmt}
    (here : (p.bodyOf m)[i]? = some s) :
    ∃ method, p.methods[m]? = some method ∧ method.body[i]? = some s := by
  unfold Program.bodyOf at here
  cases found : p.methods[m]? with
  | none => simp [found] at here
  | some method => exact ⟨method, rfl, by simpa [found] using here⟩

namespace Description

variable {d : Description} {skeleton p : Program}

/-- A method without variables and body is abstract when its description says so. -/
theorem Lowers.body_of_abstract (lowers : d.Lowers skeleton p) {m : MethodId} {method : Method}
    (here : p.methods[m]? = some method) (abstract : method.isAbstract = true) : method.body = [] := by
  obtain ⟨described, body, completes⟩ := lowers.methods here
  obtain ⟨-, links, linked, -, -⟩ := skeleton_eq_ok_iff.mp lowers.made
  obtain ⟨c, inDescription, inClass⟩ := List.mem_flatMap.mp (List.mem_of_getElem? completes.source)
  obtain ⟨links', resolvedLinks⟩ := exists_mapM_iff.mp ⟨links, linked⟩ c inDescription
  have checked := (resolveLinks_eq_ok_iff.mp resolvedLinks).2.2
  have resolved := completes.resolved
  obtain ⟨owner, start, site, rfl⟩ := completes.completed
  have empty : described.body = [] := (checkMethods_eq_ok_iff.mp checked).2.2 described inClass abstract
  rw [empty] at resolved
  cases resolved
  rfl

/-- What a method of the program mentions belongs to it. -/
theorem Lowers.owns_of_mentions (lowers : d.Lowers skeleton p) {m : MethodId} {method : Method}
    (here : p.methods[m]? = some method) {v : VarId} (mentioned : v ∈ method.mentions) : p.Owns m v := by
  obtain ⟨described, body, completes⟩ := lowers.methods here
  exact completes.owns_of_mem_locals (completes.mem_locals_of_mentions mentioned)

end Description

theorem Program.Loaded.wellFormed {p : Program} (loaded : p.Loaded) : p.WellFormed := by
  obtain ⟨d, loads⟩ := loaded
  obtain ⟨skeleton, lowers⟩ := Description.exists_lowers loads
  have member {α : Type} {read : Method → List α} {m : MethodId} {a : α}
      (inside : a ∈ (p.methods[m]?.map read).getD []) :
      ∃ method, p.methods[m]? = some method ∧ a ∈ read method := by
    cases here : p.methods[m]? with
    | none => simp [here] at inside
    | some method => exact ⟨method, rfl, by simpa [here] using inside⟩
  constructor
  case body =>
    intro m s v inside mentioned
    obtain ⟨method, here, inBody⟩ := member inside
    exact lowers.owns_of_mentions here
      (List.mem_append_right _ (List.mem_flatMap.mpr ⟨s, inBody, mentioned⟩))
  case params =>
    intro m v inside
    obtain ⟨method, here, inParams⟩ := member inside
    exact lowers.owns_of_mentions here (by simp [Method.mentions, inParams])
  case this =>
    intro m v found
    obtain ⟨method, here, receiver⟩ := Option.bind_eq_some_iff.mp found
    exact lowers.owns_of_mentions here (by simp [Method.mentions, receiver])
  case returns =>
    intro m v inside
    obtain ⟨method, here, returned⟩ := member inside
    exact lowers.owns_of_mentions here (by simp [Method.mentions, returned])
  case abstract =>
    intro m abstract
    obtain ⟨method, here, isAbstract⟩ := (Option.any_eq_true _ _).mp abstract
    simp [Program.bodyOf, here, lowers.body_of_abstract here isAbstract]

/-- The loader lists every allocation with its method and its position. -/
theorem Program.Loaded.site_of_new {p : Program} (loaded : p.Loaded) {m : MethodId} {i : Nat} {lhs : VarId}
    {site : SiteId} (here : (p.bodyOf m)[i]? = some (.new lhs site)) :
    ∃ type, p.sites[site]? = some ⟨m, i, type⟩ := by
  obtain ⟨d, loads⟩ := loaded
  obtain ⟨skeleton, lowers⟩ := Description.exists_lowers loads
  obtain ⟨method, listed, inBody⟩ := Program.getElem?_of_bodyOf here
  obtain ⟨described, body, completes⟩ := lowers.methods listed
  obtain ⟨type, -, recorded⟩ := completes.site_of_new inBody
  exact ⟨type, recorded⟩

/-- A method of a loaded program returns what its statements return. -/
theorem Program.Loaded.mem_returnsOf {p : Program} (loaded : p.Loaded) {m : MethodId} {v : VarId} :
    v ∈ p.returnsOf m ↔ .ret (some v) ∈ p.bodyOf m := by
  obtain ⟨d, loads⟩ := loaded
  obtain ⟨skeleton, lowers⟩ := Description.exists_lowers loads
  cases found : p.methods[m]? with
  | none => simp [Program.returnsOf, Program.bodyOf, found]
  | some method =>
      obtain ⟨described, body, completes⟩ := lowers.methods found
      simp only [Program.returnsOf, Program.bodyOf, found, Option.map_some, Option.getD_some,
        completes.returns_eq, List.mem_eraseDups, mem_returned]

/-! ## Programs from descriptions -/

namespace Description

/-- The program as the loader numbers it, or the empty program. -/
def program (d : Description) : Program :=
  match d.load with
  | .ok p => p
  | .error _ => {}

/-- The analysis of the program without contexts. -/
def setting (d : Description) : Setting := ⟨d.program, d.program.entry, ⟨.insensitive, 0, 0⟩, .site⟩

end Description

/-! ## A sample -/

/-- A program that calls a method on an object it allocates. -/
def Description.sample : Description where
  classes := [
    { name := "A"
      methods := [
        { name := "main", isStatic := true, body := [
          .new "x" "A",
          .invoke .virtual "A" "run/1" (some "x") ["x"] (some "y")] },
        { name := "run", params := ["p"], body := [.ret (some "p")] }] }]
  entry := ⟨"A", "main/0"⟩

/-- The sample as the loader numbers it. -/
def Program.sample : Program where
  classes := #[⟨"A", none, [], false, false, [], [0, 1]⟩]
  methods := #[
    ⟨"main", "main/0", 0, true, false, [], none, [], [0, 1],
      [.new 0 0, .invoke ⟨.virtual, ⟨0, "run/1"⟩, some 0, [0], some 1⟩]⟩,
    ⟨"run", "run/1", 0, false, false, [3], some 2, [3], [2, 3], [.ret (some 3)]⟩]
  vars := #[⟨"x", 0⟩, ⟨"y", 0⟩, ⟨"this", 1⟩, ⟨"p", 1⟩]
  sites := #[⟨0, 0, .ofClass 0⟩]
  entry := 0

theorem Program.loaded_sample : Program.sample.Loaded := ⟨Description.sample, by decide +kernel⟩

/-- An analysis of the sample with the receiver object as context. -/
def Setting.sample : Setting := ⟨Program.sample, 0, ⟨.object, 1, 1⟩, .site⟩

end PointsTo
