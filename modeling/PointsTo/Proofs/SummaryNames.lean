/- # SummaryNames -- the variables of a summary by their names

A summary lists what variables point to by their names, and a name is put together from a class, a subsignature and a
variable with `: ` and `>/` between them.  None of the three is restricted, so two variables can have one name, and
then the later one takes the place of the earlier (`lookup_entered`).  A summary has an entry for every variable that
has objects exactly when no two of them have one name (`losesNone_iff`).  That is so where no class name has the first
separator in it and no subsignature the second: a separator of two different characters cannot overlap itself, so a
text without it is what stands before its first place (`append_separator_inj`).

Main statement: `summarises_of_reached`. -/
import Mathlib.Data.String.Basic
import PointsTo.Proofs.Dispatch
import PointsTo.Proofs.SetCounts

set_option autoImplicit false

namespace PointsTo

/-! ## Entries -/

section Entries

variable {α : Type}

/-- An entry in its place keeps the names in order. -/
theorem mem_map_fst_enter {name other : String} {value : α} {entries : List (String × α)} :
    other ∈ (enter name value entries).map (·.1) ↔ other = name ∨ other ∈ entries.map (·.1) := by
  induction entries with
  | nil => simp [enter]
  | cons entry rest ih =>
      obtain ⟨first, old⟩ := entry
      unfold enter
      split
      · simp
      · split
        · rename_i same
          simp [same]
        · simp only [List.map_cons, List.mem_cons, ih]
          tauto

theorem ascends_enter {name : String} {value : α} {entries : List (String × α)}
    (ordered : (entries.map (·.1)).Pairwise (· < ·)) : ((enter name value entries).map (·.1)).Pairwise (· < ·) := by
  induction entries with
  | nil => simp [enter]
  | cons entry rest ih =>
      obtain ⟨first, old⟩ := entry
      obtain ⟨above, tail⟩ := List.pairwise_cons.mp ordered
      unfold enter
      split
      · rename_i before
        refine List.pairwise_cons.mpr ⟨fun other member => ?_, ordered⟩
        rcases List.mem_cons.mp member with rfl | later
        · exact before
        · exact lt_trans before (above other later)
      · split
        · rename_i same
          subst same
          exact ordered
        · rename_i notBefore differs
          refine List.pairwise_cons.mpr ⟨fun other member => ?_, ih tail⟩
          rcases mem_map_fst_enter.mp member with rfl | later
          · exact lt_of_le_of_ne (not_lt.mp notBefore) (Ne.symm differs)
          · exact above other later

theorem entered_concat (entries : List (String × α)) (entry : String × α) :
    entered (entries ++ [entry]) = enter entry.1 entry.2 (entered entries) := by
  rw [entered, List.foldl_append]
  rfl

theorem ascends_entered (entries : List (String × α)) : ((entered entries).map (·.1)).Pairwise (· < ·) := by
  induction entries using List.reverseRecOn with
  | nil => exact .nil
  | append_singleton entries entry ih =>
      rw [entered_concat]
      exact ascends_enter ih

theorem mem_map_fst_entered {entries : List (String × α)} {name : String} :
    name ∈ (entered entries).map (·.1) ↔ name ∈ entries.map (·.1) := by
  induction entries using List.reverseRecOn with
  | nil => rfl
  | append_singleton entries entry ih =>
      rw [entered_concat, mem_map_fst_enter, ih, List.map_append, List.mem_append, List.map_singleton,
        List.mem_singleton, or_comm]

/-- An entry is the last that there was for its name. -/
theorem lookup_entered (entries : List (String × α)) (name : String) :
    (entered entries).lookup name = entries.reverse.lookup name := by
  induction entries using List.reverseRecOn with
  | nil => rfl
  | append_singleton entries entry ih =>
      rw [entered_concat, lookup_enter, ih, List.reverse_append, List.reverse_singleton, List.singleton_append,
        ← lookup_cons_eq]

/-- There are as many entries as there are names. -/
theorem length_entered (entries : List (String × α)) :
    (entered entries).length = (entries.map (·.1)).eraseDups.length := by
  have distinct : ((entered entries).map (·.1)).Nodup := (ascends_entered entries).imp ne_of_lt
  have shuffled : ((entered entries).map (·.1)).Perm (entries.map (·.1)).eraseDups :=
    (List.perm_ext_iff_of_nodup distinct (nodup_eraseDups _)).mpr fun name => by
      rw [List.mem_eraseDups, mem_map_fst_entered]
  rw [← shuffled.length_eq, List.length_map]

end Entries

/-! ## Texts with a separator -/

section Separators

variable {α : Type} {a b : α}

/-- What stands before a separator is no longer than another text that does not have it. -/
theorem append_separator_inj (differ : a ≠ b) {xs ys rest rest' : List α} (clean : ¬[a, b] <:+: xs)
    (clean' : ¬[a, b] <:+: ys) (same : xs ++ a :: b :: rest = ys ++ a :: b :: rest') : xs = ys ∧ rest = rest' := by
  have shorter : ∀ {xs ys more rest rest' : List α}, ¬[a, b] <:+: ys → ys = xs ++ more →
      a :: b :: rest = more ++ a :: b :: rest' → more = [] := by
    intro xs ys more rest rest' clean longer same
    match more with
    | [] => rfl
    | [_] =>
        simp only [List.singleton_append, List.cons.injEq] at same
        exact absurd same.2.1.symm differ
    | _ :: _ :: others =>
        simp only [List.cons_append, List.cons.injEq] at same
        obtain ⟨rfl, rfl, -⟩ := same
        exact absurd ⟨xs, others, by simp [longer]⟩ clean
  rcases List.append_eq_append_iff.mp same with ⟨more, longer, tail⟩ | ⟨more, longer, tail⟩
  · cases shorter clean' longer tail
    simpa [longer] using tail
  · cases shorter clean longer tail
    simpa [longer] using tail.symm

end Separators

/-! ## Names of variables -/

namespace Program

variable {p : Program}

/-- No class name has the separator in it that follows it in the names of variables, and no subsignature the one
that follows it. -/
structure SeparatesNames (p : Program) : Prop where
  classes : ∀ c ∈ p.classes, ¬[':', ' '] <:+: c.name.toList
  subsignatures : ∀ m ∈ p.methods, ¬['>', '/'] <:+: m.subsignature.toList

theorem toList_varName {m : MethodId} {method : Method} (here : p.methods[m]? = some method) {v : VarId}
    (owned : p.Owns m v) : (p.varName v).toList = '<' :: ((p.className method.owner).toList ++ ':' :: ' ' ::
      (method.subsignature.toList ++ '>' :: '/' :: (p.localName v).toList)) := by
  simp [varName, owned.methodOfVar, methodName, memberName, ownerOf, here]

namespace Loaded

variable (loaded : p.Loaded)
include loaded

theorem exists_owner {m : MethodId} {method : Method} (here : p.methods[m]? = some method) :
    ∃ c, p.classes[method.owner]? = some c := by
  have named : method.owner ∈ p.mentionedClasses := by
    have listed : method.owner ∈ p.methods.toList.map (·.owner) :=
      List.mem_map_of_mem (Array.mem_toList_iff.mpr (Array.mem_of_getElem? here))
    simp [mentionedClasses, listed]
  exact ⟨_, Array.getElem?_eq_getElem (loaded.inRange.classes _ named)⟩

/-- Two classes have two names. -/
theorem className_injective {c d : ClassId} {made made' : Class} (here : p.classes[c]? = some made)
    (there : p.classes[d]? = some made') (same : made.name = made'.name) : c = d := by
  obtain ⟨description, loads⟩ := loaded
  have classes := @(Description.coherent_of_load loads).classes
  have found := classes.mpr ⟨made, here, same⟩
  exact Option.some.inj (found.symm.trans (classes.mpr ⟨made', there, rfl⟩))

/-- Two methods differ in their class or in their subsignature. -/
theorem method_injective {m m' : MethodId} {method method' : Method} (here : p.methods[m]? = some method)
    (there : p.methods[m']? = some method') (owner : method.owner = method'.owner)
    (subsignature : method.subsignature = method'.subsignature) : m = m' := by
  have declares : ∀ {m : MethodId} {method : Method}, p.methods[m]? = some method →
      p.DeclaresMethod method.owner method.subsignature m := by
    intro m method here
    have owned : p.ownerOf m = method.owner := by simp [ownerOf, here]
    exact ⟨(loaded.mem_methodsOf_iff (Array.getElem?_eq_some_iff.mp here).1).mpr owned, by simp [here]⟩
  have declares' := declares there
  rw [← owner, ← subsignature] at declares'
  exact loaded.unique (declares here) declares'

/-- Two variables have two names where the separators tell the parts of names apart. -/
theorem varName_injective (separates : p.SeparatesNames) {m m' : MethodId} {v w : VarId} (owned : p.Owns m v)
    (owned' : p.Owns m' w) (same : p.varName v = p.varName w) : v = w := by
  obtain ⟨method, here⟩ := loaded.exists_method_of_owns owned
  obtain ⟨method', there⟩ := loaded.exists_method_of_owns owned'
  obtain ⟨c, made⟩ := loaded.exists_owner here
  obtain ⟨c', made'⟩ := loaded.exists_owner there
  have texts := congrArg String.toList same
  rw [toList_varName here owned, toList_varName there owned', List.cons.injEq] at texts
  have ofClass : p.className method.owner = c.name := by simp [className, made]
  have ofClass' : p.className method'.owner = c'.name := by simp [className, made']
  rw [ofClass, ofClass'] at texts
  obtain ⟨classes, members⟩ := append_separator_inj (by decide) (separates.classes c (Array.mem_of_getElem? made))
    (separates.classes c' (Array.mem_of_getElem? made')) texts.2
  obtain ⟨subsignatures, names⟩ := append_separator_inj (by decide)
    (separates.subsignatures method (Array.mem_of_getElem? here))
    (separates.subsignatures method' (Array.mem_of_getElem? there)) members
  have owner := loaded.className_injective made made' (String.toList_injective classes)
  cases loaded.method_injective here there owner (String.toList_injective subsignatures)
  cases here.symm.trans there
  obtain ⟨description, loads⟩ := loaded
  have coherent := (Description.coherent_of_load loads).methods here
  exact List.inj_on_of_nodup_map coherent.names ((coherent.locals v).mpr owned) ((coherent.locals w).mpr owned')
    (String.toList_injective names)

end Loaded

end Program

/-! ## Sets by name -/

namespace Result

variable {r : Result}

/-- The local variables of the reachable methods that have objects. -/
def filledLocals (r : Result) : List VarId := r.reachableLocals.filter fun v => r.pointsTo v ≠ []

/-- The names of the objects of a variable. -/
def objectNames (r : Result) (v : VarId) : List String := (r.pointsTo v).map r.objectName

/-- Every variable that has objects has an entry with just these under its name, and there are no more entries. -/
structure LosesNone (r : Result) : Prop where
  entries : ∀ v ∈ r.filledLocals, r.pointsToNames.lookup (r.setting.program.varName v) = some (r.objectNames v)
  length : r.pointsToNames.length = r.filledLocals.length

/-- What a summary has of the sets of variables. -/
structure Summarises (r : Result) : Prop where
  /-- Entries are in the order of their names, one for a name. -/
  ascending : (r.pointsToNames.map (·.1)).Pairwise (· < ·)
  /-- An entry is that of the last variable of its name. -/
  lookup : ∀ name, r.pointsToNames.lookup name =
    (r.filledLocals.reverse.find? fun v => r.setting.program.varName v = name).map r.objectNames
  length : r.pointsToNames.length = {name | ∃ v ∈ r.filledLocals, r.setting.program.varName v = name}.ncard
  /-- Variables are lost just where two of them have one name. -/
  losesNone : r.LosesNone ↔ ∀ v ∈ r.filledLocals, ∀ w ∈ r.filledLocals,
    r.setting.program.varName v = r.setting.program.varName w → v = w

theorem pointsToNames_eq : r.pointsToNames =
    entered (r.filledLocals.map fun v => (r.setting.program.varName v, r.objectNames v)) := by
  rw [pointsToNames, filledLocals]
  congr 1
  induction r.reachableLocals with
  | nil => rfl
  | cons v rest ih => cases objects : r.pointsTo v <;> simp [objectNames, objects, ih]

theorem map_fst_filledLocals : (r.filledLocals.map fun v => (r.setting.program.varName v, r.objectNames v)).map (·.1) =
    r.filledLocals.map r.setting.program.varName := by
  rw [List.map_map]
  rfl

theorem lookup_pointsToNames (name : String) : r.pointsToNames.lookup name =
    (r.filledLocals.reverse.find? fun v => r.setting.program.varName v = name).map r.objectNames := by
  rw [pointsToNames_eq, lookup_entered, ← List.map_reverse]
  induction r.filledLocals.reverse with
  | nil => rfl
  | cons v rest ih =>
      rw [List.map_cons, lookup_cons_eq, ih, List.find?_cons]
      by_cases same : name = r.setting.program.varName v
      · simp [same]
      · simp [same, Ne.symm same]

theorem length_pointsToNames :
    r.pointsToNames.length = (r.filledLocals.map r.setting.program.varName).eraseDups.length := by
  rw [pointsToNames_eq, length_entered, map_fst_filledLocals]

theorem summarises (distinct : r.reachableLocals.Nodup) : r.Summarises := by
  constructor
  case ascending =>
    rw [pointsToNames_eq]
    exact ascends_entered _
  case lookup => exact lookup_pointsToNames
  case length =>
    rw [length_pointsToNames, ← List.toFinset_card_of_nodup (nodup_eraseDups _), ← Set.ncard_coe_finset]
    congr 1
    ext name
    simp
  case losesNone =>
    constructor
    · intro complete v filled w filled'
      have names := length_pointsToNames.symm.trans complete.length
      exact List.inj_on_of_nodup_map (nodup_of_length_eraseDups (names.trans (List.length_map _).symm)) filled filled'
    · intro apart
      have names : (r.filledLocals.map r.setting.program.varName).Nodup := (distinct.filter _).map_on apart
      constructor
      · intro v filled
        rw [lookup_pointsToNames]
        cases found : r.filledLocals.reverse.find? fun w => r.setting.program.varName w = r.setting.program.varName v with
        | none => simpa using List.find?_eq_none.mp found v (List.mem_reverse.mpr filled)
        | some w =>
            have filled' := List.mem_reverse.mp (List.mem_of_find?_eq_some found)
            rw [apart w filled' v filled (by simpa using List.find?_some found), Option.map_some]
      · rw [length_pointsToNames, eraseDups_of_nodup names, List.length_map]

/-- A summary has for every name the objects of the last variable that has the name, and where the separators tell the
parts of names apart it has all variables. -/
theorem summarises_of_loaded (loaded : r.setting.program.Loaded) :
    r.Summarises ∧ (r.setting.program.SeparatesNames → r.LosesNone) := by
  have summarised := summarises (nodup_reachableLocals loaded)
  refine ⟨summarised, fun separates => summarised.losesNone.mpr fun v filled w filled' same => ?_⟩
  obtain ⟨-, m, owned, -⟩ := (mem_reachableLocals loaded).mp (List.mem_filter.mp filled).1
  obtain ⟨-, m', owned', -⟩ := (mem_reachableLocals loaded).mp (List.mem_filter.mp filled').1
  exact loaded.varName_injective separates owned owned' same

open State (nested) in
/-- No name of the nodes has a separator too many, so the summary of nodes within nodes has all three variables. -/
theorem summarises_of_loaded_nest :
    nested.analyse.Summarises ∧ nested.analyse.LosesNone ∧
    nested.analyse.pointsToNames = [
      ("<Node: grow/0>/next", ["NewObj\x7b<Node: grow/0>[0]: new Node\x7d"]),
      ("<Node: grow/0>/this", ["NewObj\x7b<Node: main/0>[0]: new Node\x7d",
        "NewObj\x7b<Node: grow/0>[0]: new Node\x7d"]),
      ("<Node: main/0>/first", ["NewObj\x7b<Node: main/0>[0]: new Node\x7d"])] := by
  have loaded : nested.program.Loaded := ⟨Description.nest, by decide +kernel⟩
  have separates : nested.program.SeparatesNames := ⟨by decide +kernel, by decide +kernel⟩
  obtain ⟨summarised, complete⟩ := summarises_of_loaded (r := nested.analyse) loaded
  exact ⟨summarised, complete separates, by decide +kernel⟩

end Result

/-- A class with a method and a class with a longer name and a method with a shorter one. -/
def Description.homonyms : Description where
  classes := [
    { name := "A"
      methods := [
        { name := "B: main", isStatic := true, body := [
          .new "x" "A", .invoke .static "A: B" "main/0" none [] none] }] },
    { name := "A: B"
      methods := [{ name := "main", isStatic := true, body := [.new "x" "A: B"] }] }]
  entry := ⟨"A", "B: main/0"⟩

open Description (homonyms) in
/-- The two methods have one name, and so have their variables: the statistics count two variables with objects, and
the summary has the object of the second only. -/
theorem Result.not_losesNone_homonyms :
    homonyms.load = .ok homonyms.program ∧
    homonyms.setting.analyse.filledLocals = [0, 1] ∧
    [0, 1].map homonyms.program.varName = ["<A: B: main/0>/x", "<A: B: main/0>/x"] ∧
    [0, 1].map homonyms.setting.analyse.objectNames =
      [["NewObj\x7b<A: B: main/0>[0]: new A\x7d"], ["NewObj\x7b<A: B: main/0>[0]: new A: B\x7d"]] ∧
    homonyms.setting.analyse.statistics.mergedSets.pointers = 2 ∧
    homonyms.setting.analyse.pointsToNames =
      [("<A: B: main/0>/x", ["NewObj\x7b<A: B: main/0>[0]: new A: B\x7d"])] ∧
    ¬homonyms.setting.analyse.LosesNone :=
  ⟨by decide +kernel, by decide +kernel, by decide +kernel, by decide +kernel, by decide +kernel, by decide +kernel,
    fun complete => absurd complete.length (by decide +kernel)⟩

end PointsTo
