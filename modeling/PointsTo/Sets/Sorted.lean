/- # Sorted -- lists in the order of a key

`sortOn` puts a list into the order of a key of naturals, compared from the first on; elements of one key
keep their order.  `enter` adds an entry to a list of entries in the order of their names and takes the place
of an older entry of the same name.  Main statements: `perm_sortOn`, `pairwise_sortOn` and
`lookup_enter`. -/
set_option autoImplicit false

namespace PointsTo

variable {α : Type}

/-! ## By a key -/

/-- Whether a key comes before another: it is smaller at the first place where they differ, or ends
there. -/
def keyBefore : List Nat → List Nat → Bool
  | _, [] => false
  | [], _ :: _ => true
  | a :: as, b :: bs => if a < b then true else if a = b then keyBefore as bs else false

/-- Puts an element in front of the first that does not come before it. -/
def insertOn (key : α → List Nat) (e : α) : List α → List α
  | [] => [e]
  | x :: rest => if keyBefore (key x) (key e) then x :: insertOn key e rest else e :: x :: rest

/-- The list in the order of a key. -/
def sortOn (key : α → List Nat) (xs : List α) : List α := xs.foldr (insertOn key) []

theorem keyBefore_asymm {a b : List Nat} (before : keyBefore a b = true) : keyBefore b a = false := by
  fun_induction keyBefore a b <;> grind [keyBefore]

theorem keyBefore_trans {a b c : List Nat} (first : keyBefore b a = false)
    (second : keyBefore c b = false) : keyBefore c a = false := by
  induction a generalizing b c with
  | nil => cases c <;> rfl
  | cons x as ih =>
    cases b with
    | nil => simp [keyBefore] at first
    | cons y bs =>
      cases c with
      | nil => simp [keyBefore] at second
      | cons z cs => grind [keyBefore]

theorem perm_insertOn (key : α → List Nat) (e : α) (xs : List α) :
    (insertOn key e xs).Perm (e :: xs) := by
  induction xs with
  | nil => exact .refl _
  | cons x rest ih =>
    unfold insertOn
    split
    · exact (ih.cons x).trans (.swap e x rest)
    · exact .refl _

/-- Sorting only changes the order. -/
theorem perm_sortOn (key : α → List Nat) (xs : List α) : (sortOn key xs).Perm xs := by
  induction xs with
  | nil => exact .refl _
  | cons x rest ih => exact (perm_insertOn key x _).trans (ih.cons x)

theorem mem_sortOn (key : α → List Nat) {e : α} {xs : List α} : e ∈ sortOn key xs ↔ e ∈ xs :=
  (perm_sortOn key xs).mem_iff

theorem pairwise_insertOn (key : α → List Nat) (e : α) {xs : List α}
    (ordered : xs.Pairwise fun x y => keyBefore (key y) (key x) = false) :
    (insertOn key e xs).Pairwise fun x y => keyBefore (key y) (key x) = false := by
  induction xs with
  | nil => simp [insertOn]
  | cons x rest ih =>
    have above := (List.pairwise_cons.mp ordered).1
    have tail := (List.pairwise_cons.mp ordered).2
    unfold insertOn
    split
    · rename_i before
      refine List.pairwise_cons.mpr ⟨fun y member => ?_, ih tail⟩
      rcases List.mem_cons.mp ((perm_insertOn key e rest).mem_iff.mp member) with same | later
      · exact same ▸ keyBefore_asymm before
      · exact above y later
    · rename_i notBefore
      have first : keyBefore (key x) (key e) = false := by simpa using notBefore
      refine List.pairwise_cons.mpr ⟨fun y member => ?_, ordered⟩
      rcases List.mem_cons.mp member with same | later
      · exact same ▸ first
      · exact keyBefore_trans first (above y later)

/-- In a sorted list no element comes before an earlier one. -/
theorem pairwise_sortOn (key : α → List Nat) (xs : List α) :
    (sortOn key xs).Pairwise fun x y => keyBefore (key y) (key x) = false := by
  induction xs with
  | nil => exact .nil
  | cons x rest ih => exact pairwise_insertOn key x ih

/-! ## By a name -/

/-- Adds an entry in its place; a later entry of a name takes the place of an earlier one. -/
def enter (name : String) (value : α) : List (String × α) → List (String × α)
  | [] => [(name, value)]
  | (other, old) :: rest =>
    if name < other then (name, value) :: (other, old) :: rest
    else if name = other then (name, value) :: rest
    else (other, old) :: enter name value rest

/-- The entries in the order of their names, the last entry of each name. -/
def entered (entries : List (String × α)) : List (String × α) :=
  entries.foldl (fun done (name, value) => enter name value done) []

theorem lookup_cons_eq (wanted name : String) (value : α) (rest : List (String × α)) :
    ((name, value) :: rest).lookup wanted =
      if wanted = name then some value else rest.lookup wanted := by
  by_cases same : wanted = name
  · simp [same]
  · have differs : (wanted == name) = false := by simpa using same
    simp [List.lookup_cons, differs, same]

theorem lookup_enter (name wanted : String) (value : α) (entries : List (String × α)) :
    (enter name value entries).lookup wanted =
      if wanted = name then some value else entries.lookup wanted := by
  induction entries with
  | nil => simp [enter, lookup_cons_eq]
  | cons entry rest ih =>
    obtain ⟨other, old⟩ := entry
    unfold enter
    split
    · simp only [lookup_cons_eq]
    · split
      · rename_i same
        subst same
        simp only [lookup_cons_eq]
        split <;> rfl
      · rename_i differs
        simp only [lookup_cons_eq, ih]
        grind

end PointsTo
