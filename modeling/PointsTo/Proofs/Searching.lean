/- # Searching -- what a search along links finds

A search finds only what links lead to (`mem_visit`).  Every round takes a pending node, and a node adds its
links once, so a search that has a round for each pending node and each link of a node it has not seen
(`openLinks`) comes to its end with nothing pending (`Visits`), and what it has found then is closed under the
links (`Visits.closed`).  A search that stops at the first answer of a node (`Seeks`) gives the first answer among
the nodes of a whole search.

Main statements: `reaches_of_mem_visit`, `visits_visit`, `Visits.mem_of_reaches` and `Visits.seeks`. -/
import Mathlib.Data.List.Perm.Basic
import Mathlib.Logic.Relation
import PointsTo.Hierarchy.Search

set_option autoImplicit false

namespace PointsTo

variable {α : Type} [DecidableEq α] {links : α → List α} {join : List α → List α → List α}

/-- Links lead from one node to another. -/
def Reaches (links : α → List α) : α → α → Prop := Relation.ReflTransGen fun a b => b ∈ links a

/-! ## What is found is reached -/

/-- What a search finds was seen before or is reached from a pending node. -/
theorem mem_visit (joins : ∀ new pending, (join new pending).Perm (new ++ pending)) {rounds : Nat}
    {pending seen : List α} {x : α} (found : x ∈ visit links join rounds pending seen) :
    x ∈ seen ∨ ∃ p ∈ pending, Reaches links p x := by
  induction rounds generalizing pending seen with
  | zero => exact .inl found
  | succ rounds ih =>
      cases pending with
      | nil => exact .inl found
      | cons node pending =>
          rw [visit] at found
          split at found
          · rcases ih found with old | ⟨p, member, reaches⟩
            · exact .inl old
            · exact .inr ⟨p, List.mem_cons_of_mem node member, reaches⟩
          · rcases ih found with old | ⟨p, member, reaches⟩
            · rcases List.mem_append.mp old with older | same
              · exact .inl older
              · rw [List.mem_singleton.mp same]
                exact .inr ⟨node, List.mem_cons_self, .refl⟩
            · rcases List.mem_append.mp ((joins _ _).mem_iff.mp member) with new | later
              · exact .inr ⟨node, List.mem_cons_self, .head new reaches⟩
              · exact .inr ⟨p, List.mem_cons_of_mem node later, reaches⟩

/-- What a search from one node finds is reached from it. -/
theorem reaches_of_mem_visit (joins : ∀ new pending, (join new pending).Perm (new ++ pending)) {rounds : Nat}
    {root x : α} (found : x ∈ visit links join rounds [root] []) : Reaches links root x := by
  rcases mem_visit joins found with old | ⟨p, member, reaches⟩
  · cases old
  · rw [List.mem_singleton.mp member] at reaches
    exact reaches

theorem reaches_of_mem_depthFirst {rounds : Nat} {root x : α} (found : x ∈ depthFirst links rounds root) :
    Reaches links root x :=
  reaches_of_mem_visit (fun _ _ => List.Perm.refl _) found

theorem reaches_of_mem_breadthFirst {rounds : Nat} {root x : α}
    (found : x ∈ breadthFirst links rounds root) : Reaches links root x :=
  reaches_of_mem_visit (fun _ _ => List.perm_append_comm) found

/-! ## What is reached is found -/

/-- The count of links, over a list of nodes, of those that are not seen. -/
def openLinks (links : α → List α) (seen : List α) : List α → Nat
  | [] => 0
  | c :: rest => (if c ∈ seen then 0 else (links c).length) + openLinks links seen rest

theorem openLinks_append_le (links : α → List α) (seen nodes : List α) (node : α) :
    openLinks links (seen ++ [node]) nodes ≤ openLinks links seen nodes := by
  induction nodes with
  | nil => exact Nat.le_refl 0
  | cons c rest ih =>
      unfold openLinks
      refine Nat.add_le_add ?_ ih
      by_cases old : c ∈ seen
      · simp [old]
      · rw [if_neg old]
        split
        · exact Nat.zero_le _
        · exact Nat.le_refl _

/-- Seeing a node takes its links away. -/
theorem openLinks_append (seen nodes : List α) {node : α} (fresh : node ∉ seen) (member : node ∈ nodes) :
    openLinks links (seen ++ [node]) nodes + (links node).length ≤ openLinks links seen nodes := by
  induction nodes with
  | nil => cases member
  | cons c rest ih =>
      unfold openLinks
      by_cases here : c = node
      · have others := openLinks_append_le links seen rest node
        rw [here, if_pos (List.mem_append_right _ (List.mem_singleton_self node)), if_neg fresh]
        omega
      · have later := ih ((List.mem_cons.mp member).resolve_left (Ne.symm here))
        have same : c ∈ seen ++ [node] ↔ c ∈ seen := by simp [here]
        simp only [same]
        omega

theorem openLinks_append_of_covers {nodes : List α} (covers : ∀ c, links c ≠ [] → c ∈ nodes) {seen : List α}
    {node : α} (fresh : node ∉ seen) :
    openLinks links (seen ++ [node]) nodes + (links node).length ≤ openLinks links seen nodes := by
  by_cases none : links node = []
  · rw [none]
    exact openLinks_append_le links seen nodes node
  · exact openLinks_append seen nodes fresh (covers node none)

/-! ## A search that comes to its end -/

/-- The search from pending nodes ends, in however many rounds, with nothing pending. -/
inductive Visits (links : α → List α) (join : List α → List α → List α) :
    List α → List α → List α → Prop
  | nil (seen : List α) : Visits links join [] seen seen
  | skip {node : α} {pending seen result : List α} (old : node ∈ seen)
      (rest : Visits links join pending seen result) : Visits links join (node :: pending) seen result
  | take {node : α} {pending seen result : List α} (fresh : node ∉ seen)
      (rest : Visits links join (join (links node) pending) (seen ++ [node]) result) :
      Visits links join (node :: pending) seen result

/-- A search with enough rounds comes to its end. -/
theorem visits_visit (joins : ∀ new pending, (join new pending).Perm (new ++ pending)) {nodes : List α}
    (covers : ∀ c, links c ≠ [] → c ∈ nodes) {rounds : Nat} {pending seen : List α}
    (enough : pending.length + openLinks links seen nodes ≤ rounds) :
    Visits links join pending seen (visit links join rounds pending seen) := by
  induction rounds generalizing pending seen with
  | zero =>
      have empty : pending = [] := List.eq_nil_of_length_eq_zero (by omega)
      subst empty
      exact .nil seen
  | succ rounds ih =>
      cases pending with
      | nil => exact .nil seen
      | cons node pending =>
          rw [List.length_cons] at enough
          rw [visit]
          split
          · rename_i old
            exact .skip old (ih (by omega))
          · rename_i fresh
            have fewer := openLinks_append_of_covers covers fresh
            have length := (joins (links node) pending).length_eq
            rw [List.length_append] at length
            exact .take fresh (ih (by omega))

omit [DecidableEq α] in
/-- A search that came to its end has what was seen, what was pending and what their links lead to. -/
theorem Visits.closed (joins : ∀ new pending, (join new pending).Perm (new ++ pending))
    {pending seen result : List α} (visits : Visits links join pending seen result)
    (followed : ∀ x ∈ seen, ∀ y ∈ links x, y ∈ seen ∨ y ∈ pending) :
    (∀ x, x ∈ seen ∨ x ∈ pending → x ∈ result) ∧ ∀ x ∈ result, ∀ y ∈ links x, y ∈ result := by
  induction visits with
  | nil seen =>
      refine ⟨fun x known => known.resolve_right List.not_mem_nil, fun x member y link => ?_⟩
      exact (followed x member y link).resolve_right List.not_mem_nil
  | @skip node pending seen result old _ ih =>
      have still : ∀ x, x ∈ seen ∨ x ∈ node :: pending → x ∈ seen ∨ x ∈ pending := by
        rintro x (known | waiting)
        · exact .inl known
        · rcases List.mem_cons.mp waiting with rfl | later
          · exact .inl old
          · exact .inr later
      obtain ⟨keeps, closed⟩ := ih fun x member y link => still y (followed x member y link)
      exact ⟨fun x known => keeps x (still x known), closed⟩
  | @take node pending seen result fresh _ ih =>
      have inJoin : ∀ x, x ∈ join (links node) pending ↔ x ∈ links node ∨ x ∈ pending :=
        fun x => (joins _ _).mem_iff.trans List.mem_append
      have still : ∀ x, x ∈ seen ∨ x ∈ node :: pending →
          x ∈ seen ++ [node] ∨ x ∈ join (links node) pending := by
        rintro x (known | waiting)
        · exact .inl (List.mem_append_left _ known)
        · rcases List.mem_cons.mp waiting with rfl | later
          · exact .inl (List.mem_append_right _ (List.mem_singleton_self _))
          · exact .inr ((inJoin x).mpr (.inr later))
      obtain ⟨keeps, closed⟩ := ih (by
        intro x member y link
        rcases List.mem_append.mp member with older | same
        · exact still y (followed x older y link)
        · rw [List.mem_singleton.mp same] at link
          exact .inr ((inJoin y).mpr (.inl link)))
      exact ⟨fun x known => keeps x (still x known), closed⟩

omit [DecidableEq α] in
/-- A search from one node that came to its end has what is reached from it. -/
theorem Visits.mem_of_reaches (joins : ∀ new pending, (join new pending).Perm (new ++ pending))
    {root : α} {result : List α} (visits : Visits links join [root] [] result) {x : α}
    (reaches : Reaches links root x) : x ∈ result := by
  obtain ⟨keeps, closed⟩ := visits.closed joins fun x member => by cases member
  induction reaches with
  | refl => exact keeps root (.inr (List.mem_singleton_self root))
  | tail _ link ih => exact closed _ ih _ link

theorem visits_depthFirst (nodes : List α) (covers : ∀ c, links c ≠ [] → c ∈ nodes) {rounds : Nat}
    (enough : 1 + openLinks links [] nodes ≤ rounds) (root : α) :
    Visits links (fun new pending => new ++ pending) [root] [] (depthFirst links rounds root) :=
  visits_visit (fun _ _ => List.Perm.refl _) covers enough

theorem visits_breadthFirst (nodes : List α) (covers : ∀ c, links c ≠ [] → c ∈ nodes) {rounds : Nat}
    (enough : 1 + openLinks links [] nodes ≤ rounds) (root : α) :
    Visits links (fun new pending => pending ++ new) [root] [] (breadthFirst links rounds root) :=
  visits_visit (fun _ _ => List.perm_append_comm) covers enough

/-! ## A search that stops early -/

/-- The search asks the nodes as it takes them, and ends with the first answer or with nothing pending.  A node
that was seen had no answer, so it makes no difference whether it is asked again before it is passed over. -/
inductive Seeks {β : Type} (links : α → List α) (join : List α → List α → List α) (ask : α → Option β) :
    List α → List α → Option β → Prop
  | nil (seen : List α) : Seeks links join ask [] seen none
  | found {node : α} {pending seen : List α} {answer : β} (fresh : node ∉ seen)
      (answers : ask node = some answer) : Seeks links join ask (node :: pending) seen (some answer)
  | skip {node : α} {pending seen : List α} {result : Option β} (old : node ∈ seen) (silent : ask node = none)
      (rest : Seeks links join ask pending seen result) : Seeks links join ask (node :: pending) seen result
  | take {node : α} {pending seen : List α} {result : Option β} (fresh : node ∉ seen)
      (silent : ask node = none)
      (rest : Seeks links join ask (join (links node) pending) (seen ++ [node]) result) :
      Seeks links join ask (node :: pending) seen result

section Seeks

omit [DecidableEq α]

variable {β : Type} {ask : α → Option β}

/-- A search keeps what was seen in front. -/
theorem Visits.seen_isPrefix {pending seen result : List α} (visits : Visits links join pending seen result) :
    seen <+: result := by
  induction visits with
  | nil seen => exact List.prefix_refl seen
  | skip _ _ ih => exact ih
  | take _ _ ih => exact (List.prefix_append _ _).trans ih

/-- A search that stops early gives the first answer among the nodes of the whole search. -/
theorem Visits.seeks {pending seen result : List α} (visits : Visits links join pending seen result)
    (silent : ∀ x ∈ seen, ask x = none) :
    Seeks links join ask pending seen (result.findSome? ask) := by
  induction visits with
  | nil seen =>
      rw [List.findSome?_eq_none_iff.mpr silent]
      exact .nil seen
  | skip old _ ih => exact .skip old (silent _ old) (ih silent)
  | @take node pending seen result fresh rest ih =>
      cases asked : ask node with
      | none =>
          refine .take fresh asked (ih fun x member => ?_)
          rcases List.mem_append.mp member with older | same
          · exact silent x older
          · rw [List.mem_singleton.mp same, asked]
      | some answer =>
          obtain ⟨more, whole⟩ := rest.seen_isPrefix
          have first : result.findSome? ask = some answer := by
            rw [← whole, List.findSome?_append, List.findSome?_append, List.findSome?_eq_none_iff.mpr silent]
            simp [asked]
          rw [first]
          exact .found fresh asked

end Seeks

end PointsTo
