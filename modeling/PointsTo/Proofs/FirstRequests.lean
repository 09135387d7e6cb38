/- # FirstRequests -- numbers in the order of first requests

A list without its repetitions has every element where it comes first; `firstsOn` keeps, of the elements with one
key, the one that comes first.  Requests are served one after another, each from the state that the one before it
left (`serve`), so two servers that agree on every single request agree on all of them (`serve_congr`).

Keys are numbered in the order of their first request when the keys are the requests without repetitions and every
answer is the position of its key (`Numbered`).  A request keeps to this when it answers a known key with its number
and adds a new one at the end (`Numbered.next`).  Whatever numbers its keys so gives two requests one answer exactly
when their keys are equal (`Numbered.answer_eq_iff`). -/
import Mathlib.Data.List.Basic
import Mathlib.Data.List.Induction
import Mathlib.Data.List.Nodup

set_option autoImplicit false

namespace PointsTo

/-! ## First occurrences -/

/-- What remains of a list without its later repetitions is distinct. -/
theorem nodup_eraseDups {α : Type} [BEq α] [LawfulBEq α] (xs : List α) : xs.eraseDups.Nodup := by
  induction length : xs.length using Nat.strongRecOn generalizing xs with
  | ind n ih =>
      cases xs with
      | nil => simp
      | cons x rest =>
          have shorter : (rest.filter fun y => !y == x).length < n :=
            length ▸ Nat.lt_succ_of_le (List.length_filter_le _ _)
          rw [List.eraseDups_cons, List.nodup_cons]
          exact ⟨by simp [List.mem_eraseDups], ih _ shorter _ rfl⟩

section FirstOccurrences

variable {α κ : Type} [DecidableEq α] [DecidableEq κ] {key : α → κ}

theorem eraseDups_concat_of_mem {xs : List α} {x : α} (old : x ∈ xs) :
    (xs ++ [x]).eraseDups = xs.eraseDups := by
  simp [List.eraseDups_append, List.removeAll, old]

theorem eraseDups_concat_of_not_mem {xs : List α} {x : α} (new : x ∉ xs) :
    (xs ++ [x]).eraseDups = xs.eraseDups ++ [x] := by
  simp [List.eraseDups_append, List.removeAll, List.eraseDups_cons, new]

theorem eraseDups_concat_congr {xs ys : List α} (same : xs.eraseDups = ys.eraseDups) (x : α) :
    (xs ++ [x]).eraseDups = (ys ++ [x]).eraseDups := by
  have alike : x ∈ xs ↔ x ∈ ys := by rw [← List.mem_eraseDups, same, List.mem_eraseDups]
  by_cases old : x ∈ xs
  · rw [eraseDups_concat_of_mem old, eraseDups_concat_of_mem (alike.mp old), same]
  · rw [eraseDups_concat_of_not_mem old, eraseDups_concat_of_not_mem (alike.not.mp old), same]

/-- Where nothing is repeated nothing is left out. -/
theorem eraseDups_of_nodup {xs : List α} (distinct : xs.Nodup) : xs.eraseDups = xs := by
  induction xs using List.reverseRecOn with
  | nil => rfl
  | append_singleton xs last ih =>
      have new : last ∉ xs := fun old => (List.nodup_append.mp distinct).2.2 last old last List.mem_cons_self rfl
      rw [eraseDups_concat_of_not_mem new, ih (List.nodup_append.mp distinct).1]

theorem eraseDups_isPrefix (xs more : List α) : xs.eraseDups <+: (xs ++ more).eraseDups := by
  rw [List.eraseDups_append]
  exact List.prefix_append _ _

omit [DecidableEq α]

/-- The elements that come first with their key, in order. -/
def firstsOn (key : α → κ) (xs : List α) : List α := xs.eraseDupsBy fun x y => key x = key y

theorem firstsOn_cons (x : α) (rest : List α) :
    firstsOn key (x :: rest) = x :: firstsOn key (rest.filter fun y => key y ≠ key x) := by
  simp [firstsOn, List.eraseDupsBy_cons]

/-- One more element is added at the end when its key is new. -/
theorem firstsOn_concat (xs : List α) (x : α) : firstsOn key (xs ++ [x]) =
    if key x ∈ xs.map key then firstsOn key xs else firstsOn key xs ++ [x] := by
  induction length : xs.length using Nat.strongRecOn generalizing xs with
  | ind n ih =>
      cases xs with
      | nil => rfl
      | cons y rest =>
          have shorter : (rest.filter fun z => key z ≠ key y).length < n :=
            length ▸ Nat.lt_succ_of_le (List.length_filter_le _ _)
          rw [List.cons_append, firstsOn_cons, firstsOn_cons, List.filter_append]
          by_cases same : key x = key y
          · simp [same]
          · have known : key x ∈ (rest.filter fun z => key z ≠ key y).map key ↔ key x ∈ (y :: rest).map key := by
              simp only [List.mem_map, List.mem_filter, decide_eq_true_eq, List.mem_cons]
              constructor
              · rintro ⟨z, ⟨member, -⟩, named⟩
                exact ⟨z, .inr member, named⟩
              · rintro ⟨z, rfl | member, named⟩
                · exact absurd named.symm same
                · exact ⟨z, ⟨member, fun equal => same (named.symm.trans equal)⟩, named⟩
            rw [List.filter_cons_of_pos (by simpa using same), List.filter_nil, ih _ shorter _ rfl]
            simp only [known]
            split <;> simp

/-- What is kept is what a search for its key finds. -/
theorem mem_firstsOn_iff {xs : List α} {x : α} :
    x ∈ firstsOn key xs ↔ xs.find? (fun y => key y = key x) = some x := by
  induction xs using List.reverseRecOn with
  | nil => simp [firstsOn]
  | append_singleton xs last ih =>
      have known : key last ∈ xs.map key ↔ (xs.find? fun y => key y = key last).isSome = true := by
        simp [List.find?_isSome]
      rw [firstsOn_concat, List.find?_append]
      split
      · rename_i old
        rw [ih]
        cases found : xs.find? fun y => key y = key x with
        | some y => simp
        | none =>
            have differs : key last ≠ key x := by
              intro same
              rw [known, same, found] at old
              cases old
            simp [differs]
      · rename_i new
        rw [List.mem_append, ih, List.mem_singleton]
        cases found : xs.find? fun y => key y = key x with
        | none =>
            constructor
            · rintro (impossible | rfl)
              · cases impossible
              · simp
            · intro last?
              simp only [Option.none_or, List.find?_singleton] at last?
              split at last?
              · exact .inr (Option.some.inj last?).symm
              · cases last?
        | some y =>
            have differs : x ≠ last := fun same => new (known.mpr (by simp [← same, found]))
            simp [differs]

/-- Every key is kept once. -/
theorem mem_map_firstsOn {xs : List α} {k : κ} : k ∈ (firstsOn key xs).map key ↔ k ∈ xs.map key := by
  constructor
  · intro member
    obtain ⟨x, kept, rfl⟩ := List.mem_map.mp member
    exact List.mem_map_of_mem (List.mem_of_find?_eq_some (mem_firstsOn_iff.mp kept))
  · intro member
    obtain ⟨x, listed, rfl⟩ := List.mem_map.mp member
    cases found : xs.find? fun y => key y = key x with
    | none => exact absurd (decide_eq_true rfl) (List.find?_eq_none.mp found x listed)
    | some y =>
        have same : key y = key x := by simpa using List.find?_some found
        rw [← same] at found ⊢
        exact List.mem_map_of_mem (mem_firstsOn_iff.mpr found)

theorem nodup_map_firstsOn (xs : List α) : ((firstsOn key xs).map key).Nodup := by
  induction xs using List.reverseRecOn with
  | nil => exact List.nodup_nil
  | append_singleton xs last ih =>
      rw [firstsOn_concat]
      split
      · exact ih
      · rename_i new
        rw [List.map_append, List.map_singleton, ← List.concat_eq_append]
        exact List.Nodup.concat (fun member => new (mem_map_firstsOn.mp member)) ih

variable (key) in
/-- A search by key ends at the same element when only the first elements of the keys are left. -/
theorem find?_firstsOn (wanted : κ → Bool) (xs : List α) :
    (firstsOn key xs).find? (fun x => wanted (key x)) = xs.find? fun x => wanted (key x) := by
  induction xs using List.reverseRecOn with
  | nil => rfl
  | append_singleton xs last ih =>
      rw [firstsOn_concat, List.find?_append, ← ih]
      split
      · rename_i old
        obtain ⟨x, listed, same⟩ := List.mem_map.mp (mem_map_firstsOn.mpr old)
        cases found : (firstsOn key xs).find? fun x => wanted (key x) with
        | some y => rfl
        | none =>
            have refused := List.find?_eq_none.mp found x listed
            rw [same] at refused
            simp [refused]
      · rw [List.find?_append]

variable (key) in
/-- What is read off the keys has the same first occurrences. -/
theorem eraseDups_map_firstsOn {β : Type} [DecidableEq β] (read : κ → β) (xs : List α) :
    ((firstsOn key xs).map fun x => read (key x)).eraseDups = (xs.map fun x => read (key x)).eraseDups := by
  induction xs using List.reverseRecOn with
  | nil => rfl
  | append_singleton xs last ih =>
      rw [firstsOn_concat, List.map_append, List.map_singleton]
      split
      · rename_i old
        obtain ⟨x, listed, same⟩ := List.mem_map.mp old
        have known : read (key last) ∈ xs.map fun x => read (key x) := List.mem_map.mpr ⟨x, listed, by rw [same]⟩
        rw [ih, eraseDups_concat_of_mem known]
      · rw [List.map_append, List.map_singleton]
        exact eraseDups_concat_congr ih _

end FirstOccurrences

/-! ## Requests and answers -/

section Serving

variable {σ τ α β : Type}

/-- The state after requests, and the answers in order. -/
def serve (step : σ → α → σ × β) : σ → List α → σ × List β
  | s, [] => (s, [])
  | s, request :: rest =>
    let (t, answer) := step s request
    let (last, answers) := serve step t rest
    (last, answer :: answers)

theorem serve_append (step : σ → α → σ × β) (s : σ) (requests more : List α) :
    serve step s (requests ++ more) = ((serve step (serve step s requests).1 more).1,
      (serve step s requests).2 ++ (serve step (serve step s requests).1 more).2) := by
  induction requests generalizing s with
  | nil => rfl
  | cons request rest ih =>
      simp only [List.cons_append, serve]
      rw [ih]

theorem serve_concat (step : σ → α → σ × β) (s : σ) (requests : List α) (request : α) :
    serve step s (requests ++ [request]) = ((step (serve step s requests).1 request).1,
      (serve step s requests).2 ++ [(step (serve step s requests).1 request).2]) := by
  rw [serve_append]
  rfl

/-- Servers that answer every request alike answer all alike. -/
theorem serve_congr {step : σ → α → σ × β} {step' : τ → α → τ × β} (alike : σ → τ → Prop)
    (each : ∀ s t request, alike s t →
      alike (step s request).1 (step' t request).1 ∧ (step s request).2 = (step' t request).2)
    {s : σ} {t : τ} (start : alike s t) (requests : List α) :
    alike (serve step s requests).1 (serve step' t requests).1 ∧
      (serve step s requests).2 = (serve step' t requests).2 := by
  induction requests generalizing s t with
  | nil => exact ⟨start, rfl⟩
  | cons request rest ih =>
      obtain ⟨next, first⟩ := each s t request start
      obtain ⟨last, others⟩ := ih next
      exact ⟨last, List.cons_eq_cons.mpr ⟨first, others⟩⟩

end Serving

/-! ## Numbered keys -/

section Numbered

variable {κ : Type} [DecidableEq κ] {requests keys : List κ} {answers : List Nat}

/-- Keys are numbered in the order of their first request. -/
structure Numbered (requests keys : List κ) (answers : List Nat) : Prop where
  order : keys = requests.eraseDups
  /-- An answer is the position of the key that was asked for. -/
  positions : answers.map (keys[·]?) = requests.map some
  /-- The answers are met in their order, without gaps. -/
  dense : answers.eraseDups = List.range keys.length

theorem numbered_nil : Numbered ([] : List κ) [] [] := ⟨rfl, rfl, rfl⟩

namespace Numbered

theorem nodup (numbered : Numbered requests keys answers) : keys.Nodup :=
  numbered.order ▸ nodup_eraseDups requests

theorem mem_keys_iff (numbered : Numbered requests keys answers) {key : κ} : key ∈ keys ↔ key ∈ requests := by
  rw [numbered.order, List.mem_eraseDups]

theorem mem_answers_iff (numbered : Numbered requests keys answers) {id : Nat} :
    id ∈ answers ↔ id < keys.length := by
  rw [← List.mem_eraseDups, numbered.dense, List.mem_range]

theorem getElem?_of_mem (numbered : Numbered requests keys answers) {id : Nat} (member : id ∈ answers)
    (more : List κ) : (keys ++ more)[id]? = keys[id]? :=
  List.getElem?_append_left (numbered.mem_answers_iff.mp member)

/-- A known key is answered with its number, and a new one is added at the end. -/
theorem next (numbered : Numbered requests keys answers) {key : κ} {keys' : List κ} {id : Nat}
    (grown : keys' = keys ∨ key ∉ keys ∧ keys' = keys ++ [key]) (read : keys'[id]? = some key) :
    Numbered (requests ++ [key]) keys' (answers ++ [id]) := by
  rcases grown with rfl | ⟨new, rfl⟩
  · have inUse : id < keys'.length := (List.getElem?_eq_some_iff.mp read).1
    constructor
    · rw [eraseDups_concat_of_mem (numbered.mem_keys_iff.mp (List.mem_of_getElem? read)), numbered.order]
    · rw [List.map_append, List.map_append, numbered.positions, List.map_singleton, List.map_singleton, read]
    · rw [eraseDups_concat_of_mem (numbered.mem_answers_iff.mpr inUse), numbered.dense]
  · have last : id = keys.length := by
      by_contra other
      have inside : id < keys.length := by
        have bound := (List.getElem?_eq_some_iff.mp read).1
        rw [List.length_append, List.length_singleton] at bound
        omega
      rw [List.getElem?_append_left inside] at read
      exact new (List.mem_of_getElem? read)
    have fresh : id ∉ answers := by
      rw [numbered.mem_answers_iff, last]
      exact Nat.lt_irrefl _
    constructor
    · rw [eraseDups_concat_of_not_mem (numbered.mem_keys_iff.not.mp new), ← numbered.order]
    · rw [List.map_append, List.map_append, List.map_singleton, List.map_singleton, read, ← numbered.positions]
      congr 1
      exact List.map_congr_left fun other member => numbered.getElem?_of_mem member [key]
    · rw [eraseDups_concat_of_not_mem fresh, numbered.dense, List.length_append, List.length_singleton,
        List.range_succ, last]

theorem length_eq (numbered : Numbered requests keys answers) : answers.length = requests.length := by
  simpa using congrArg List.length numbered.positions

/-- A request is answered with a number that has its key. -/
theorem exists_answer (numbered : Numbered requests keys answers) {i : Nat} {key : κ}
    (asked : requests[i]? = some key) : ∃ id, answers[i]? = some id ∧ keys[id]? = some key := by
  have same := congrArg (·[i]?) numbered.positions
  simp only [List.getElem?_map, asked, Option.map_some] at same
  obtain ⟨id, answered, read⟩ := Option.map_eq_some_iff.mp same
  exact ⟨id, answered, read⟩

/-- Two requests have one answer exactly when they ask for one key. -/
theorem answer_eq_iff (numbered : Numbered requests keys answers) {i j : Nat} {a b : κ}
    (asked : requests[i]? = some a) (asked' : requests[j]? = some b) :
    answers[i]? = answers[j]? ↔ a = b := by
  obtain ⟨id, answered, read⟩ := numbered.exists_answer asked
  obtain ⟨id', answered', read'⟩ := numbered.exists_answer asked'
  rw [answered, answered', Option.some.injEq]
  constructor
  · rintro rfl
    exact Option.some.inj (read.symm.trans read')
  · rintro rfl
    have inUse := (List.getElem?_eq_some_iff.mp read).1
    exact (List.getElem?_inj inUse numbered.nodup).mp (read.trans read'.symm)

/-- More requests leave the numbers in use with their keys. -/
theorem isPrefix {more keys' : List κ} {answers' : List Nat} (numbered : Numbered requests keys answers)
    (numbered' : Numbered (requests ++ more) keys' answers') : keys <+: keys' := by
  rw [numbered.order, numbered'.order]
  exact eraseDups_isPrefix requests more

end Numbered

end Numbered

end PointsTo
