/- # Summaries -- every statement is in its list

A summary loses no statement and invents none: each of its lists has exactly the statements of its kind
(`mem_allocations` and its like), and the call sites of a list are those of the calls with the given receiver
(`mem_callSitesOf_iff`), each once and in the order of the body (`ascending_callSitesOf`). -/
import PointsTo.Proofs.WellFormed
import PointsTo.Summary

set_option autoImplicit false

namespace PointsTo

theorem mem_callSitesOf_iff {m : MethodId} {body : List Stmt} {receiver : Option VarId}
    {site : CallSite} : site ∈ callSitesOf m body receiver ↔
      site.method = m ∧ ∃ call, body[site.index]? = some (.invoke call) ∧ call.receiver = receiver := by
  unfold callSitesOf
  rw [List.mem_filterMap]
  constructor
  · rintro ⟨⟨s, index⟩, member, made⟩
    have read := List.mem_zipIdx_iff_getElem?.mp member
    cases s with
    | invoke call =>
        obtain ⟨same, made⟩ := Option.ite_none_right_eq_some.mp made
        cases made
        exact ⟨rfl, call, read, same⟩
    | _ => cases made
  · rintro ⟨rfl, call, read, same⟩
    exact ⟨(.invoke call, site.index), List.mem_zipIdx_iff_getElem?.mpr read, if_pos same⟩

/-- The call sites of a method's body are where its calls are. -/
theorem mem_callSitesOf_bodyOf {p : Program} {m : MethodId} {receiver : Option VarId}
    {site : CallSite} : site ∈ callSitesOf m (p.bodyOf m) receiver ↔
      site.method = m ∧ ∃ call, p.callAt? site = some call ∧ call.receiver = receiver := by
  rw [mem_callSitesOf_iff]
  constructor
  · rintro ⟨rfl, call, read, same⟩
    exact ⟨rfl, call, by simp [Program.callAt?, read, Statement.call?], same⟩
  · rintro ⟨rfl, call, here, same⟩
    exact ⟨rfl, call, Program.getElem?_of_callAt? here, same⟩

/-- The call sites of a body are listed in its order. -/
theorem ascending_callSitesOf (m : MethodId) (body : List Stmt) (receiver : Option VarId) :
    (callSitesOf m body receiver).Pairwise fun first second => first.index < second.index := by
  have indices : body.zipIdx.Pairwise fun first second => first.2 < second.2 := by
    rw [← List.pairwise_map, List.zipIdx_map_snd]
    exact List.pairwise_lt_range'
  refine List.Pairwise.filterMap _ ?_ indices
  rintro ⟨s, i⟩ ⟨t, j⟩ before a made b same
  cases s with
  | invoke first =>
      cases t with
      | invoke second =>
          obtain ⟨-, here⟩ := Option.ite_none_right_eq_some.mp made
          obtain ⟨-, there⟩ := Option.ite_none_right_eq_some.mp same
          cases here
          cases there
          exact before
      | _ => cases same
  | _ => cases made

/-- No call site of a body is listed twice. -/
theorem nodup_callSitesOf (m : MethodId) (body : List Stmt) (receiver : Option VarId) :
    (callSitesOf m body receiver).Nodup :=
  (ascending_callSitesOf m body receiver).imp fun before same => Nat.ne_of_lt before (congrArg CallSite.index same)

namespace Summary

/-- A list of what is read off one kind of statement. -/
theorem mem_filterMap_iff {α : Type} {body : List Stmt} {read : Stmt → Option α} {s : Stmt} {a : α}
    (only : ∀ other, read other = some a ↔ other = s) : a ∈ body.filterMap read ↔ s ∈ body := by
  rw [List.mem_filterMap]
  constructor
  · rintro ⟨other, member, made⟩
    exact (only other).mp made ▸ member
  · exact fun member => ⟨s, member, (only s).mpr rfl⟩

variable {m : MethodId} {body : List Stmt} {v : VarId}

theorem mem_allocations {lhs : VarId} {site : SiteId} :
    (lhs, site) ∈ (ofBody m body).allocations ↔ .new lhs site ∈ body :=
  mem_filterMap_iff fun other => by cases other <;> simp

theorem mem_copies {lhs rhs : VarId} :
    (rhs, lhs) ∈ (ofBody m body).copies ↔ .copy lhs rhs ∈ body :=
  mem_filterMap_iff fun other => by cases other <;> simp [and_comm]

theorem mem_staticLoads {lhs : VarId} {f : FieldId} :
    (f, lhs) ∈ (ofBody m body).staticLoads ↔ .loadStatic lhs f ∈ body :=
  mem_filterMap_iff fun other => by cases other <;> simp [and_comm]

theorem mem_staticStores {f : FieldId} {rhs : VarId} :
    (rhs, f) ∈ (ofBody m body).staticStores ↔ .storeStatic f rhs ∈ body :=
  mem_filterMap_iff fun other => by cases other <;> simp [and_comm]

theorem mem_storeFields {f : FieldId} {rhs : VarId} :
    (f, rhs) ∈ ((ofBody m body).accessesOf v).storeFields ↔ .storeField v f rhs ∈ body :=
  mem_filterMap_iff fun other => by cases other <;> simp

theorem mem_loadFields {lhs : VarId} {f : FieldId} :
    (f, lhs) ∈ ((ofBody m body).accessesOf v).loadFields ↔ .loadField lhs v f ∈ body :=
  mem_filterMap_iff fun other => by cases other <;> simp [and_comm, and_left_comm]

theorem mem_storeArrays {rhs : VarId} :
    rhs ∈ ((ofBody m body).accessesOf v).storeArrays ↔ .storeArray v rhs ∈ body :=
  mem_filterMap_iff fun other => by cases other <;> simp

theorem mem_loadArrays {lhs : VarId} :
    lhs ∈ ((ofBody m body).accessesOf v).loadArrays ↔ .loadArray lhs v ∈ body :=
  mem_filterMap_iff fun other => by cases other <;> simp [and_comm]

end Summary

end PointsTo
