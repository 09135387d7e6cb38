/- # Queue -- how much work a step queues

An operation of the solver puts work behind the queue at most once for each edge, allocation and call that it
treats, so the parts of the program bound what it queues, whatever the state is (`State.queued`).  Sending
on what is new at a node queues it once for each successor.

Main statements: `queued_enter_le` for a method, `queued_react_le` for objects that are new at a variable,
and `queued_takeObjects_le` for sending on. -/
import PointsTo.Proofs.OrderedSets
import PointsTo.Proofs.Sizes
import PointsTo.Proofs.Steps

set_option autoImplicit false

namespace PointsTo.State

/-- The count of pending pieces of work. -/
def queued (s : State) : Nat := s.network.pending.toList.length

/-! ## Primitive changes -/

section Primitive

variable (s : State)

@[simp] theorem queued_report (event : Event) : (s.report event).queued = s.queued := rfl

@[simp] theorem queued_reportAll (events : List Event) : (s.reportAll events).queued = s.queued := by
  induction events generalizing s with
  | nil => rfl
  | cons event rest ih => exact ih (s.report event)

@[simp] theorem queued_node (p : Pointer) : (s.node p).queued = s.queued := rfl

@[simp] theorem queued_announce (m : QualifiedMethod) : (s.announce m).queued = s.queued + 1 := by
  simp [queued, announce, Network.announce]

@[simp] theorem queued_seed (p : Pointer) (o : QualifiedObjectId) : (s.seed p o).queued = s.queued + 1 := by
  simp [queued, seed, Network.seed, Network.send]

theorem queued_flow_le (p q : Pointer) (kind : FlowKind) : (s.flow p q kind).queued ≤ s.queued + 1 := by
  have connected : ∀ (n : Network) (e : FlowEdge),
      (n.connect e).1.pending.toList.length ≤ n.pending.toList.length + 1 := by
    intro n e
    unfold Network.connect
    simp only
    split
    · exact Nat.le_succ _
    · split
      · exact Nat.le_succ _
      · simp [Network.send]
  exact connected ((s.network.node p).1.node q).1 _

variable {s}

/-- Running over a list of at most `count` elements queues for each of them. -/
theorem queued_foldl_le {α : Type} {f : State → α → State} {each count before : Nat}
    (one : ∀ s x, (f s x).queued ≤ s.queued + each) {xs : List α} (short : xs.length ≤ count)
    (start : s.queued ≤ before) : (xs.foldl f s).queued ≤ before + count * each := by
  induction xs generalizing s count before with
  | nil => exact Nat.le_trans start (Nat.le_add_right _ _)
  | cons x rest ih =>
      cases count with
      | zero => simp at short
      | succ count =>
          have first := Nat.le_trans (one s x) (Nat.add_le_add_right start each)
          have later := ih (Nat.le_of_succ_le_succ short) first
          rw [Nat.succ_mul]
          rw [List.foldl_cons]
          omega

end Primitive

/-! ## Calls -/

section Calls

variable (setting : Setting) (s : State)

/-- Exchanging objects queues at most once for each parameter and returned variable. -/
theorem queued_exchange_le (caller callee : QualifiedMethod) (call : Invocation VarId) :
    (exchange setting s caller callee call).queued ≤ s.queued + setting.program.parts := by
  have counted := setting.program.length_method_le (m := callee.method)
  have passed : (s.passArguments caller.context callee.context call.args
      (setting.program.paramsOf callee.method)).queued ≤
      s.queued + (setting.program.paramsOf callee.method).length := by
    have short : (call.args.zip (setting.program.paramsOf callee.method)).length ≤
        (setting.program.paramsOf callee.method).length := by
      rw [List.length_zip]
      exact Nat.min_le_right _ _
    have flows := queued_foldl_le (fun t (pair : VarId × VarId) => queued_flow_le t
      (.var caller.context pair.1) (.var callee.context pair.2) .parameter) short (Nat.le_refl s.queued)
    rw [Nat.mul_one] at flows
    exact flows
  unfold exchange
  simp only
  split
  · rename_i result wanted
    have returned := queued_foldl_le (fun t v => queued_flow_le t (.var callee.context v)
      (.var caller.context result) .result)
      (Nat.le_refl (setting.program.returnsOf callee.method).length)
      (show (State.node _ (.var caller.context result)).queued ≤ _ from passed)
    refine Nat.le_trans returned ?_
    omega
  · omega

theorem queued_addCall_le (site : QualifiedSite) (callee : QualifiedMethod) (call : Invocation VarId) :
    (addCall setting s site callee call).queued ≤ s.queued + (setting.program.parts + 1) := by
  have bound : ∀ t : State, (bindCall setting t site.caller callee call).queued ≤
      t.queued + (setting.program.parts + 1) := by
    intro t
    unfold bindCall
    refine Nat.le_trans (queued_exchange_le setting _ _ _ _) ?_
    split <;> simp only [queued_report, queued_announce] <;> omega
  unfold addCall
  simp only
  split
  · exact bound _
  · omega

theorem queued_callStatic_le (c : ContextId) (site : CallSite) :
    (callStatic setting s c site).queued ≤ s.queued + (setting.program.parts + 1) := by
  unfold callStatic
  split
  · omega
  · simp only
    split
    · simp only [queued_report, queued_reportAll]
      omega
    · refine Nat.le_trans (queued_addCall_le setting _ _ _ _) ?_
      exact Nat.le_of_eq (congrArg (· + _) (queued_reportAll s _))

theorem queued_callInstance_le (c : ContextId) (site : CallSite) (o : QualifiedObjectId) :
    (callInstance setting s c site o).queued ≤ s.queued + (setting.program.parts + 2) := by
  have received : ∀ (t : State) (callee : QualifiedMethod),
      (receive setting t callee o).queued ≤ t.queued + 1 := by
    intro t callee
    unfold receive
    split
    · exact Nat.le_of_eq (queued_seed t _ o)
    · exact Nat.le_succ _
  unfold callInstance
  split
  · simp only
    split
    · simp only [queued_report, queued_reportAll]
      omega
    · refine Nat.le_trans (received _ _) (Nat.succ_le_succ ?_)
      refine Nat.le_trans (queued_addCall_le setting _ _ _ _) ?_
      exact Nat.le_of_eq (congrArg (· + _) (queued_reportAll s _))
  · omega

end Calls

/-! ## Methods and objects -/

section Work

variable (setting : Setting) (s : State)

theorem length_callSitesOf_le (m : MethodId) (body : List Stmt) (receiver : Option VarId) :
    (callSitesOf m body receiver).length ≤ body.length :=
  Nat.le_trans (List.length_filterMap_le _ _) (Nat.le_of_eq List.length_zipIdx)

theorem queued_allocate (c : ContextId) (lhs : VarId) (site : SiteId) :
    (allocate setting s c lhs site).queued = s.queued + 1 :=
  queued_seed _ _ _

/-- The immediate statements of a body queue once each, and calls for all that they exchange. -/
theorem queued_applySummary_le (c : ContextId) (m : MethodId) (body : List Stmt) :
    (applySummary setting s c (.ofBody m body)).queued ≤
      s.queued + body.length * (setting.program.parts + 5) := by
  have short {α : Type} (f : Stmt → Option α) : (body.filterMap f).length ≤ body.length :=
    List.length_filterMap_le f body
  have bound : (applySummary setting s c (.ofBody m body)).queued ≤ s.queued + body.length * 1 +
      body.length * 1 + body.length * 1 + body.length * 1 +
      body.length * (setting.program.parts + 1) := by
    refine queued_foldl_le (fun t site => queued_callStatic_le setting t c site)
      (length_callSitesOf_le m body none) ?_
    refine queued_foldl_le (fun t _ => queued_flow_le t _ _ _) (short _) ?_
    refine queued_foldl_le (fun t _ => queued_flow_le t _ _ _) (short _) ?_
    refine queued_foldl_le (fun t _ => queued_flow_le t _ _ _) (short _) ?_
    refine queued_foldl_le (fun t _ => Nat.le_of_eq (queued_allocate setting t c _ _)) (short _) ?_
    exact Nat.le_refl _
  rw [Nat.mul_add] at bound ⊢
  omega

/-- So do the statements through a variable for one object, whose calls also send it to the receiver. -/
theorem queued_applyAccesses_le (c : ContextId) (m : MethodId) (body : List Stmt) (v : VarId)
    (o : QualifiedObjectId) :
    (applyAccesses setting s c ((Summary.ofBody m body).accessesOf v) o).queued ≤
      s.queued + body.length * (setting.program.parts + 6) := by
  have short {α : Type} (f : Stmt → Option α) : (body.filterMap f).length ≤ body.length :=
    List.length_filterMap_le f body
  have bound : (applyAccesses setting s c ((Summary.ofBody m body).accessesOf v) o).queued ≤
      s.queued + body.length * 1 + body.length * 1 + body.length * 1 + body.length * 1 +
      body.length * (setting.program.parts + 2) := by
    refine queued_foldl_le (fun t site => queued_callInstance_le setting t c site o)
      (length_callSitesOf_le m body (some v)) ?_
    refine queued_foldl_le (fun t _ => queued_flow_le t _ _ _) (short _) ?_
    refine queued_foldl_le (fun t _ => queued_flow_le t _ _ _) (short _) ?_
    refine queued_foldl_le (fun t _ => queued_flow_le t _ _ _) (short _) ?_
    refine queued_foldl_le (fun t _ => queued_flow_le t _ _ _) (short _) ?_
    exact Nat.le_refl _
  rw [Nat.mul_add] at bound ⊢
  omega

end Work

/-! ## Steps -/

section Step

variable {setting : Setting} {s : State}

/-- What one method or one object may queue. -/
def surge (setting : Setting) : Nat := setting.program.parts * (setting.program.parts + 6)

theorem length_bodyOf_mul_le (setting : Setting) (m : MethodId) {extra : Nat} (small : extra ≤ 6) :
    (setting.program.bodyOf m).length * (setting.program.parts + extra) ≤ surge setting := by
  have counted := setting.program.length_method_le (m := m)
  exact Nat.mul_le_mul (by omega) (by omega)

theorem queued_enter_le (m : QualifiedMethod) :
    (enter setting s m).queued ≤ s.queued + surge setting := by
  unfold enter
  simp only
  split
  · exact Nat.le_add_right _ _
  · cases summarised : setting.program.summary? m.method with
    | none => exact Nat.le_add_right _ _
    | some summary =>
        simp only
        unfold Program.summary? at summarised
        split at summarised
        · cases summarised
        · cases summarised
          refine Nat.le_trans (queued_applySummary_le setting _ _ _ _) ?_
          have bound := length_bodyOf_mul_le setting m.method (show 5 ≤ 6 by omega)
          split <;> exact Nat.add_le_add_left bound _

theorem queued_react_le (id : NodeId) (delta : ObjectSet) :
    (react setting s id delta).queued ≤ s.queued + delta.toList.length * surge setting := by
  unfold react
  split
  · split
    · rename_i summary summarised
      unfold Program.summary? at summarised
      split at summarised
      · cases summarised
      · cases summarised
        refine queued_foldl_le (fun t o => ?_) (Nat.le_refl _) (Nat.le_refl _)
        refine Nat.le_trans (queued_applyAccesses_le setting t _ _ _ _ o) ?_
        exact Nat.add_le_add_left (length_bodyOf_mul_le setting _ (Nat.le_refl 6)) _
    · exact Nat.le_add_right _ _
  · exact Nat.le_add_right _ _

theorem queued_of_pop {item : Pending} {rest : Network} (popped : s.network.pop? = some (item, rest)) :
    s.queued = rest.pending.toList.length + 1 := by
  obtain ⟨whole, -, -⟩ := Network.toList_of_pop? popped
  rw [queued, whole, List.length_cons]

/-- Sending on queues once for each successor, and not at all when nothing is new. -/
theorem queued_takeObjects {id : NodeId} {set : ObjectSet} {rest : Network}
    (popped : s.network.pop? = some (.objects id set, rest)) :
    (s.takeObjects id set rest).queued + 1 = s.queued +
      if (rest.absorb id set).2.isEmpty then 0 else (s.network.graph.successors id).length := by
  have sent : ∀ (targets : List NodeId) (n : Network) (delta : ObjectSet),
      (targets.foldl (fun n target => n.send target delta) n).pending.toList.length =
        n.pending.toList.length + targets.length := by
    intro targets
    induction targets with
    | nil => intro n delta; rfl
    | cons target others ih =>
        intro n delta
        rw [List.foldl_cons, ih, List.length_cons]
        simp only [Network.send, Worklist.toList_push, List.length_append, List.length_singleton]
        omega
  obtain ⟨-, graph, -⟩ := Network.toList_of_pop? popped
  rw [queued_of_pop popped, ← graph]
  show (rest.absorb id set).1.pending.toList.length + 1 = _
  unfold Network.absorb
  simp only
  split
  · rfl
  · rw [sent]
    exact Nat.add_right_comm _ _ _

end Step

end PointsTo.State
