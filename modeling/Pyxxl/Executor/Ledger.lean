import Pyxxl.Lib.Tally
import Pyxxl.Executor.Delta

/-!
# Pyxxl.Executor.Ledger

The books of the callbacks. An accepted trigger is at every moment in exactly one of four places:
reported, in the drained list of a call that still pushes failures, pending, or owed by its task.

* `held s x`: in how many of these places `x` is.
* `Even s s' x`: a step changes `held` by what it accepts (`step_even`), as long as nothing of
  the task of `x` goes wrong between its handler and its report (`Event.reports`).
-/

namespace Pyxxl
namespace Executor

/-- How many callbacks the task still has to enqueue. -/
def owes (o : XXLTask) : Nat :=
  match o.task with
  | .scheduled _ => 1
  | .inHandler _ => 1
  | .pushing _ _ => 1
  | .thrownPushing _ _ => 1
  | .locking _ => 0
  | .thrownLocking => 0
  | .done _ =>
    match o.cleanup with
    | .doneCallback => if o.started then 0 else 1
    | .scheduled => 1
    | .pushing _ => 1
    | _ => 0

def owedTo (x : Trigger) (o : XXLTask) : Nat := if o.data = x then owes o else 0

/-- How often `x` is among the triggers a call has drained and not yet reported. -/
def drainedIn (x : Trigger) : Call → Nat
  | .coverPush _ y _ rest _ => (y :: rest).count x
  | .cancelPush y _ rest _ _ => (y :: rest).count x
  | _ => 0

def reported (s : Executor) (x : Trigger) : Nat :=
  (s.callbacks.map Prod.fst).count x + (s.dropped.map Prod.fst).count x

def drained (s : Executor) (x : Trigger) : Nat := tally (drainedIn x) s.nextCall s.call

def owed (s : Executor) (x : Trigger) : Nat := tally (owedTo x) s.nextTask s.obj

def held (s : Executor) (x : Trigger) : Nat :=
  s.reported x + s.drained x + (s.pending x.jobId).count x + s.owed x

def Even (s s' : Executor) (x : Trigger) : Prop :=
  s'.held x + s.accepted.count x = s.held x + s'.accepted.count x

variable {strict : Nat → Prop} {s s' s'' : Executor} {t n : Nat} {x : Trigger}

/-! ## Steps that concern no callback -/

structure SameLedger (s s' : Executor) : Prop where
  callbacks : s'.callbacks = s.callbacks
  dropped : s'.dropped = s.dropped
  call : s'.call = s.call
  nextCall : s'.nextCall = s.nextCall
  queue : s'.queue = s.queue
  cover : s'.coverReplacements = s.coverReplacements
  nextTask : s'.nextTask = s.nextTask
  accepted : s'.accepted = s.accepted
  owedTo : ∀ x t, owedTo x (s'.obj t) = owedTo x (s.obj t)

namespace SameLedger

theorem refl : SameLedger s s := ⟨rfl, rfl, rfl, rfl, rfl, rfl, rfl, rfl, fun _ _ => rfl⟩

theorem trans (h₁ : SameLedger s s') (h₂ : SameLedger s' s'') : SameLedger s s'' where
  callbacks := h₂.callbacks.trans h₁.callbacks
  dropped := h₂.dropped.trans h₁.dropped
  call := h₂.call.trans h₁.call
  nextCall := h₂.nextCall.trans h₁.nextCall
  queue := h₂.queue.trans h₁.queue
  cover := h₂.cover.trans h₁.cover
  nextTask := h₂.nextTask.trans h₁.nextTask
  accepted := h₂.accepted.trans h₁.accepted
  owedTo x t := (h₂.owedTo x t).trans (h₁.owedTo x t)

theorem held (h : SameLedger s s') : s'.held x = s.held x := by
  have howed : s'.owed x = s.owed x := by
    rw [owed, owed, h.nextTask]
    exact tally_congr _ fun i _ => h.owedTo x i
  simp only [Executor.held, reported, drained, pending, howed, h.callbacks, h.dropped,
    h.call, h.nextCall, h.queue, h.cover]

theorem modTask (t : Nat) (f : XXLTask → XXLTask)
    (hf : ∀ x, Executor.owedTo x (f (s.obj t)) = Executor.owedTo x (s.obj t)) :
    SameLedger s (s.modTask t f) where
  callbacks := rfl
  dropped := rfl
  call := rfl
  nextCall := rfl
  queue := rfl
  cover := rfl
  nextTask := rfl
  accepted := rfl
  owedTo x u := by
    by_cases h : u = t
    · subst h; rw [modTask_self]; exact hf x
    · rw [modTask_other h]

theorem setCancelReason (t : Nat) (r : PyStr) : SameLedger s (s.setCancelReason t r) :=
  modTask t _ fun _ => rfl

theorem markCleaned (t : Nat) : SameLedger s (s.markCleaned t) := modTask t _ fun _ => rfl

theorem cancel (t : Nat) : SameLedger s (s.cancel t) := by
  have hset : ∀ s₁ : Executor, ∀ c, SameLedger s s₁ → s₁.obj = s.obj →
      owes { s.obj t with task := c } = owes (s.obj t) → SameLedger s (s₁.setCoro t c) := by
    intro s₁ c h₁ ho hc
    refine h₁.trans (modTask t _ fun x => ?_)
    simp only [Executor.owedTo, ho, hc]
  unfold Executor.cancel
  split
  · rename_i hc; exact hset s _ .refl rfl (by simp [owes, hc])
  · rename_i hc
    exact hset _ _ ⟨rfl, rfl, rfl, rfl, rfl, rfl, rfl, rfl, fun _ _ => rfl⟩ rfl
      (by simp [owes, hc])
  · rename_i hc
    exact hset _ _ ⟨rfl, rfl, rfl, rfl, rfl, rfl, rfl, rfl, fun _ _ => rfl⟩ rfl
      (by simp [owes, hc])
  · exact .refl

theorem killCurrent (j : JobId) (reason : PyStr) : SameLedger s (s.killCurrent j reason) := by
  unfold Executor.killCurrent
  split
  · exact (setCancelReason _ reason).trans (cancel _)
  · exact refl

end SameLedger

theorem Even.refl : Even s s x := rfl

theorem Even.trans (h₁ : Even s s' x) (h₂ : Even s' s'' x) : Even s s'' x := by
  unfold Even at *; omega

theorem even_of_held (h : s'.held x = s.held x) (ha : s'.accepted = s.accepted) :
    Even s s' x := by rw [Even, h, ha]

/-! ## One lemma for each way to change it -/

theorem held_modTask (ht : t < s.nextTask) (f : XXLTask → XXLTask) :
    (s.modTask t f).held x + owedTo x (s.obj t) = s.held x + owedTo x (f (s.obj t)) := by
  have h := tally_update (owedTo x) ht s.obj (f (s.obj t))
  simp only [held, owed, reported, drained, pending, modTask] at *
  omega

theorem held_settle (ht : t < s.nextTask) (f : XXLTask → XXLTask)
    (h0 : owedTo x (f (s.obj t)) = 0) :
    (s.modTask t f).held x + owedTo x (s.obj t) = s.held x := by
  have := held_modTask (x := x) ht f
  omega

theorem held_move (f : XXLTask → XXLTask)
    (h : ∀ x, owedTo x (f (s.obj t)) = owedTo x (s.obj t)) : (s.modTask t f).held x = s.held x :=
  (SameLedger.modTask t f h).held

theorem held_setCall (hn : n < s.nextCall) (c : Call) :
    (s.setCall n c).held x + drainedIn x (s.call n) = s.held x + drainedIn x c := by
  have h := tally_update (drainedIn x) hn s.call c
  simp only [held, owed, reported, drained, pending, setCall] at *
  omega

theorem held_put (y : Trigger) (r : CallbackRequest) :
    (s.put y r).held x = s.held x + if y = x then 1 else 0 := by
  simp only [held, owed, reported, drained, pending, put, List.map_append, List.map_cons,
    List.map_nil, List.count_append, List.count_singleton, beq_iff_eq]
  omega

/-- A callback that was put or refused counts, one that waits does not. -/
theorem held_enqueue {p : Pid} {y : Trigger} {r : CallbackRequest} {b : Bool}
    (he : s.enqueue p y r = (s', b)) :
    s'.held x = s.held x + if b = true ∧ y = x then 1 else 0 := by
  unfold enqueue at he
  split at he
  · cases he
    simp only [held, owed, reported, drained, pending, List.map_append, List.map_cons,
      List.map_nil, List.count_append, List.count_singleton, beq_iff_eq, true_and]
    omega
  · split at he
    · cases he
      rw [held_put]
      simp
    · cases he
      simp [held, owed, reported, drained, pending, lockWorker]

/-- The triggers an interrupted `_push_failed_queued_tasks` has left. -/
def left : Option (Trigger × CallbackRequest × List Trigger) → List Trigger
  | none => []
  | some (y, _, rest) => y :: rest

theorem held_pushFailed {p : Pid} {reason : PyStr} :
    ∀ {xs : List Trigger} {s s' : Executor}
      {rest : Option (Trigger × CallbackRequest × List Trigger)},
      pushFailedQueuedTasks p reason xs s = (s', rest) →
        s'.held x + (left rest).count x = s.held x + xs.count x := by
  intro xs
  induction xs with
  | nil => intro s s' rest h; cases h; rfl
  | cons y ys ih =>
    intro s s' rest h
    simp only [pushFailedQueuedTasks] at h
    split at h
    · rename_i s₁ he
      have h₁ := ih h
      have he' := held_enqueue (x := x) he
      simp only [List.count_cons, beq_iff_eq, true_and] at he' ⊢
      omega
    · rename_i s₁ he
      cases h
      have he' := held_enqueue (x := x) he
      simp only [left, Bool.false_eq_true, false_and, if_false] at he' ⊢
      omega

/-! ## The books move triggers from place to place -/

theorem owed_new {y : Trigger} (ho : s'.obj = Function.update s.obj s.nextTask
      { task := .scheduled false, data := y }) (hn : s'.nextTask = s.nextTask + 1) :
    s'.owed x = s.owed x + if y = x then 1 else 0 := by
  rw [owed, owed, hn, ho, tally_extend _ (f := s.obj) fun i hi => Function.update_of_ne hi.ne _ _,
    Function.update_self]
  rfl

theorem held_finish (hb : Books s) (ht : s.tasks (s.obj t).data.jobId = some t) :
    (s.finish t).held x = s.held x := by
  have hf := finish_finishes hb ht
  have hother : ∀ k, k ≠ (s.obj t).data.jobId → (s.finish t).pending k = s.pending k :=
    fun k hk => (hf.away hb hk).pending
  rcases hf.next with ⟨hp, hp', -, ho, hn⟩ | ⟨y, hp, -, ho, hn⟩
  · have hpend : (s.finish t).pending x.jobId = s.pending x.jobId := by
      by_cases hx : x.jobId = (s.obj t).data.jobId
      · rw [hx, hp, hp']
      · exact hother _ hx
    simp only [held, reported, drained, owed, hf.callbacks, hf.dropped, hf.call,
      hf.nextCall, ho, hn, hpend]
  · -- the first pending trigger moves to a new task
    have howed := owed_new (x := x) ho hn
    have hpend : ((s.finish t).pending x.jobId).count x + (if y = x then 1 else 0) =
        (s.pending x.jobId).count x := by
      by_cases hx : x.jobId = (s.obj t).data.jobId
      · rw [hx, hp, List.count_cons]; simp
      · have hne : y ≠ x := by
          rintro rfl
          exact hx ((hb.job _).owner y (by rw [hp]; simp))
        rw [hother _ hx, if_neg hne]; rfl
    simp only [held, reported, drained, hf.callbacks, hf.dropped, hf.call, hf.nextCall,
      howed]
    omega

theorem held_takePending (hb : Books s) (j : JobId) :
    (s.takePending j).1.held x + (s.takePending j).2.count x = s.held x := by
  have hrest : (s.takePending j).1.held x + (s.pending x.jobId).count x =
      s.held x + ((s.takePending j).1.pending x.jobId).count x := by
    simp only [held, reported, drained, owed, takePending_fst]
    omega
  by_cases hx : x.jobId = j
  · subst hx
    rw [takePending_pending] at hrest
    rw [takePending_snd, List.count_append]
    simp only [pending, List.count_append, List.count_nil] at hrest
    omega
  · have hnot : (s.takePending j).2.count x = 0 := by
      rw [takePending_snd]
      refine List.count_eq_zero.mpr fun hm => hx ((hb.job j).owner x ?_)
      rw [List.mem_append] at hm
      rw [pending, List.mem_append]
      exact hm.symm
    rw [(takePending_away s j hx).pending] at hrest
    omega

theorem count_accept (s : Executor) (d : RunData) (x : Trigger) :
    (s.accepted ++ [newTrigger s d]).count x =
      s.accepted.count x + if newTrigger s d = x then 1 else 0 := by
  rw [List.count_append, List.count_singleton]
  simp

theorem even_startIdle (s : Executor) (d : RunData) : Even s (s.startIdle d) x := by
  have howed : (s.startIdle d).owed x = s.owed x + if newTrigger s d = x then 1 else 0 :=
    owed_new rfl rfl
  have hacc : (s.startIdle d).accepted = s.accepted ++ [newTrigger s d] := rfl
  have hpend : (s.startIdle d).pending x.jobId = s.pending x.jobId := rfl
  rw [Even, hacc, count_accept]
  simp only [held, howed, hpend]
  simp only [reported, drained, startIdle_eq]
  omega

theorem count_join {d : RunData} (hj : Joins s d s') :
    (s'.pending x.jobId).count x =
      (s.pending x.jobId).count x + if newTrigger s d = x then 1 else 0 := by
  by_cases hx : x.jobId = d.jobId
  · rw [hx, hj.pending, List.count_append, List.count_singleton]
    simp
  · have hne : newTrigger s d ≠ x := by
      rintro rfl
      exact hx (newTrigger_jobId s d)
    rw [(hj.away hx).pending, if_neg hne]
    rfl

theorem even_enqueueSerial (s : Executor) (d : RunData) : Even s (s.enqueueSerial d) x := by
  have hj := enqueueSerial_joins s d
  have hc := count_join (x := x) hj
  rw [Even, hj.accepted, count_accept]
  simp only [held, reported, drained, owed, enqueueSerial, accept, setQueue, registerLogId] at hc ⊢
  omega

theorem even_coverEarly (hb : Books s) {d : RunData} (ht : s.tasks d.jobId = some t) :
    (s.coverEarly d).1.held x + (s.coverEarly d).2.count x + s.accepted.count x =
      s.held x + (s.coverEarly d).1.accepted.count x := by
  have htake := held_takePending (x := x) hb d.jobId
  have hj := fillCover_joins (takePending_pending s d.jobId)
  have hc := count_join (x := x) hj
  have hfill : Even (s.takePending d.jobId).1 ((s.takePending d.jobId).1.fillCover d) x := by
    rw [Even, hj.accepted, count_accept]
    simp only [held, reported, drained, owed, fillCover, accept, registerLogId] at hc ⊢
    omega
  have hkill : SameLedger ((s.takePending d.jobId).1.fillCover d) (s.coverEarly d).1 := by
    rw [coverEarly_fst ht]
    exact (SameLedger.setCancelReason t _).trans (.cancel t)
  have hacc : (s.takePending d.jobId).1.accepted = s.accepted := by rw [takePending_fst]
  rw [coverEarly_snd, ← takePending_snd, hkill.held, hkill.accepted]
  rw [Even, hacc] at hfill
  omega

/-! ## Calls -/

theorem held_runReturn (hn : n < s.nextCall) (j : JobId) (res : Except RunError Reply) :
    (s.runReturn n j res).held x + drainedIn x (s.call n) = s.held x :=
  held_setCall (s := s.unlockJob j) hn (.runDone res)

theorem held_coverPush (hn : n < s.nextCall) (d : RunData) (reason : PyStr)
    (rest : List Trigger) :
    (s.coverPush n d reason rest).held x + drainedIn x (s.call n) = s.held x + rest.count x := by
  unfold coverPush
  split
  · rename_i s' hs
    have hh := held_pushFailed (x := x) hs
    obtain ⟨hc, hnc⟩ := pushFailed_calls hs
    have := held_runReturn (x := x) (s := s') (n := n) (by omega) d.jobId
      (.ok (.replaced d.jobId d.logId))
    rw [hc] at this
    simp only [left, List.count_nil] at hh
    omega
  · rename_i s' y r rest' hs
    have hh := held_pushFailed (x := x) hs
    obtain ⟨hc, hnc⟩ := pushFailed_calls hs
    have := held_setCall (x := x) (s := s') (n := n) (by omega) (.coverPush d y r rest' reason)
    rw [hc] at this
    simp only [left, drainedIn] at hh this ⊢
    omega

theorem held_cancelPush (hn : n < s.nextCall) (reason : PyStr) (o : Option Nat)
    (rest : List Trigger) :
    (s.cancelPush n reason o rest).held x + drainedIn x (s.call n) = s.held x + rest.count x := by
  unfold cancelPush
  split
  · rename_i s' hs
    have hh := held_pushFailed (x := x) hs
    obtain ⟨hc, hnc⟩ := pushFailed_calls hs
    simp only [left, List.count_nil] at hh
    split
    · rename_i u
      have := held_setCall (x := x) (s := s') (n := n) (by omega) (.cancelAwait u)
      rw [hc] at this
      simp only [drainedIn] at this ⊢
      omega
    · have := held_setCall (x := x) (s := s') (n := n) (by omega) (.cancelDone none)
      rw [hc] at this
      simp only [drainedIn] at this ⊢
      omega
  · rename_i s' y r rest' hs
    have hh := held_pushFailed (x := x) hs
    obtain ⟨hc, hnc⟩ := pushFailed_calls hs
    have := held_setCall (x := x) (s := s') (n := n) (by omega) (.cancelPush y r rest' reason o)
    rw [hc] at this
    simp only [left, drainedIn] at hh this ⊢
    omega

theorem held_openCall : s.openCall.held x = s.held x := by
  have h : tally (drainedIn x) (s.nextCall + 1) s.openCall.call =
      tally (drainedIn x) s.nextCall s.call + drainedIn x (s.openCall.call s.nextCall) :=
    tally_extend _ fun i hi => Function.update_of_ne hi.ne _ _
  have h0 : drainedIn x (s.openCall.call s.nextCall) = 0 := by simp [openCall, drainedIn]
  simp only [held, reported, drained, owed, pending, openCall] at h h0 ⊢
  omega

theorem coverEarly_call {d : RunData} (ht : s.tasks d.jobId = some t) :
    (s.coverEarly d).1.call = s.call ∧ (s.coverEarly d).1.nextCall = s.nextCall := by
  have hkill : SameLedger ((s.takePending d.jobId).1.fillCover d) (s.coverEarly d).1 := by
    rw [coverEarly_fst ht]
    exact (SameLedger.setCancelReason t _).trans (.cancel t)
  refine ⟨hkill.call.trans ?_, hkill.nextCall.trans ?_⟩
  · simp only [fillCover, accept, registerLogId, takePending_fst]
  · simp only [fillCover, accept, registerLogId, takePending_fst]

theorem even_runJobLocked (hb : Books s) (hn : n < s.nextCall) (h0 : drainedIn x (s.call n) = 0)
    (d : RunData) : Even s (s.runJobLocked n d) x := by
  have hret : ∀ s₁ : Executor, s₁.call = s.call → s₁.nextCall = s.nextCall → ∀ res,
      Even s₁ (s₁.runReturn n d.jobId res) x := by
    intro s₁ hc hnc res
    have := held_runReturn (x := x) (s := s₁) (n := n) (by omega) d.jobId res
    rw [hc] at this
    exact even_of_held (by omega) rfl
  unfold runJobLocked
  split
  · exact hret s rfl rfl _
  · split
    · exact (even_startIdle s d).trans (hret (s.startIdle d) rfl rfl _)
    · rename_i hi
      obtain ⟨t, ht⟩ := hb.busy (by simpa using hi)
      split
      · exact hret s rfl rfl _
      · split
        · have hcov := even_coverEarly (x := x) hb ht
          obtain ⟨hc, hnc⟩ := coverEarly_call (d := d) ht
          have hpush := held_coverPush (x := x) (s := (s.coverEarly d).1) (n := n) (by omega) d
            coverReason (s.coverEarly d).2
          have hacc := (coverPush_same (s.coverEarly d).1 n d coverReason (s.coverEarly d).2).accepted
          rw [hc] at hpush
          rw [handleCoverEarly, Even, hacc]
          omega
        · split
          · unfold handleSerialExecution
            split
            · exact hret s rfl rfl _
            · exact (even_enqueueSerial s d).trans (hret (s.enqueueSerial d) rfl rfl _)
          · exact hret s rfl rfl _

theorem cancelLocked_calls (s : Executor) (j : JobId) (includeQueue : Bool) (reason : PyStr) :
    (s.cancelLocked j includeQueue reason).1.call = s.call ∧
      (s.cancelLocked j includeQueue reason).1.nextCall = s.nextCall := by
  have hkill : ∀ s₁ : Executor, SameLedger s₁ (s₁.killCurrent j reason) := fun _ => .killCurrent ..
  cases includeQueue with
  | false => exact ⟨(hkill s).call, (hkill s).nextCall⟩
  | true =>
    refine ⟨(hkill (s.takePending j).1).call.trans ?_, (hkill (s.takePending j).1).nextCall.trans ?_⟩
    · rw [takePending_fst]
    · rw [takePending_fst]

/-- What `cancel_job` drops is in its hands. -/
theorem held_cancelLocked (hb : Books s) (j : JobId) (includeQueue : Bool) (reason : PyStr) :
    (s.cancelLocked j includeQueue reason).1.held x +
        (s.cancelLocked j includeQueue reason).2.count x = s.held x ∧
      (s.cancelLocked j includeQueue reason).1.accepted = s.accepted := by
  cases includeQueue with
  | false =>
    have hk : SameLedger s (s.killCurrent j reason) := .killCurrent j reason
    exact ⟨hk.held, hk.accepted⟩
  | true =>
    have hk : SameLedger (s.takePending j).1 ((s.takePending j).1.killCurrent j reason) :=
      .killCurrent j reason
    have htake := held_takePending (x := x) hb j
    refine ⟨?_, hk.accepted.trans (by rw [takePending_fst])⟩
    rw [← htake, ← hk.held]
    rfl

theorem even_cancelJobLocked (hb : Books s) (hn : n < s.nextCall)
    (h0 : drainedIn x (s.call n) = 0) (j : JobId) (includeQueue : Bool) (reason : PyStr) :
    Even s (s.cancelJobLocked n j includeQueue reason) x := by
  obtain ⟨hh, hacc⟩ := held_cancelLocked (x := x) hb j includeQueue reason
  obtain ⟨hc, hnc⟩ := cancelLocked_calls s j includeQueue reason
  have hpush := held_cancelPush (x := x)
    (s := (s.cancelLocked j includeQueue reason).1.unlockJob j) (n := n)
    (by show n < (s.cancelLocked j includeQueue reason).1.nextCall; omega) reason
    ((s.cancelLocked j includeQueue reason).1.tasks j) (s.cancelLocked j includeQueue reason).2
  have hc' : ((s.cancelLocked j includeQueue reason).1.unlockJob j).call n = s.call n := by
    show (s.cancelLocked j includeQueue reason).1.call n = s.call n
    rw [hc]
  have hun : ((s.cancelLocked j includeQueue reason).1.unlockJob j).held x =
      (s.cancelLocked j includeQueue reason).1.held x := rfl
  have hacc' := (cancelPush_same ((s.cancelLocked j includeQueue reason).1.unlockJob j) n reason
    ((s.cancelLocked j includeQueue reason).1.tasks j)
    (s.cancelLocked j includeQueue reason).2).accepted
  rw [hc'] at hpush
  refine even_of_held ?_ (hacc'.trans hacc)
  simp only [cancelJobLocked]
  omega

theorem even_openCall : Even s s.openCall x := even_of_held held_openCall rfl

theorem drainedIn_openCall : drainedIn x (s.openCall.call s.nextCall) = 0 := by
  simp [openCall, drainedIn]

/-- A call that has drained nothing goes on to a place where it has drained nothing. -/
theorem even_setCall (hn : n < s.nextCall) (h0 : drainedIn x (s.call n) = 0) {c : Call}
    (hc : drainedIn x c = 0) : Even s (s.setCall n c) x := by
  have := held_setCall (x := x) hn c
  exact even_of_held (by omega) rfl

theorem even_runJob (hb : Books s) (d : RunData) : Even s (s.runJob d) x := by
  have hlt : s.nextCall < s.openCall.nextCall := Nat.lt_succ_self _
  simp only [runJob]
  split
  · split
    · exact even_openCall.trans (even_runJobLocked
        (s := s.openCall.lockJob d.jobId (.call s.nextCall))
        (hb.congr (SameBooks.openCall.trans (.lockJob _ _))) hlt drainedIn_openCall d)
    · exact even_openCall.trans (even_setCall
        (s := s.openCall.lockJob d.jobId (.call s.nextCall)) hlt drainedIn_openCall rfl)
  · exact even_openCall.trans (even_setCall hlt drainedIn_openCall rfl)

theorem even_cancelJob (hb : Books s) (j : JobId) (includeQueue : Bool) (reason : PyStr) :
    Even s (s.cancelJob j includeQueue reason) x := by
  have hlt : s.nextCall < s.openCall.nextCall := Nat.lt_succ_self _
  simp only [cancelJob]
  split
  · exact even_openCall.trans (even_cancelJobLocked
      (s := s.openCall.lockJob j (.call s.nextCall))
      (hb.congr (SameBooks.openCall.trans (.lockJob _ _))) hlt drainedIn_openCall j includeQueue
      reason)
  · exact even_openCall.trans (even_setCall
      (s := s.openCall.lockJob j (.call s.nextCall)) hlt drainedIn_openCall rfl)

theorem even_resumeCall (hb : Books s) (hn : n < s.nextCall) (hs : s.resumeCall n = some s') :
    Even s s' x := by
  unfold resumeCall at hs
  split at hs
  · rename_i d hc
    split at hs
    · cases hs; exact even_runJobLocked hb hn (by rw [hc]; rfl) d
    · cases hs
  · rename_i d y r rest reason hc
    split at hs
    · cases hs
      have hput : (s.unlockWorker.put y r).held x = s.held x + if y = x then 1 else 0 :=
        held_put (s := s.unlockWorker) y r
      have hpush := held_coverPush (x := x) (s := s.unlockWorker.put y r) (n := n) hn d reason rest
      have hc' : drainedIn x ((s.unlockWorker.put y r).call n) =
          rest.count x + if y = x then 1 else 0 := by
        show drainedIn x (s.call n) = _
        rw [hc, drainedIn, List.count_cons]
        simp
      exact even_of_held (by omega) (coverPush_same ..).accepted
    · cases hs
  · rename_i j includeQueue reason hc
    split at hs
    · cases hs; exact even_cancelJobLocked hb hn (by rw [hc]; rfl) j includeQueue reason
    · cases hs
  · rename_i y r rest reason o hc
    split at hs
    · cases hs
      have hput : (s.unlockWorker.put y r).held x = s.held x + if y = x then 1 else 0 :=
        held_put (s := s.unlockWorker) y r
      have hpush := held_cancelPush (x := x) (s := s.unlockWorker.put y r) (n := n) hn reason o rest
      have hc' : drainedIn x ((s.unlockWorker.put y r).call n) =
          rest.count x + if y = x then 1 else 0 := by
        show drainedIn x (s.call n) = _
        rw [hc, drainedIn, List.count_cons]
        simp
      exact even_of_held (by omega) (cancelPush_same ..).accepted
    · cases hs
  · rename_i u hc
    split at hs
    · cases hs; exact even_setCall hn (by rw [hc]; rfl) rfl
    · cases hs; exact even_setCall hn (by rw [hc]; rfl) rfl
    · cases hs
  · cases hs
  · cases hs
  · cases hs

end Executor
end Pyxxl
