import Pyxxl.Executor.Moves
import Pyxxl.Executor.Once
import Pyxxl.Executor.Sent

/-!
# Pyxxl.Executor.Resting

How an executor comes to rest, when no `run_job` comes any more.

* `Prompt s`: what holds as long as nobody calls `stop` and every task reports (`Event.tells`): no
  coroutine waits for a lock, and each accepted trigger is in one of the four places.
* `Resting s`: nothing is pending and every task is over. Then all accepted triggers have been
  reported (`Prompt.reported`), and no event changes anything of that (`Resting.step`).
* `Stilled calls s j`: `cancel_job` has been through job `j`, in one of the `calls`: nothing
  comes after its current task.
-/

namespace Pyxxl
namespace Executor

variable {strict : Nat → Prop} {s s' : Executor} {e : Event} {t n : Nat} {j : JobId} {x : Trigger}

/-- No callback gets lost in the event, where the handler is there and nobody has called `stop`:
the logger can be had, and what is raised in the `try` is reported by the branch that catches it. -/
def Event.tells : Event → Prop
  | .start _ aux => aux.getLogger = none ∧ ∀ exc, aux.startLog = some exc → aux.catches exc
  | .handlerEnds _ (.error exc) aux => aux.catches exc
  | .handlerEnds _ (.ok _) aux => ∀ exc, aux.finishLog = some exc → aux.catches exc
  | _ => True

/-- The event is no part of a `stop`, takes no handler away and loses no callback. -/
structure Reporting (s : Executor) (e : Event) : Prop where
  noStop : e.noStop
  keeps : e.keepsHandlers s
  tells : e.tells

/-- What is held of a trigger never gets less; a `succeeded_callback` that raises makes it more. -/
theorem step_rises (hi : Inv strict s) (hf : Free (fun _ => []) s) (ht : e.tells)
    (hs : s.step e = some s') :
    s.held x + s'.accepted.count x ≤ s'.held x + s.accepted.count x := by
  have heven : (∀ t, e.task = some t → e.reports s t) →
      s.held x + s'.accepted.count x ≤ s'.held x + s.accepted.count x :=
    fun ha => (step_even (x := x) hi hs fun t ht _ => ha t ht).ge
  cases e with
  | start t aux =>
    have hlt := task_lt hi hs (t := t) rfl
    simp only [Executor.step] at hs
    split at hs
    · rename_i hc
      cases hs
      rw [startRun_accepted hc, held_startRun (x := x) hi hlt hc (fun _ => ht)
        fun _ => hf.registered_scheduled hi hlt hc]
    · cases hs
  | handlerEnds t res aux =>
    have hlt := task_lt hi hs (t := t) rfl
    simp only [Executor.step] at hs
    split at hs
    · rename_i ts hc
      cases hs
      rw [(MayFinish.handlerEnds ..).accepted]
      refine Nat.add_le_add_right ?_ _
      refine le_held_handlerEnds hi.books (running_of_inHandler hi hlt hc) (by simp [owes, hc]) ts res
        (fun exc he => ?_) fun v exc he => ?_
      · subst he; exact ht
      · subst he; exact ht exc
    · cases hs
  | resumeTask t aux => rw [Executor.step, hf.resumeTask] at hs; cases hs
  | _ => exact heven fun _ _ => trivial

structure Prompt (s : Executor) : Prop where
  inv : Inv (fun _ => False) s
  free : Free (fun _ => []) s
  balance : ∀ x, s.accepted.count x ≤ s.held x
  names : ∀ p ∈ s.callbacks, Names p

theorem prompt_init (handler : String → Bool) (m : Int) : Prompt (init handler m) where
  inv := inv_init handler m
  free := free_init handler m
  balance _ := Nat.le_refl _
  names p hp := by cases hp

theorem Prompt.step (h : Prompt s) (hr : Reporting s e) (hs : s.step e = some s') : Prompt s' where
  inv := (step_good h.inv (fun _ hf => hf.elim) hs).1
  free := h.free.step h.inv.books hr.noStop hr.keeps hs
  balance x := by
    have hrises := step_rises (x := x) h.inv h.free hr.tells hs
    have := h.balance x
    omega
  names p hp := by
    obtain ⟨new, he, hn⟩ := h.free.sends hs
    rw [he, List.mem_append] at hp
    exact hp.elim (h.names p) fun hp => (hn p hp).1

/-- No call waits to enter its critical section. -/
theorem Prompt.checks (h : Prompt s) (he : ∀ d, e ≠ .runJob d) : e.checks s = none := by
  cases e with
  | runJob d => exact absurd rfl (he d)
  | resumeCall n =>
    have hc := h.free.call n
    simp only [Event.checks]
    split
    · rename_i hk
      rw [hk] at hc
      cases hc
    · rfl
  | _ => rfl

/-- Only `run_job` accepts. -/
theorem step_accepted_eq (hc : e.checks s = none) (hs : step s e = some s') :
    s'.accepted = s.accepted := by
  cases step_delta hs with
  | same h => exact h.accepted
  | run n d s₁ h => rw [hc] at h; cases h
  | queue n d s₁ h => rw [hc] at h; cases h
  | cover n d s₁ h => rw [hc] at h; cases h
  | drop k s₁ hk h₁ h₂ =>
    rw [h₂.accepted, takePending_fst]
    exact h₁.accepted
  | start t aux he ht h => exact h.accepted
  | startFinish t aux s₁ he ht hq h₁ h₂ =>
    rw [h₂.accepted, (finish_history s₁ t).2.1, h₁.accepted]
    rfl
  | finish t s₁ he hn h₁ h₂ => rw [h₂.accepted, (finish_history s₁ t).2.1, h₁.accepted]

/-! ## At rest -/

/-- The task has ended, and its done-callback has nothing to do. -/
def XXLTask.Over (o : XXLTask) : Prop :=
  (∃ exc, o.task = .done exc) ∧
    (o.cleanup = .idle ∨ o.cleanup = .ended ∨ o.cleanup = .doneCallback ∧ o.started = true)

structure Resting (s : Executor) : Prop where
  locks : s.jobLocks = fun _ => []
  pending : ∀ j, s.pending j = []
  call : ∀ n, (s.call n).parked = false
  rested : ∀ t, (s.obj t).Over

theorem XXLTask.Over.owes {o : XXLTask} (h : o.Over) : owes o = 0 := by
  obtain ⟨⟨exc, hd⟩, hc | hc | ⟨hc, hst⟩⟩ := h
  · simp [Executor.owes, hd, hc]
  · simp [Executor.owes, hd, hc]
  · simp [Executor.owes, hd, hc, hst]

theorem TaskOk.rested {fin strict : Prop} {o : XXLTask} (h : TaskOk strict o fin) (hf : fin) :
    o.Over := by
  unfold TaskOk at h
  split at h
  · exact absurd hf h.2.2.2
  · exact absurd hf h.2.2.2
  · exact absurd hf h.2.2.2
  · exact absurd hf h.1.2.2.2
  · exact absurd hf h.2.2.2
  · exact absurd hf h.1.2.2.2
  · rename_i exc hd
    refine ⟨⟨exc, hd⟩, ?_⟩
    split at h
    · exact h.elim
    · rename_i hc
      refine .inr (.inr ⟨hc, ?_⟩)
      by_contra hst
      exact h.2.1 (h.1 (by simpa using hst)).2 hf
    · exact absurd hf h.2.2.1
    · exact absurd hf h.2.2.1
    · exact absurd hf h.2.2.1
    · rename_i hc; exact .inr (.inl hc)

/-- Nothing is pending, and the tasks that are not finished are over. -/
theorem Prompt.resting (h : Prompt s) (hp : ∀ j, s.pending j = [])
    (ho : ∀ t, t < s.nextTask → t ∉ s.finished → (s.obj t).Over) : Resting s where
  locks := h.free.locks
  pending := hp
  call := h.free.call
  rested t := by
    by_cases ht : t < s.nextTask
    · by_cases hf : t ∈ s.finished
      · exact (h.inv.tasks t ht).rested hf
      · exact ho t ht hf
    · rw [h.inv.fresh t (by omega)]
      exact ⟨⟨none, rfl⟩, .inl rfl⟩

theorem line_nil (s : Executor) (j : JobId) :
    s.line j = [] ↔ s.tasks j = none ∧ s.pending j = [] := by
  rw [line, List.append_eq_nil_iff, current]
  cases s.tasks j <;> simp

theorem idle_line (h : s.isRunningOrHasQueue j = false) : s.line j = [] := by
  simp only [isRunningOrHasQueue, Bool.or_eq_false_iff, Bool.not_eq_false', List.isEmpty_iff,
    Option.isSome_eq_false_iff, Option.isNone_iff_eq_none] at h
  rw [line_nil, pending, h.1.1, h.1.2, h.2]
  exact ⟨rfl, rfl⟩

/-- A job with no accepted trigger has no line. -/
theorem Books.line_of_accepted (hb : Books s) (h : ∀ x ∈ s.accepted, x.jobId = j → s.line j = []) :
    s.line j = [] := by
  by_contra hne
  obtain ⟨x, hx⟩ := List.exists_mem_of_ne_nil _ hne
  exact hne (h x ((hb.job j).known x hx) (hb.line_job hx))

/-- The loop of `graceful_close` has ended. -/
theorem Prompt.resting_of_idle (h : Prompt s)
    (hi : ∀ x ∈ s.accepted, s.isRunningOrHasQueue x.jobId = false) : Resting s := by
  have hline : ∀ j, s.line j = [] := by
    intro j
    refine h.inv.books.line_of_accepted fun x hx hj => ?_
    rw [← hj]
    exact idle_line (hi x hx)
  refine h.resting (fun j => ((line_nil s j).mp (hline j)).2) fun t ht hf => ?_
  have hcur := h.inv.books.unfinished t ht hf
  rw [((line_nil s _).mp (hline _)).1] at hcur
  cases hcur

/-- Whoever rests has reported every trigger. -/
theorem Prompt.reported (h : Prompt s) (hr : Resting s) (hx : x ∈ s.accepted) :
    ∃ r, (x, r) ∈ s.callbacks := by
  have hone : s.accepted.count x = 1 :=
    List.count_eq_one_of_mem (accepted_nodup h.inv.books) hx
  have hdrained : s.drained x = 0 := by
    refine (tally_eq_zero _).mpr fun n _ => ?_
    have hc := hr.call n
    cases hk : s.call n <;> simp_all [drainedIn, Call.parked]
  have howed : s.owed x = 0 := by
    refine (tally_eq_zero _).mpr fun t _ => ?_
    simp [owedTo, (hr.rested t).owes]
  have hbal := h.balance x
  simp only [held, Executor.reported, hr.pending, h.free.undropped, hdrained, howed, hone,
    List.map_nil, List.count_nil, Nat.add_zero] at hbal
  have hmem : x ∈ s.callbacks.map Prod.fst := List.count_pos_iff.mp (by omega)
  obtain ⟨⟨y, r⟩, hp, rfl⟩ := List.mem_map.mp hmem
  exact ⟨r, hp⟩

/-! ## Nothing happens any more -/

/-- Killing a current task that is over only notes the reason. -/
theorem killCurrent_over (ho : ∀ t, (s.obj t).Over) (j : JobId) (reason : PyStr) :
    s.killCurrent j reason = s ∨ ∃ t, s.killCurrent j reason = s.setCancelReason t reason := by
  unfold killCurrent
  split
  · rename_i t _
    obtain ⟨⟨exc, hd⟩, -⟩ := ho t
    exact .inr ⟨t, by simp [cancel, setCancelReason, modTask, hd]⟩
  · exact .inl rfl

/-- What `cancel_job` leaves alone under the job lock. -/
structure Undisturbed (s s' : Executor) : Prop where
  locks : s'.jobLocks = s.jobLocks
  call : s'.call = s.call
  callbacks : s'.callbacks = s.callbacks
  pending : ∀ k, s'.pending k = []
  rested : ∀ t, (s'.obj t).Over

theorem killCurrent_undisturbed (hp : ∀ k, s.pending k = []) (ho : ∀ t, (s.obj t).Over) (j : JobId)
    (reason : PyStr) : Undisturbed s (s.killCurrent j reason) := by
  rcases killCurrent_over ho j reason with h | ⟨t, h⟩
  · rw [h]
    exact ⟨rfl, rfl, rfl, hp, ho⟩
  · rw [h]
    refine ⟨rfl, rfl, rfl, hp, fun u => ?_⟩
    by_cases hu : u = t
    · subst hu
      simpa [setCancelReason, XXLTask.Over] using ho u
    · rw [setCancelReason, modTask_other hu]
      exact ho u

theorem takePending_undisturbed (hp : ∀ k, s.pending k = []) (ho : ∀ t, (s.obj t).Over) (j : JobId) :
    Undisturbed s (s.takePending j).1 ∧ (s.takePending j).2 = [] := by
  have hj := hp j
  simp only [pending, List.append_eq_nil_iff] at hj
  refine ⟨⟨by rw [takePending_fst], by rw [takePending_fst], by rw [takePending_fst],
    fun k => ?_, by rw [takePending_obj]; exact ho⟩, by rw [takePending_snd, hj.1, hj.2]; rfl⟩
  by_cases hk : k = j
  · rw [hk, takePending_pending]
  · have ha := takePending_away s j hk
    rw [pending, ha.cover, ha.queue]
    exact hp k

theorem cancelLocked_undisturbed (hp : ∀ k, s.pending k = []) (ho : ∀ t, (s.obj t).Over) (j : JobId)
    (includeQueue : Bool) (reason : PyStr) :
    Undisturbed s (s.cancelLocked j includeQueue reason).1 ∧
      (s.cancelLocked j includeQueue reason).2 = [] := by
  cases includeQueue with
  | false => exact ⟨killCurrent_undisturbed hp ho j reason, rfl⟩
  | true =>
    obtain ⟨h₁, hnone⟩ := takePending_undisturbed hp ho j
    have h₂ := killCurrent_undisturbed h₁.pending h₁.rested j reason
    exact ⟨⟨h₂.locks.trans h₁.locks, h₂.call.trans h₁.call, h₂.callbacks.trans h₁.callbacks,
      h₂.pending, h₂.rested⟩, hnone⟩

theorem Resting.setCall (h : Resting s) (n : Nat) {c : Call} (hc : c.parked = false) :
    Resting (s.setCall n c) := by
  refine ⟨h.locks, h.pending, fun m => ?_, h.rested⟩
  by_cases hm : m = n
  · subst hm; simpa [Executor.setCall] using hc
  · simpa [Executor.setCall, hm] using h.call m

/-- A kill finds nothing to drop, and a task that is over. -/
theorem Resting.cancelJob (h : Resting s) (j : JobId) (includeQueue : Bool) (reason : PyStr) :
    Resting (s.cancelJob j includeQueue reason) ∧
      (s.cancelJob j includeQueue reason).callbacks = s.callbacks := by
  have hfree : s.jobLocks j = [] := by rw [h.locks]
  have hopen : Resting s.openCall := by
    have hset := h.setCall s.nextCall (c := .begun) rfl
    exact ⟨hset.locks, hset.pending, hset.call, hset.rested⟩
  obtain ⟨hu, hnone⟩ := cancelLocked_undisturbed (s := s.openCall.lockJob j (.call s.nextCall))
    hopen.pending hopen.rested j includeQueue reason
  have hrest : Resting (((s.openCall.lockJob j (.call s.nextCall)).cancelLocked j includeQueue
      reason).1.unlockJob j) := by
    refine ⟨?_, hu.pending, by rw [unlockJob, hu.call]; exact hopen.call, hu.rested⟩
    have hlocks := hu.locks.trans (show _ = Function.update (fun _ => []) j [.call s.nextCall] by
      simp [lockJob, openCall, h.locks])
    funext k
    simp only [unlockJob, hlocks]
    by_cases hk : k = j
    · subst hk; simp
    · simp [hk]
  simp only [Executor.cancelJob, hfree, if_true, cancelJobLocked, cancelPush]
  rw [hnone]
  simp only [pushFailedQueuedTasks]
  split
  · exact ⟨hrest.setCall _ rfl, hu.callbacks⟩
  · exact ⟨hrest.setCall _ rfl, hu.callbacks⟩

theorem Resting.step (h : Resting s) (hn : e.noStop) (he : ∀ d, e ≠ .runJob d)
    (hs : s.step e = some s') :
    Resting s' ∧ s'.callbacks = s.callbacks ∧ s'.accepted = s.accepted := by
  have hchecks : e.checks s = none := by
    cases e with
    | runJob d => exact absurd rfl (he d)
    | resumeCall n =>
      have hc := h.call n
      simp only [Event.checks]
      split <;> simp_all [Call.parked]
    | _ => rfl
  rw [and_comm (a := s'.callbacks = _), ← and_assoc, and_right_comm]
  refine ⟨?_, step_accepted_eq hchecks hs⟩
  have hover := h.rested
  cases e with
  | runJob d => exact absurd rfl (he d)
  | cancelJob j includeQueue reason => cases hs; exact h.cancelJob j includeQueue reason
  | resumeCall n =>
    have hc := h.call n
    simp only [Executor.step] at hs
    split at hs
    · unfold resumeCall at hs
      split at hs
      · rename_i hk; rw [hk] at hc; cases hc
      · rename_i hk; rw [hk] at hc; cases hc
      · rename_i hk; rw [hk] at hc; cases hc
      · rename_i hk; rw [hk] at hc; cases hc
      · split at hs
        · cases hs; exact ⟨h.setCall n rfl, rfl⟩
        · cases hs; exact ⟨h.setCall n rfl, rfl⟩
        · cases hs
      · cases hs
      · cases hs
      · cases hs
    · cases hs
  | start t aux =>
    obtain ⟨⟨exc, hd⟩, -⟩ := hover t
    simp [Executor.step, hd] at hs
  | abort t =>
    obtain ⟨⟨exc, hd⟩, -⟩ := hover t
    simp [Executor.step, hd] at hs
  | handlerEnds t res aux =>
    obtain ⟨⟨exc, hd⟩, -⟩ := hover t
    simp [Executor.step, hd] at hs
  | resumeTask t aux =>
    obtain ⟨⟨exc, hd⟩, -⟩ := hover t
    simp [Executor.step, resumeTask, hd] at hs
  | resumeCleanup t aux =>
    obtain ⟨⟨exc, hd⟩, hc⟩ := hover t
    rcases hc with hc | hc | ⟨hc, hst⟩
    · simp [Executor.step, resumeCleanup, hc] at hs
    · simp [Executor.step, resumeCleanup, hc] at hs
    · -- the done-callback of a task that has begun returns at once
      simp only [Executor.step, resumeCleanup, hc, hd, onExecutorTaskDone, hst, true_or, or_true,
        if_true, Option.some.injEq] at hs
      subst hs
      refine ⟨⟨h.locks, h.pending, h.call, fun u => ?_⟩, rfl⟩
      by_cases hu : u = t
      · subst hu
        exact ⟨⟨exc, by simp [setCleanup, hd]⟩, .inr (.inl (by simp [setCleanup]))⟩
      · rw [setCleanup_other _ hu]
        exact hover u
  | setHandler handler => cases hs; exact ⟨⟨h.locks, h.pending, h.call, h.rested⟩, rfl⟩
  | stopCalled close => cases hn
  | stopLock n => cases hn
  | stopUnlock n => cases hn
  | tick now => cases hs; exact ⟨⟨h.locks, h.pending, h.call, h.rested⟩, rfl⟩

/-! ## The kills of `shutdown` -/

/-- A task that has ended stays so. -/
theorem step_ended (hi : Inv strict s) (ht : t < s.nextTask) (h : (s.obj t).cleanup ≠ .idle)
    (hs : step s e = some s') : (s'.obj t).cleanup ≠ .idle := by
  obtain ⟨exc, hd⟩ := (hi.tasks t ht).ended h
  by_cases he : e.task = some t
  · cases e with
    | start u aux => cases he; simp [step, hd] at hs
    | abort u => cases he; simp [step, hd] at hs
    | handlerEnds u res aux => cases he; simp [step, hd] at hs
    | resumeTask u aux => cases he; simp [step, resumeTask, hd] at hs
    | resumeCleanup u aux => cases he; exact resumeCleanup_cleanup hs
    | _ => cases he
  · rcases step_obj hi.books hs ht he with ho | ⟨-, reason, ho⟩
    · rw [ho]; exact h
    · rw [ho]; exact h

theorem TaskOk.not_idle {fin strict : Prop} {o : XXLTask} (h : TaskOk strict o fin) {exc : Option Exc}
    (hd : o.task = .done exc) : o.cleanup ≠ .idle := by
  intro hc
  simp only [TaskOk, hd, hc] at h

theorem cancelPush_calls (s : Executor) {m : Nat} (hm : m ≠ n) (reason : PyStr) (o : Option Nat)
    (rest : List Trigger) : (s.cancelPush n reason o rest).call m = s.call m ∧
      (s.cancelPush n reason o rest).nextCall = s.nextCall := by
  unfold cancelPush
  split
  · rename_i hs
    obtain ⟨h1, h2⟩ := pushFailed_calls hs
    split
    · exact ⟨by simp [setCall, hm, h1], h2⟩
    · exact ⟨by simp [setCall, hm, h1], h2⟩
  · rename_i hs
    obtain ⟨h1, h2⟩ := pushFailed_calls hs
    exact ⟨by simp [setCall, hm, h1], h2⟩

/-- A new call of `cancel_job` leaves the others where they are. -/
theorem cancelJob_calls (s : Executor) (j : JobId) (includeQueue : Bool) (reason : PyStr)
    (hn : n < s.nextCall) : (s.cancelJob j includeQueue reason).call n = s.call n ∧
      (s.cancelJob j includeQueue reason).nextCall = s.nextCall + 1 := by
  have hne : n ≠ s.nextCall := by omega
  simp only [cancelJob]
  split
  · obtain ⟨h1, h2⟩ := cancelLocked_calls (s.openCall.lockJob j (.call s.nextCall)) j includeQueue
      reason
    obtain ⟨h3, h4⟩ := cancelPush_calls (((s.openCall.lockJob j (.call s.nextCall)).cancelLocked j
      includeQueue reason).1.unlockJob j) hne reason
      (((s.openCall.lockJob j (.call s.nextCall)).cancelLocked j includeQueue reason).1.tasks j)
      ((s.openCall.lockJob j (.call s.nextCall)).cancelLocked j includeQueue reason).2
    refine ⟨h3.trans ?_, h4.trans h2⟩
    show ((s.openCall.lockJob j (.call s.nextCall)).cancelLocked j includeQueue reason).1.call n = _
    rw [h1]
    simp [lockJob, openCall, hne]
  · exact ⟨by simp [setCall, lockJob, openCall, hne], rfl⟩

/-- A call that awaits a task goes on doing so, unless the task has ended. -/
theorem step_awaits (hf : Free (fun _ => []) s) (he : ∀ d, e ≠ .runJob d)
    (hs : step s e = some s') (hc : s.call n = .cancelAwait t) (hn : n < s.nextCall) :
    s'.call n = .cancelAwait t ∧ n < s'.nextCall ∨ ∃ exc, (s.obj t).task = .done exc := by
  cases ho : e.task with
  | some u =>
    obtain ⟨h1, h2⟩ := (step_acts hs ho).calls
    rw [h1, h2]
    exact .inl ⟨hc, hn⟩
  | none =>
    cases e with
    | runJob d => exact absurd rfl (he d)
    | cancelJob j includeQueue reason =>
      cases hs
      obtain ⟨h1, h2⟩ := cancelJob_calls s j includeQueue reason hn
      rw [h1, h2]
      exact .inl ⟨hc, Nat.lt_succ_of_lt hn⟩
    | resumeCall m =>
      simp only [step] at hs
      split at hs
      · by_cases hm : m = n
        · subst hm
          simp only [resumeCall, hc] at hs
          split at hs
          · rename_i hd; exact .inr ⟨_, hd⟩
          · rename_i exc _ hd; exact .inr ⟨_, hd⟩
          · cases hs
        · -- another call that waits for a task, for no call waits for a lock
          have hset : ∀ c : Call, (s.setCall m c).call n = .cancelAwait t := by
            intro c
            simpa [setCall, Ne.symm hm] using hc
          have hpark := hf.call m
          unfold resumeCall at hs
          split at hs
          · rename_i hk; rw [hk] at hpark; cases hpark
          · rename_i hk; rw [hk] at hpark; cases hpark
          · rename_i hk; rw [hk] at hpark; cases hpark
          · rename_i hk; rw [hk] at hpark; cases hpark
          · split at hs
            · cases hs; exact .inl ⟨hset _, hn⟩
            · cases hs; exact .inl ⟨hset _, hn⟩
            · cases hs
          · cases hs
          · cases hs
          · cases hs
      · cases hs
    | setHandler handler => cases hs; exact .inl ⟨hc, hn⟩
    | stopCalled close => cases hs; exact .inl ⟨hc, hn⟩
    | stopLock m => cases hs; exact .inl ⟨hc, hn⟩
    | stopUnlock m =>
      simp only [step] at hs
      split at hs
      · cases hs; exact .inl ⟨hc, hn⟩
      · cases hs
    | tick now => cases hs; exact .inl ⟨hc, hn⟩
    | _ => cases ho

structure Stilled (calls : List Nat) (s : Executor) (j : JobId) : Prop where
  pending : s.pending j = []
  current : ∀ t, s.tasks j = some t →
    (s.obj t).cleanup ≠ .idle ∨ ∃ n ∈ calls, n < s.nextCall ∧ s.call n = .cancelAwait t

variable {calls : List Nat}

theorem Stilled.of_line (h : s.line j = []) : Stilled calls s j where
  pending := ((line_nil s j).mp h).2
  current t ht := by rw [((line_nil s j).mp h).1] at ht; cases ht

theorem Stilled.mono (h : Stilled calls s j) {calls' : List Nat} (hm : ∀ n ∈ calls, n ∈ calls') :
    Stilled calls' s j where
  pending := h.pending
  current t ht := (h.current t ht).imp_right fun ⟨n, hn, hc⟩ => ⟨n, hm n hn, hc⟩

theorem Stilled.step (h : Stilled calls s j) (hp : Prompt s) (hp' : Prompt s')
    (he : ∀ d, e ≠ .runJob d) (hs : s.step e = some s') : Stilled calls s' j := by
  have hchecks := hp.checks he
  -- the current task is the one it was
  have hkeep : s'.tasks j = s.tasks j → ∀ t, s'.tasks j = some t →
      (s'.obj t).cleanup ≠ .idle ∨ ∃ n ∈ calls, n < s'.nextCall ∧ s'.call n = .cancelAwait t := by
    intro hsame t ht
    rw [hsame] at ht
    have hlt := hp.inv.books.tasks_lt ht
    rcases h.current t ht with hc | ⟨n, hm, hn, hc⟩
    · exact .inl (step_ended hp.inv hlt hc hs)
    · rcases step_awaits hp.free he hs hc hn with ⟨hc', hn'⟩ | ⟨exc, hd⟩
      · exact .inr ⟨n, hm, hn', hc'⟩
      · exact .inl (step_ended hp.inv hlt ((hp.inv.tasks t hlt).not_idle hd) hs)
  refine ⟨?_, ?_⟩
  · refine List.eq_nil_iff_forall_not_mem.mpr fun x hx => ?_
    rcases step_pending hp.inv hp'.inv hs hx with hm | ⟨n, d, hc, -⟩
    · rw [h.pending] at hm; cases hm
    · rw [hchecks] at hc; cases hc
  · cases step_slot hp.inv hp'.inv hs j with
    | same ht _ => exact hkeep ht
    | run n d hc => rw [hchecks] at hc; cases hc
    | cover n d hc => rw [hchecks] at hc; cases hc
    | drop hk ht => exact hkeep ht
    | finish u hu hown hl =>
      intro t ht
      rw [h.pending] at hl
      rw [((line_nil s' j).mp hl).1] at ht
      cases ht

/-- `cancel_job` with `include_queue` stills the job it is called for. -/
theorem Prompt.cancelJob_stills (h : Prompt s) (j : JobId) (reason : PyStr) :
    Stilled [s.nextCall] (s.cancelJob j true reason) j := by
  have hlock := h.free.openCall.lockJob j (.call s.nextCall)
  have hbooks : SameBooks (((s.openCall.lockJob j (.call s.nextCall)).takePending j).1)
      ((s.openCall.lockJob j (.call s.nextCall)).cancelLocked j true reason).1 :=
    .killCurrent j reason
  have hfree : Free (fun _ => []) (((s.openCall.lockJob j (.call s.nextCall)).cancelLocked j true
      reason).1.unlockJob j) := by
    refine Free.unlockJob (p := .call s.nextCall) ?_
    show Free _ (((s.openCall.lockJob j (.call s.nextCall)).takePending j).1.killCurrent j reason)
    unfold killCurrent
    split
    · exact (hlock.takePending j).kill _ reason
    · exact hlock.takePending j
  have hend := cancelPush_same (((s.openCall.lockJob j (.call s.nextCall)).cancelLocked j true
      reason).1.unlockJob j) s.nextCall reason
    (((s.openCall.lockJob j (.call s.nextCall)).cancelLocked j true reason).1.tasks j)
    ((s.openCall.lockJob j (.call s.nextCall)).cancelLocked j true reason).2
  have heq : s.cancelJob j true reason =
      (((s.openCall.lockJob j (.call s.nextCall)).cancelLocked j true reason).1.unlockJob
        j).cancelPush s.nextCall reason
        (((s.openCall.lockJob j (.call s.nextCall)).cancelLocked j true reason).1.tasks j)
        ((s.openCall.lockJob j (.call s.nextCall)).cancelLocked j true reason).2 := by
    simp only [Executor.cancelJob, h.free.locks, if_true]
    rfl
  rw [heq]
  refine ⟨?_, fun t ht => .inr ⟨s.nextCall, List.mem_singleton_self _, ?_⟩⟩
  · rw [hend.pending]
    exact (hbooks.pending j).trans (takePending_pending _ j)
  · rw [hend.tasks] at ht
    have ht : ((s.openCall.lockJob j (.call s.nextCall)).cancelLocked j true reason).1.tasks j =
        some t := ht
    obtain ⟨s', hs, -⟩ := hfree.pushFailed (.call s.nextCall) reason
      ((s.openCall.lockJob j (.call s.nextCall)).cancelLocked j true reason).2
    obtain ⟨-, hn⟩ := pushFailed_calls hs
    have hnext : s'.nextCall = s.nextCall + 1 := hn.trans (cancelLocked_calls ..).2
    simp only [cancelPush, hs, ht]
    exact ⟨by rw [setCall, hnext]; exact Nat.lt_succ_self _, by simp [setCall]⟩

/-- `shutdown` has come to its end, and no done-callback or cleanup task is still to run. -/
theorem Prompt.resting_of_stilled (h : Prompt s) (hst : ∀ j, Stilled calls s j)
    (hcalls : ∀ n ∈ calls, ∀ t, s.call n ≠ .cancelAwait t)
    (hrun : ∀ t, t < s.nextTask → (s.obj t).cleanup ≠ .doneCallback ∧
      (s.obj t).cleanup ≠ .scheduled) : Resting s := by
  refine h.resting (fun j => (hst j).pending) fun t ht hf => ?_
  have hne : (s.obj t).cleanup ≠ .idle := by
    rcases (hst _).current t (h.inv.books.unfinished t ht hf) with hc | ⟨n, hm, -, hc⟩
    · exact hc
    · exact absurd hc (hcalls n hm t)
  refine ⟨(h.inv.tasks t ht).ended hne, .inr (.inl ?_)⟩
  have hpark := h.free.cleanup t
  cases hc : (s.obj t).cleanup with
  | idle => exact absurd hc hne
  | doneCallback => exact absurd hc (hrun t ht).1
  | scheduled => exact absurd hc (hrun t ht).2
  | pushing r => rw [hc] at hpark; cases hpark
  | locking => rw [hc] at hpark; cases hpark
  | ended => rfl

end Executor
end Pyxxl
