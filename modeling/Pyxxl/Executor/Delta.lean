import Pyxxl.Executor.Step

/-!
# Pyxxl.Executor.Delta

What one event does to the books: nothing, or one of seven things (`Delta`, `step_delta`). The
neutral operations around it (locks, calls, coroutines, callbacks) are hidden in `SameBooks`.
-/

namespace Pyxxl
namespace Executor

inductive Delta (s : Executor) (e : Event) (s' : Executor) : Prop where
  | same (h : SameBooks s s')
  | run (n : Nat) (d : RunData) (s₁ : Executor) (hc : e.checks s = some (n, d))
      (hl : d.logId ∉ s.jobLogIds d.jobId) (hi : s.idle d.jobId = true)
      (h₁ : SameBooks s s₁) (h₂ : SameBooks (s₁.startIdle d) s')
  | queue (n : Nat) (d : RunData) (s₁ : Executor) (hc : e.checks s = some (n, d))
      (hl : d.logId ∉ s.jobLogIds d.jobId) (hi : s.idle d.jobId = false)
      (h₁ : SameBooks s s₁) (h₂ : SameBooks (s₁.enqueueSerial d) s')
  | cover (n : Nat) (d : RunData) (s₁ : Executor) (hc : e.checks s = some (n, d))
      (hd : s.covers d) (hi : s.idle d.jobId = false)
      (h₁ : SameBooks s s₁) (h₂ : SameBooks (s₁.coverEarly d).1 s')
  | drop (j : JobId) (s₁ : Executor) (hk : e.kills s = some (j, true))
      (h₁ : SameBooks s s₁) (h₂ : SameBooks (s₁.takePending j).1 s')
  | start (t : Nat) (aux : Aux) (he : e = .start t aux) (ht : (s.obj t).task = .scheduled false)
      (h : SameBooks (s.markStarted t) s')
  | startFinish (t : Nat) (aux : Aux) (s₁ : Executor) (he : e = .start t aux)
      (ht : (s.obj t).task = .scheduled false) (hq : aux.startLog ≠ none)
      (h₁ : SameBooks (s.markStarted t) s₁) (h₂ : SameBooks (s₁.finish t) s')
  | finish (t : Nat) (s₁ : Executor) (he : e.task = some t) (hn : ∀ aux, e ≠ .start t aux)
      (h₁ : SameBooks s s₁) (h₂ : SameBooks (s₁.finish t) s')

/-- Nothing happens to the books, or `_finish` runs for `t`. -/
def MayFinish (s : Executor) (t : Nat) (s' : Executor) : Prop :=
  SameBooks s s' ∨ ∃ s₁, SameBooks s s₁ ∧ SameBooks (s₁.finish t) s'

namespace MayFinish

variable {s s' s'' : Executor} {t : Nat}

theorem before (h₁ : SameBooks s s') (h : MayFinish s' t s'') : MayFinish s t s'' := by
  rcases h with h | ⟨s₁, h, h'⟩
  · exact .inl (h₁.trans h)
  · exact .inr ⟨s₁, h₁.trans h, h'⟩

theorem accepted (h : MayFinish s t s') : s'.accepted = s.accepted := by
  rcases h with h | ⟨s₁, h, h'⟩
  · exact h.accepted
  · rw [h'.accepted, (finish_history s₁ t).2.1, h.accepted]

theorem delta {e : Event} (h : MayFinish s t s') (he : e.task = some t)
    (hn : ∀ aux, e ≠ .start t aux) : Delta s e s' := by
  rcases h with h | ⟨s₁, h, h'⟩
  · exact .same h
  · exact .finish t s₁ he hn h h'

theorem cleanupTask (s : Executor) (t : Nat) (exc : Option Exc) :
    MayFinish s t (s.cleanupTask t exc) := by
  unfold Executor.cleanupTask
  split
  · exact .inl (.endTask t _)
  · have hlock : SameBooks s ((s.markCleaned t).lockJob (s.obj t).data.jobId (.task t)) :=
      (SameBooks.markCleaned t).trans (.lockJob _ _)
    split
    · exact .inr ⟨_, hlock, (SameBooks.unlockJob _).trans (.endTask t _)⟩
    · exact .inl (hlock.trans (.setCoro t _))

theorem exceptBranch (s : Executor) (t : Nat) (ts : Int) (e : Exc) (aux : Aux) :
    MayFinish s t (s.exceptBranch t ts e aux) := by
  unfold Executor.exceptBranch
  split
  · exact cleanupTask ..
  · split
    · rename_i he; exact before (enqueue_same he).1 (cleanupTask ..)
    · rename_i he; exact .inl ((enqueue_same he).1.trans (.setCoro t _))

theorem afterSuccess (s : Executor) (t : Nat) (ts : Int) (aux : Aux) :
    MayFinish s t (s.afterSuccess t ts aux) := by
  unfold Executor.afterSuccess
  split
  · exact exceptBranch ..
  · exact cleanupTask ..

theorem handlerEnds (s : Executor) (t : Nat) (ts : Int) (res : Except Exc PyVal) (aux : Aux) :
    MayFinish s t (s.handlerEnds t ts res aux) := by
  unfold Executor.handlerEnds
  split
  · exact exceptBranch ..
  · exact exceptBranch ..
  · split
    · rename_i he; exact before (enqueue_same he).1 (afterSuccess ..)
    · rename_i he; exact .inl ((enqueue_same he).1.trans (.setCoro t _))

theorem resumeTask {aux : Aux} (hs : s.resumeTask t aux = some s') : MayFinish s t s' := by
  unfold Executor.resumeTask at hs
  split at hs
  · rename_i inTry r _
    have hput : SameBooks s (s.unlockWorker.put (s.obj t).data r) :=
      SameBooks.unlockWorker.trans (.put _ _)
    split at hs
    · cases inTry with
      | true => cases hs; exact before hput (afterSuccess ..)
      | false => cases hs; exact before hput (cleanupTask ..)
    · cases hs
  · rename_i inTry ts _
    cases inTry with
    | true => cases hs; exact exceptBranch ..
    | false => cases hs; exact cleanupTask ..
  · split at hs
    · cases hs; exact .inr ⟨s, .refl, (SameBooks.unlockJob _).trans (.endTask t _)⟩
    · cases hs
  · cases hs; exact .inl (.endTask t _)
  · cases hs

theorem cleanupPushed (s : Executor) (t : Nat) (aux : Aux) :
    MayFinish s t (s.cleanupPushed t aux) := by
  unfold Executor.cleanupPushed
  split
  · exact .inl (.setCleanup t _)
  · split
    · exact .inr ⟨_, .lockJob _ _, (SameBooks.unlockJob _).trans (.setCleanup t _)⟩
    · exact .inl ((SameBooks.lockJob _ _).trans (.setCleanup t _))

theorem resumeCleanup {aux : Aux} (hs : s.resumeCleanup t aux = some s') : MayFinish s t s' := by
  unfold Executor.resumeCleanup at hs
  split at hs
  · split at hs
    · cases hs
      unfold onExecutorTaskDone
      split
      · exact .inl (.setCleanup t _)
      · exact .inl (.setCleanup t _)
    · cases hs
  · cases hs
    unfold cleanupRun
    split
    · exact .inl (.setCleanup t _)
    · split
      · rename_i he
        exact before ((SameBooks.markCleaned t).trans (enqueue_same he).1) (cleanupPushed ..)
      · rename_i he
        exact .inl (((SameBooks.markCleaned t).trans (enqueue_same he).1).trans (.setCleanup t _))
  · split at hs
    · cases hs
      exact before (SameBooks.unlockWorker.trans (.put _ _)) (cleanupPushed ..)
    · cases hs
  · split at hs
    · cases hs; exact .inr ⟨s, .refl, (SameBooks.unlockJob _).trans (.setCleanup t _)⟩
    · cases hs
  · cases hs
  · cases hs

end MayFinish

variable {s s' : Executor} {e : Event}

theorem startRun_delta {t : Nat} (aux : Aux) (ht : (s.obj t).task = .scheduled false) :
    Delta s (.start t aux) (s.startRun t aux) := by
  simp only [startRun]
  split
  · split
    · exact .start t aux rfl ht ((SameBooks.setCoro t _).trans (.endTask t _))
    · rename_i e hl hsl
      rcases MayFinish.before (SameBooks.setCoro t _) (MayFinish.exceptBranch
        ((s.markStarted t).setCoro t (.inHandler (s.callbackTimestamp (s.obj t).data.data))) t
          (s.callbackTimestamp (s.obj t).data.data) e aux) with h | ⟨s₁, h, h'⟩
      · exact .start t aux rfl ht h
      · exact .startFinish t aux s₁ rfl ht (by rw [hsl]; simp) h h'
    · exact .start t aux rfl ht (.setCoro t _)
  · exact .start t aux rfl ht ((SameBooks.setCoro t _).trans (.endTask t _))

theorem pushFailed_same {p : Pid} {reason : PyStr} {xs : List Trigger}
    {rest : Option (Trigger × CallbackRequest × List Trigger)}
    (hs : pushFailedQueuedTasks p reason xs s = (s', rest)) : SameBooks s s' := by
  have hsame := SameBooks.pushFailedQueuedTasks p reason xs s
  rw [hs] at hsame
  exact hsame

theorem coverPush_same (s : Executor) (n : Nat) (d : RunData) (reason : PyStr)
    (rest : List Trigger) : SameBooks s (s.coverPush n d reason rest) := by
  unfold coverPush
  split
  · rename_i hs; exact (pushFailed_same hs).trans (runReturn_same ..)
  · rename_i hs; exact (pushFailed_same hs).trans (.setCall n _)

theorem cancelPush_same (s : Executor) (n : Nat) (reason : PyStr) (t : Option Nat)
    (rest : List Trigger) : SameBooks s (s.cancelPush n reason t rest) := by
  unfold cancelPush
  split
  · rename_i hs
    split
    · exact (pushFailed_same hs).trans (.setCall n _)
    · exact (pushFailed_same hs).trans (.setCall n _)
  · rename_i hs; exact (pushFailed_same hs).trans (.setCall n _)

theorem runJobLocked_delta {s₁ : Executor} {n : Nat} {d : RunData}
    (hc : e.checks s = some (n, d)) (h₁ : SameBooks s s₁) : Delta s e (s₁.runJobLocked n d) := by
  have hidle : s₁.idle d.jobId = s.idle d.jobId := by simp only [idle, h₁.tasks, h₁.queue, h₁.cover]
  have hret : ∀ s₂ res, SameBooks s₂ (s₂.runReturn n d.jobId res) := fun s₂ res =>
    runReturn_same ..
  unfold runJobLocked
  split
  · exact .same (h₁.trans (hret _ _))
  · rename_i hl
    rw [h₁.logIds] at hl
    split
    · rename_i hi
      exact .run n d s₁ hc hl (by rw [← hidle]; exact hi) h₁ (hret _ _)
    · rename_i hi
      have hi' : s.idle d.jobId = false := by rw [← hidle]; simpa using hi
      split
      · exact .same (h₁.trans (hret _ _))
      · split
        · rename_i hcov
          exact .cover n d s₁ hc ⟨hl, hcov⟩ hi' h₁ (coverPush_same ..)
        · split
          · unfold handleSerialExecution
            split
            · exact .same (h₁.trans (hret _ _))
            · exact .queue n d s₁ hc hl hi' h₁ (hret _ _)
          · exact .same (h₁.trans (hret _ _))

theorem cancelJobLocked_delta {s₁ : Executor} {n : Nat} {j : JobId} {includeQueue : Bool}
    {reason : PyStr} (hk : e.kills s = some (j, includeQueue)) (h₁ : SameBooks s s₁) :
    Delta s e (s₁.cancelJobLocked n j includeQueue reason) := by
  have hrest : ∀ s₂, SameBooks s₂ (((s₂.unlockJob j).cancelPush n reason
      ((s₁.cancelLocked j includeQueue reason).1.tasks j)
      (s₁.cancelLocked j includeQueue reason).2)) := fun s₂ =>
    (SameBooks.unlockJob j).trans (cancelPush_same ..)
  unfold cancelJobLocked
  cases includeQueue with
  | false => exact .same ((h₁.trans (.killCurrent j reason)).trans (hrest _))
  | true => exact .drop j s₁ hk h₁ ((SameBooks.killCurrent j reason).trans (hrest _))

theorem runJob_delta (s : Executor) (d : RunData) : Delta s (.runJob d) (s.runJob d) := by
  have hcall : SameBooks s s.openCall := .openCall
  have hlock := hcall.trans (SameBooks.lockJob d.jobId (.call s.nextCall))
  simp only [runJob]
  split
  · rename_i hh
    split
    · rename_i hfree
      exact runJobLocked_delta (by simp [Event.checks, hh, hfree]) hlock
    · exact .same (hlock.trans (.setCall _ _))
  · exact .same (hcall.trans (.setCall _ _))

theorem cancelJob_delta (s : Executor) (j : JobId) (includeQueue : Bool) (reason : PyStr) :
    Delta s (.cancelJob j includeQueue reason) (s.cancelJob j includeQueue reason) := by
  have hcall : SameBooks s s.openCall := .openCall
  have hlock := hcall.trans (SameBooks.lockJob j (.call s.nextCall))
  simp only [cancelJob]
  split
  · rename_i hfree
    exact cancelJobLocked_delta (by simp [Event.kills, hfree]) hlock
  · exact .same (hlock.trans (.setCall _ _))

theorem resumeCall_delta {n : Nat} (hs : s.resumeCall n = some s') :
    Delta s (.resumeCall n) s' := by
  unfold resumeCall at hs
  split at hs
  · rename_i d hc
    split at hs
    · cases hs; exact runJobLocked_delta (by simp [Event.checks, hc]) .refl
    · cases hs
  · split at hs
    · cases hs
      exact .same ((SameBooks.unlockWorker.trans (.put _ _)).trans (coverPush_same ..))
    · cases hs
  · rename_i j includeQueue reason hc
    split at hs
    · cases hs; exact cancelJobLocked_delta (by simp [Event.kills, hc]) .refl
    · cases hs
  · split at hs
    · cases hs
      exact .same ((SameBooks.unlockWorker.trans (.put _ _)).trans (cancelPush_same ..))
    · cases hs
  · split at hs
    · cases hs; exact .same (.setCall n _)
    · cases hs; exact .same (.setCall n _)
    · cases hs
  · cases hs
  · cases hs
  · cases hs

/-- Every event does one of the eight things, in any state. -/
theorem step_delta (hs : step s e = some s') : Delta s e s' := by
  have hsame : ∀ s₂ : Executor, s₂.tasks = s.tasks → s₂.queue = s.queue →
      s₂.jobLogIds = s.jobLogIds → s₂.coverReplacements = s.coverReplacements →
      s₂.nextTask = s.nextTask → s₂.accepted = s.accepted → s₂.started = s.started →
      s₂.finished = s.finished → s₂.obj = s.obj → Delta s e s₂ := by
    intro s₂ h1 h2 h3 h4 h5 h6 h7 h8 h9
    exact .same ⟨h1, h2, h3, h4, h5, h6, h7, h8, fun _ => by rw [h9], fun _ => by rw [h9]⟩
  cases e with
  | runJob d => cases hs; exact runJob_delta s d
  | cancelJob j includeQueue reason => cases hs; exact cancelJob_delta s j includeQueue reason
  | resumeCall n =>
    simp only [step] at hs
    split at hs
    · exact resumeCall_delta hs
    · cases hs
  | start t aux =>
    simp only [step] at hs
    split at hs
    · rename_i ht; cases hs; exact startRun_delta aux ht
    · cases hs
  | abort t =>
    simp only [step] at hs
    split at hs
    · cases hs; exact .same (.endTask t _)
    · cases hs
  | handlerEnds t res aux =>
    simp only [step] at hs
    split at hs
    · cases hs; exact (MayFinish.handlerEnds ..).delta rfl (by simp)
    · cases hs
  | resumeTask t aux => exact (MayFinish.resumeTask hs).delta rfl (by simp)
  | resumeCleanup t aux => exact (MayFinish.resumeCleanup hs).delta rfl (by simp)
  | setHandler handler => cases hs; exact hsame _ rfl rfl rfl rfl rfl rfl rfl rfl rfl
  | stopCalled close => cases hs; exact hsame _ rfl rfl rfl rfl rfl rfl rfl rfl rfl
  | stopLock n => cases hs; exact hsame _ rfl rfl rfl rfl rfl rfl rfl rfl rfl
  | stopUnlock n =>
    simp only [step] at hs
    split at hs
    · cases hs; exact hsame _ rfl rfl rfl rfl rfl rfl rfl rfl rfl
    · cases hs
  | tick now => cases hs; exact hsame _ rfl rfl rfl rfl rfl rfl rfl rfl rfl

/-! ## What one event does to a job's line -/

variable {strict : Nat → Prop} {j : JobId}

inductive LineStep (s : Executor) (e : Event) (s' : Executor) (j : JobId) : Prop where
  | same (h : s'.line j = s.line j)
  | arrive (n : Nat) (d : RunData) (hc : e.checks s = some (n, d)) (hj : d.jobId = j)
      (hl : d.logId ∉ s.jobLogIds j) (h : s'.line j = s.line j ++ [newTrigger s d])
  | cover (n : Nat) (d : RunData) (hc : e.checks s = some (n, d)) (hj : d.jobId = j)
      (hl : d.logId ∉ s.jobLogIds j) (h : s'.line j = s.current j ++ [newTrigger s d])
  | drop (hk : e.kills s = some (j, true)) (h : s'.line j = s.current j)
  | finish (t : Nat) (ht : s.tasks j = some t) (he : e.task = some t) (h : s'.line j = s.pending j)

theorem task_lt (hi : Inv strict s) (hs : step s e = some s') {t : Nat} (he : e.task = some t) :
    t < s.nextTask := by
  refine hi.lt_of_obj fun ho => ?_
  cases e with
  | start u aux => cases he; simp [step, ho, noTask] at hs
  | abort u => cases he; simp [step, ho, noTask] at hs
  | handlerEnds u res aux => cases he; simp [step, ho, noTask] at hs
  | resumeTask u aux => cases he; simp [step, resumeTask, ho, noTask] at hs
  | resumeCleanup u aux => cases he; simp [step, resumeCleanup, ho, noTask] at hs
  | _ => cases he

/-- Whenever `_finish` runs for a task, that task is the current one of its job. -/
theorem finish_current (hi : Inv strict s) (hi' : Inv strict s') (hs : step s e = some s')
    {t : Nat} {s₁ : Executor} (he : e.task = some t) (h₁ : SameBooks s s₁)
    (h₂ : SameBooks (s₁.finish t) s') : s₁.tasks (s₁.obj t).data.jobId = some t := by
  have hnd := hi'.books.once
  rw [h₂.finished, (finish_history s₁ t).1, List.nodup_append] at hnd
  have hnf : t ∉ s.finished := by
    rw [← h₁.finished]
    exact fun hm => hnd.2.2 t hm t (by simp) rfl
  rw [h₁.tasks, h₁.data]
  exact hi.books.unfinished t (task_lt hi hs he) hnf

/-- A task that has not begun is the current one of its job, also when it ends at once. -/
theorem scheduled_current (hi : Inv strict s) (hs : step s e = some s') {t : Nat} {aux : Aux}
    (he : e = .start t aux) (ht : (s.obj t).task = .scheduled false) :
    s.tasks (s.obj t).data.jobId = some t := by
  have hlt := task_lt hi hs (t := t) (by rw [he]; rfl)
  have hok := hi.tasks t hlt
  simp only [TaskOk, ht] at hok
  exact hi.books.unfinished t hlt hok.2.2.2

theorem startFinish_current (hi : Inv strict s) (hs : step s e = some s') {t : Nat} {aux : Aux}
    {s₁ : Executor} (he : e = .start t aux) (ht : (s.obj t).task = .scheduled false)
    (h₁ : SameBooks (s.markStarted t) s₁) :
    Books s₁ ∧ s₁.tasks (s₁.obj t).data.jobId = some t := by
  refine ⟨(markStarted_books (t := t) hi.books).congr h₁, ?_⟩
  rw [h₁.tasks, h₁.data, markStarted_data]
  exact scheduled_current hi hs he ht

theorem Away.lineStep {s₁ s₂ : Executor} (ha : Away s₁ s₂ j) (h₁ : SameBooks s s₁)
    (h₂ : SameBooks s₂ s') : LineStep s e s' j :=
  .same (by rw [h₂.line, ha.line, h₁.line])

theorem newTrigger_same {s₁ : Executor} (h : SameBooks s s₁) (d : RunData) :
    newTrigger s₁ d = newTrigger s d := by simp only [newTrigger, h.accepted]

theorem idle_same {s₁ : Executor} (h : SameBooks s s₁) (j : JobId) : s₁.idle j = s.idle j := by
  simp only [idle, h.tasks, h.queue, h.cover]

theorem Finishes.lineStep {s₁ s₂ : Executor} {t : Nat} (hf : Finishes s₁ t s₂) (hb : Books s₁)
    (ht : s₁.tasks (s₁.obj t).data.jobId = some t) (he : e.task = some t)
    (hl : ∀ k, s₁.line k = s.line k) (hp : ∀ k, s₁.pending k = s.pending k)
    (htasks : s₁.tasks = s.tasks) (h₂ : SameBooks s₂ s') : LineStep s e s' j := by
  by_cases hj : j = (s₁.obj t).data.jobId
  · subst hj
    exact .finish t (by rw [← htasks]; exact ht) he (by rw [h₂.line, hf.line.1, hp])
  · exact .same (by rw [h₂.line, (hf.away hb hj).line, hl])

theorem Delta.lineStep (hd : Delta s e s') (hi : Inv strict s) (hi' : Inv strict s')
    (hs : step s e = some s') (j : JobId) : LineStep s e s' j := by
  cases hd with
  | same h => exact .same (h.line j)
  | run n d s₁ hc hl hidle h₁ h₂ =>
    have hb := hi.books.congr h₁
    by_cases hj : j = d.jobId
    · subst hj
      rw [← idle_same h₁] at hidle
      have hline : s₁.line d.jobId = [] := by
        simp only [idle, Bool.and_eq_true, Option.isNone_iff_eq_none, List.isEmpty_iff] at hidle
        simp [line, current, pending, hidle.1.1, hidle.1.2, hidle.2]
      refine .arrive n d hc rfl hl ?_
      rw [h₂.line, line, (startIdle_line hidle).1, (startIdle_line hidle).2, ← h₁.line, hline,
        newTrigger_same h₁]
      rfl
    · exact (startIdle_away hb hj).lineStep h₁ h₂
  | queue n d s₁ hc hl hidle h₁ h₂ =>
    have hq := enqueueSerial_joins s₁ d
    by_cases hj : j = d.jobId
    · subst hj
      exact .arrive n d hc rfl hl (by rw [h₂.line, hq.line, h₁.line, newTrigger_same h₁])
    · exact (hq.away hj).lineStep h₁ h₂
  | cover n d s₁ hc hd hidle h₁ h₂ =>
    rw [← idle_same h₁] at hidle
    obtain ⟨t, ht⟩ := (hi.books.congr h₁).busy hidle
    have hfill := fillCover_joins (takePending_pending s₁ d.jobId)
    have hcov := coverEarly_sameBooks ht
    by_cases hj : j = d.jobId
    · subst hj
      refine .cover n d hc rfl hd.1 ?_
      rw [h₂.line, hcov.line, hfill.line, line, takePending_current, takePending_pending,
        List.append_nil, h₁.current]
      congr 2
      rw [← newTrigger_same h₁]
      simp only [newTrigger, takePending_fst]
    · refine .same ?_
      rw [h₂.line, hcov.line, (hfill.away hj).line, (takePending_away s₁ _ hj).line, h₁.line]
  | drop k s₁ hk h₁ h₂ =>
    by_cases hj : j = k
    · subst hj
      refine .drop hk ?_
      rw [h₂.line, line, takePending_current, takePending_pending, List.append_nil, h₁.current]
    · exact (takePending_away s₁ k hj).lineStep h₁ h₂
  | start t aux he ht h => exact .same (by rw [h.line, markStarted_line])
  | startFinish t aux s₁ he ht hq h₁ h₂ =>
    obtain ⟨hb, hcur⟩ := startFinish_current hi hs he ht h₁
    exact (finish_finishes hb hcur).lineStep hb hcur (by rw [he]; rfl)
      (fun k => by rw [h₁.line, markStarted_line]) (fun k => by rw [h₁.pending]; rfl) h₁.tasks h₂
  | finish t s₁ he hn h₁ h₂ =>
    have hb := hi.books.congr h₁
    have hcur := finish_current hi hi' hs he h₁ h₂
    exact (finish_finishes hb hcur).lineStep hb hcur he h₁.line h₁.pending h₁.tasks h₂

/-- What one event does to the line of a job, whatever it does to others. -/
theorem step_line (hi : Inv strict s) (hi' : Inv strict s') (hs : step s e = some s') (j : JobId) :
    LineStep s e s' j := (step_delta hs).lineStep hi hi' hs j

/-- `_finish` runs at most once in an event, and then for the task of the event, the current one
of its job. -/
theorem step_finished (hi : Inv strict s) (hi' : Inv strict s') (hs : step s e = some s') :
    s'.finished = s.finished ∨ ∃ t, e.task = some t ∧ s'.finished = s.finished ++ [t] ∧
      s.tasks (s.obj t).data.jobId = some t := by
  cases step_delta hs with
  | same h => exact .inl h.finished
  | run n d s₁ _ _ _ h₁ h₂ => exact .inl (h₂.finished.trans h₁.finished)
  | queue n d s₁ _ _ _ h₁ h₂ => exact .inl (h₂.finished.trans h₁.finished)
  | cover n d s₁ hc hd hidle h₁ h₂ =>
    rw [← idle_same h₁] at hidle
    obtain ⟨t, ht⟩ := (hi.books.congr h₁).busy hidle
    have hfill := fillCover_joins (takePending_pending s₁ d.jobId)
    refine .inl ?_
    rw [h₂.finished, (coverEarly_sameBooks ht).finished, hfill.finished, takePending_fst]
    exact h₁.finished
  | drop j s₁ _ h₁ h₂ =>
    rw [h₂.finished, takePending_fst]
    exact .inl h₁.finished
  | start t aux he ht h => exact .inl h.finished
  | startFinish t aux s₁ he ht hq h₁ h₂ =>
    refine .inr ⟨t, by rw [he]; rfl, ?_, scheduled_current hi hs he ht⟩
    rw [h₂.finished, (finish_history s₁ t).1, h₁.finished]
    rfl
  | finish t s₁ he hn h₁ h₂ =>
    refine .inr ⟨t, he, ?_, ?_⟩
    · rw [h₂.finished, (finish_history s₁ t).1, h₁.finished]
    · have hcur := finish_current hi hi' hs he h₁ h₂
      rw [← h₁.tasks, ← h₁.data]
      exact hcur

end Executor
end Pyxxl
