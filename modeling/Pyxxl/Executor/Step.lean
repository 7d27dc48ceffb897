import Pyxxl.Executor.Phases

/-!
# Pyxxl.Executor.Step

Every event keeps the invariant: one lemma for each stretch of `_run`, `_cleanup_task`, `run_job`
and `cancel_job`, put together in `step_good`, and the induction over runs.
-/

namespace Pyxxl
namespace Executor

variable {strict : Nat → Prop} {s s' s'' : Executor} {t : Nat}

/-! ## The conditions on an event -/

/-- Nothing in the event keeps `_finish` from task `t`. -/
structure Careful (s : Executor) (e : Event) (t : Nat) : Prop where
  /-- No `cancel()` reaches it while it waits for the worker lock in the `enqueue` of an `except`
  branch, or for the job lock in `_cleanup_task`. -/
  gentle : e.target s = some t → (s.obj t).task.pastHandler = false
  /-- Its handler is registered and its logger is there when it starts. -/
  begins : ∀ aux, e = .start t aux →
    aux.getLogger = none ∧ s.handler (s.obj t).data.data.executorHandler = true
  /-- `failed_callback` does not raise in its cleanup task. -/
  cleans : ∀ aux, e = .resumeCleanup t aux → (s.obj t).started = false → aux.failed = none

/-! ## Tasks -/

/-- `t` is in its `try` statement. -/
structure Running (s : Executor) (t : Nat) : Prop where
  lt : t < s.nextTask
  started : (s.obj t).started = true
  cleaned : (s.obj t).cleaned = false
  cleanup : (s.obj t).cleanup = .idle
  unfinished : t ∉ s.finished

theorem Running.same (h : Running s t) (hb : SameBooks s s') (ho : s'.obj = s.obj) :
    Running s' t where
  lt := by rw [hb.nextTask]; exact h.lt
  started := by rw [ho]; exact h.started
  cleaned := by rw [ho]; exact h.cleaned
  cleanup := by rw [ho]; exact h.cleanup
  unfinished := by rw [hb.finished]; exact h.unfinished

/-- `_finish` under the job lock, then a last change of the task object. -/
theorem finishLocked_good (h : InvBut strict s t) (hnf : t ∉ s.finished) (f : XXLTask → XXLTask)
    (hd : ∀ o, (f o).data = o.data) (hs : ∀ o, (f o).started = o.started)
    (hok : TaskOk (strict t) (f (s.obj t)) True) :
    Good strict s ((s.finishLocked t).modTask t f) := by
  have ht := h.books.unfinished t h.lt hnf
  have hf := finish_finishes h.books ht
  have hsame : SameBooks (s.finish t) ((s.finishLocked t).modTask t f) :=
    (SameBooks.unlockJob _).trans (.modTask t f hd hs)
  have hobj : (s.finishLocked t).obj t = s.obj t := hf.obj_of_lt h.lt
  refine ⟨hf.inv h ht hsame (fun u hu => modTask_other hu) ?_,
    (hf.serves h.books).trans hsame.serves⟩
  rw [modTask_self, hobj]
  exact hok

theorem cleanupTask_good (h : Inv strict s) (hr : Running s t) (exc : Option Exc) :
    Good strict s (s.cleanupTask t exc) := by
  have hsame : SameBooks s ((s.markCleaned t).lockJob (s.obj t).data.jobId (.task t)) :=
    (SameBooks.markCleaned t).trans (.lockJob _ _)
  have hobj : ((s.markCleaned t).lockJob (s.obj t).data.jobId (.task t)).obj t =
      { s.obj t with cleaned := true } := by simp [markCleaned, lockJob, modTask]
  have hother : ∀ u, u ≠ t →
      ((s.markCleaned t).lockJob (s.obj t).data.jobId (.task t)).obj u = s.obj u := by
    intro u hu; simp [markCleaned, lockJob, modTask, hu]
  simp only [cleanupTask, hr.cleaned, Bool.false_eq_true, if_false]
  split
  · -- the job lock is free
    refine .of_serves hsame.serves (finishLocked_good ((h.but hr.lt).move hsame hother)
      hr.unfinished _ (fun _ => rfl) (fun _ => rfl) ?_)
    rw [hobj]; simp [TaskOk, hr.started]
  · refine h.good_task (hsame.trans (.setCoro t _))
      (fun u hu => (setCoro_other _ hu).trans (hother u hu)) hr.lt ?_
    simp only [setCoro, modTask_self, hobj, TaskOk, hr.started, hr.cleanup, true_and]
    exact hr.unfinished

/-- An `enqueue` in `_run` has returned. -/
theorem enqueue_good (h : Inv strict s) (hr : Running s t) {x : Trigger} {r : CallbackRequest}
    (he : s.enqueue (.task t) x r = (s', true)) : Good strict s s' ∧ Running s' t := by
  obtain ⟨hsame, hobj⟩ := enqueue_same he
  exact ⟨h.good_same hsame hobj, hr.same hsame hobj⟩

/-- An `enqueue` in `_run` waits for the worker lock. -/
theorem push_good (h : Inv strict s) (hr : Running s t) {x : Trigger} {r : CallbackRequest}
    (inTry : Bool) (r' : CallbackRequest) (he : s.enqueue (.task t) x r = (s', false)) :
    Good strict s (s'.setCoro t (.pushing inTry r')) := by
  obtain ⟨hsame, hobj⟩ := enqueue_same he
  refine h.good_task (hsame.trans (.setCoro t _))
    (fun u hu => (setCoro_other _ hu).trans (by rw [hobj])) hr.lt ?_
  simp only [setCoro, modTask_self, TaskOk, hobj]
  exact ⟨hr.started, hr.cleaned, hr.cleanup, hr.unfinished⟩

theorem exceptBranch_good (h : Inv strict s) (hr : Running s t) (ts : Int) (e : Exc) (aux : Aux) :
    Good strict s (s.exceptBranch t ts e aux) := by
  unfold exceptBranch
  split
  · exact cleanupTask_good h hr _
  · split
    · rename_i s' he
      obtain ⟨h', hr'⟩ := enqueue_good h hr he
      exact .of_serves h'.2 (cleanupTask_good h'.1 hr' _)
    · rename_i s' he
      exact push_good h hr false _ he

theorem afterSuccess_good (h : Inv strict s) (hr : Running s t) (ts : Int) (aux : Aux) :
    Good strict s (s.afterSuccess t ts aux) := by
  unfold afterSuccess
  split
  · exact exceptBranch_good h hr ts _ aux
  · exact cleanupTask_good h hr none

theorem handlerEnds_good (h : Inv strict s) (hr : Running s t) (ts : Int) (res : Except Exc PyVal)
    (aux : Aux) : Good strict s (s.handlerEnds t ts res aux) := by
  unfold handlerEnds
  split
  · exact exceptBranch_good h hr ts _ aux
  · exact exceptBranch_good h hr ts _ aux
  · split
    · rename_i s' he
      obtain ⟨h', hr'⟩ := enqueue_good h hr he
      exact .of_serves h'.2 (afterSuccess_good h'.1 hr' ts aux)
    · rename_i s' he
      exact push_good h hr true _ he

theorem running_of_inHandler (h : Inv strict s) (ht : t < s.nextTask) {ts : Int}
    (hc : (s.obj t).task = .inHandler ts) : Running s t := by
  have hok := h.tasks t ht
  simp only [TaskOk, hc] at hok
  exact ⟨ht, hok.1, hok.2.1, hok.2.2.1, hok.2.2.2⟩

theorem endTask_good (h : Inv strict s) (hr : Running s t) (e : Option Exc) (hns : ¬strict t) :
    Good strict s (s.endTask t e) := by
  refine h.good_task (.endTask t e) (fun u hu => modTask_other hu) hr.lt ?_
  simp only [endTask, modTask_self, TaskOk, hr.started, hr.cleaned]
  exact ⟨fun hf => (by cases hf), fun _ => hr.unfinished, fun hs _ => absurd hs hns⟩

/-- The task enters its `try` statement. -/
theorem enter_good (h : Inv strict s) (ht : t < s.nextTask) {b : Bool}
    (hc : (s.obj t).task = .scheduled b) (ts : Int) :
    Good strict s ((s.markStarted t).setCoro t (.inHandler ts)) := by
  have hok := h.tasks t ht
  simp only [TaskOk, hc] at hok
  obtain ⟨hst, hcl, hcu, hnf⟩ := hok
  have htask := h.books.unfinished t ht hnf
  have hother : ∀ u, u ≠ t → ((s.markStarted t).setCoro t (.inHandler ts)).obj u = s.obj u := by
    intro u hu; simp [markStarted, setCoro, modTask, hu]
  refine ⟨⟨(markStarted_books h.books).congr (.setCoro t _), ?_, ?_⟩,
    (markStarted_serves h.books htask hst).trans (SameBooks.setCoro t _).serves⟩
  · intro u hu
    by_cases he : u = t
    · subst he
      simpa [markStarted, setCoro, TaskOk, modTask, hcl, hcu] using hnf
    · rw [hother u he]; exact h.tasks u hu
  · intro u hu
    have hlt : s.nextTask ≤ u := hu
    rw [hother u (by omega)]
    exact h.fresh u hlt

theorem entered_running (h : Inv strict s) (ht : t < s.nextTask) {b : Bool}
    (hc : (s.obj t).task = .scheduled b) :
    Running ((s.markStarted t).setCoro t
      (.inHandler (s.callbackTimestamp (s.obj t).data.data))) t := by
  have hself : (((s.markStarted t).setCoro t
      (.inHandler (s.callbackTimestamp (s.obj t).data.data))).obj t).task =
      .inHandler (s.callbackTimestamp (s.obj t).data.data) := by simp [setCoro]
  exact running_of_inHandler (enter_good h ht hc _).1 ht hself

theorem startRun_good (h : Inv strict s) (ht : t < s.nextTask) {b : Bool}
    (hc : (s.obj t).task = .scheduled b) (aux : Aux)
    (hq : strict t →
      aux.getLogger = none ∧ s.handler (s.obj t).data.data.executorHandler = true) :
    Good strict s (s.startRun t aux) := by
  have h₁ := enter_good h ht hc (s.callbackTimestamp (s.obj t).data.data)
  have hr := entered_running h ht hc
  simp only [startRun]
  split
  · split
    · rename_i hl
      exact .of_serves h₁.2 (endTask_good h₁.1 hr _ fun hs => by rw [(hq hs).1] at hl; cases hl)
    · exact .of_serves h₁.2 (exceptBranch_good h₁.1 hr _ _ aux)
    · exact h₁
  · rename_i hh
    exact .of_serves h₁.2 (endTask_good h₁.1 hr _ fun hs => hh (hq hs).2)

theorem resumeTask_good (h : Inv strict s) (ht : t < s.nextTask) (aux : Aux)
    (hs : s.resumeTask t aux = some s') : Good strict s s' := by
  have hok := h.tasks t ht
  unfold resumeTask at hs
  split at hs
  · rename_i inTry r hc
    simp only [TaskOk, hc] at hok
    have hr : Running s t := ⟨ht, hok.1, hok.2.1, hok.2.2.1, hok.2.2.2⟩
    have hsame : SameBooks s (s.unlockWorker.put (s.obj t).data r) :=
      SameBooks.unlockWorker.trans (.put _ _)
    have h₁ := h.good_same hsame rfl
    have hr₁ := hr.same hsame rfl
    split at hs
    · cases inTry with
      | true => cases hs; exact .of_serves h₁.2 (afterSuccess_good h₁.1 hr₁ _ aux)
      | false => cases hs; exact .of_serves h₁.2 (cleanupTask_good h₁.1 hr₁ _)
    · cases hs
  · rename_i inTry ts hc
    simp only [TaskOk, hc] at hok
    obtain ⟨hok, -⟩ := hok
    have hr : Running s t := ⟨ht, hok.1, hok.2.1, hok.2.2.1, hok.2.2.2⟩
    cases inTry with
    | true => cases hs; exact exceptBranch_good h hr _ _ aux
    | false => cases hs; exact cleanupTask_good h hr _
  · rename_i exc hc
    simp only [TaskOk, hc] at hok
    split at hs
    · cases hs
      refine finishLocked_good (h.but ht) hok.2.2.2 _ (fun _ => rfl) (fun _ => rfl) ?_
      simp [TaskOk, hok.1, hok.2.1]
    · cases hs
  · rename_i hc
    simp only [TaskOk, hc] at hok
    obtain ⟨hok, hns⟩ := hok
    cases hs
    refine h.good_task (.endTask t _) (fun u hu => modTask_other hu) ht ?_
    simp [endTask, TaskOk, hok.1, hok.2.1, hns]
  · cases hs

/-! ## Cleanup tasks -/

/-- The cleanup task of `t` has set `cleaned`. -/
structure Cleaning (s : Executor) (t : Nat) : Prop where
  ended : (s.obj t).task = .done (some .cancelled)
  started : (s.obj t).started = false
  cleaned : (s.obj t).cleaned = true
  unfinished : t ∉ s.finished

theorem Cleaning.same (h : Cleaning s t) (hb : SameBooks s s') (ho : s'.obj t = s.obj t) :
    Cleaning s' t where
  ended := by rw [ho]; exact h.ended
  started := by rw [ho]; exact h.started
  cleaned := by rw [ho]; exact h.cleaned
  unfinished := by rw [hb.finished]; exact h.unfinished

theorem setCleanup_good (h : InvBut strict s t) (c : Cleanup)
    (hok : TaskOk (strict t) { s.obj t with cleanup := c } (t ∈ s.finished)) :
    Good strict s (s.setCleanup t c) := by
  have hsame : SameBooks s (s.setCleanup t c) := .setCleanup t c
  refine ⟨(h.move hsame (fun u hu => setCleanup_other c hu)).inv ?_, hsame.serves⟩
  rw [hsame.finished]
  simpa [setCleanup] using hok

theorem cleanupPushed_good (h : InvBut strict s t) (hc : Cleaning s t) (aux : Aux)
    (hq : strict t → aux.failed = none) : Good strict s (s.cleanupPushed t aux) := by
  have he := hc.ended
  unfold cleanupPushed
  split
  · rename_i e hf
    refine setCleanup_good h .ended ?_
    simp only [TaskOk, he]
    intro hs
    rw [hq hs] at hf
    cases hf
  · have hsame : SameBooks s (s.lockJob (s.obj t).data.jobId (.cleanup t)) := .lockJob _ _
    have h₁ := h.move hsame fun _ _ => rfl
    split
    · refine .of_serves hsame.serves (finishLocked_good h₁ hc.unfinished _ (fun _ => rfl)
        (fun _ => rfl) ?_)
      simp [lockJob, TaskOk, he]
    · refine .of_serves hsame.serves (setCleanup_good h₁ .locking ?_)
      simp only [lockJob, TaskOk, he]
      exact ⟨hc.started, hc.cleaned, hc.unfinished, trivial⟩

theorem Cleaning.pushing_ok (h : Cleaning s t) (r : CallbackRequest) :
    TaskOk (strict t) { s.obj t with cleanup := .pushing r } (t ∈ s.finished) := by
  simp only [TaskOk, h.ended]
  exact ⟨h.started, h.cleaned, h.unfinished, trivial⟩

theorem cleanupRun_good (h : Inv strict s) (ht : t < s.nextTask)
    (hc : (s.obj t).cleanup = .scheduled) (aux : Aux) (hq : strict t → aux.failed = none) :
    Good strict s (s.cleanupRun t aux) := by
  have hok := h.tasks t ht
  obtain ⟨exc, he⟩ := hok.ended (by rw [hc]; simp)
  simp only [TaskOk, he, hc] at hok
  obtain ⟨hst, hcl, hnf, rfl⟩ := hok
  have hmark : SameBooks s (s.markCleaned t) := .markCleaned t
  have hc₀ : Cleaning (s.markCleaned t) t := by
    refine ⟨?_, ?_, ?_, hnf⟩ <;> simp [markCleaned, he, hst]
  have h₀ := (h.but ht).move hmark fun u hu => modTask_other hu
  simp only [cleanupRun, hcl, Bool.false_eq_true, if_false]
  split
  · rename_i s' hs
    obtain ⟨hsame, hobj⟩ := enqueue_same hs
    exact .of_serves (hmark.trans hsame).serves (cleanupPushed_good
      (h₀.move hsame fun u _ => by rw [hobj]) (hc₀.same hsame (by rw [hobj])) aux hq)
  · rename_i s' hs
    obtain ⟨hsame, hobj⟩ := enqueue_same hs
    exact .of_serves (hmark.trans hsame).serves (setCleanup_good
      (h₀.move hsame fun u _ => by rw [hobj]) _ ((hc₀.same hsame (by rw [hobj])).pushing_ok _))

theorem resumeCleanup_good (h : Inv strict s) (ht : t < s.nextTask) (aux : Aux)
    (hq : strict t → (s.obj t).started = false → aux.failed = none)
    (hs : s.resumeCleanup t aux = some s') : Good strict s s' := by
  have hok := h.tasks t ht
  unfold resumeCleanup at hs
  split at hs
  · rename_i hc
    split at hs
    · rename_i exc he
      cases hs
      simp only [TaskOk, he, hc] at hok
      obtain ⟨hnot, hclean, hfin⟩ := hok
      unfold onExecutorTaskDone
      split
      · rename_i hcond
        refine setCleanup_good (h.but ht) _ ?_
        simp only [TaskOk, he]
        intro hstrict
        by_cases hst : (s.obj t).started = true
        · exact hfin hstrict hst
        · have := hnot (by simpa using hst)
          simp [this.1, this.2, hst] at hcond
      · rename_i hcond
        simp only [not_or, Bool.not_eq_true] at hcond
        refine setCleanup_good (h.but ht) _ ?_
        simp only [TaskOk, he]
        exact ⟨hcond.2.1, hcond.2.2, hclean hcond.2.2, by simpa using hcond.1⟩
    · cases hs
  · rename_i hc
    cases hs
    obtain ⟨exc, he⟩ := hok.ended (by rw [hc]; simp)
    simp only [TaskOk, he, hc] at hok
    exact cleanupRun_good h ht hc aux fun hst => hq hst hok.1
  · rename_i r hc
    obtain ⟨exc, he⟩ := hok.ended (by rw [hc]; simp)
    simp only [TaskOk, he, hc] at hok
    split at hs
    · cases hs
      have hsame : SameBooks s (s.unlockWorker.put (s.obj t).data r) :=
        SameBooks.unlockWorker.trans (.put _ _)
      refine .of_serves hsame.serves (cleanupPushed_good ((h.but ht).move hsame fun _ _ => rfl)
        ⟨by rw [← hok.2.2.2]; exact he, hok.1, hok.2.1, hok.2.2.1⟩ aux fun hst => hq hst hok.1)
    · cases hs
  · rename_i hc
    obtain ⟨exc, he⟩ := hok.ended (by rw [hc]; simp)
    simp only [TaskOk, he, hc] at hok
    split at hs
    · cases hs
      refine finishLocked_good (h.but ht) hok.2.2.1 _ (fun _ => rfl) (fun _ => rfl) ?_
      simp [TaskOk, he]
    · cases hs
  · cases hs
  · cases hs

/-! ## Calls -/

theorem pushFailed_good (h : Inv strict s) {p : Pid} {reason : PyStr} {xs : List Trigger}
    {rest : Option (Trigger × CallbackRequest × List Trigger)}
    (hs : pushFailedQueuedTasks p reason xs s = (s', rest)) : Good strict s s' := by
  have hsame := SameBooks.pushFailedQueuedTasks p reason xs s
  have hobj := pushFailedQueuedTasks_obj p reason xs s
  rw [hs] at hsame hobj
  exact h.good_same hsame hobj

theorem runReturn_same (s : Executor) (n : Nat) (j : JobId) (res : Except RunError Reply) :
    SameBooks s (s.runReturn n j res) := (SameBooks.unlockJob j).trans (.setCall n _)

theorem coverPush_good (h : Inv strict s) (n : Nat) (d : RunData) (reason : PyStr)
    (rest : List Trigger) : Good strict s (s.coverPush n d reason rest) := by
  unfold coverPush
  split
  · rename_i s' hs
    exact (pushFailed_good h hs).same (runReturn_same ..) rfl
  · rename_i s' _ _ _ hs
    exact (pushFailed_good h hs).same (.setCall n _) rfl

theorem cancelPush_good (h : Inv strict s) (n : Nat) (reason : PyStr) (t : Option Nat)
    (rest : List Trigger) : Good strict s (s.cancelPush n reason t rest) := by
  unfold cancelPush
  split
  · rename_i s' hs
    split
    · exact (pushFailed_good h hs).same (.setCall n _) rfl
    · exact (pushFailed_good h hs).same (.setCall n _) rfl
  · rename_i s' _ _ _ hs
    exact (pushFailed_good h hs).same (.setCall n _) rfl

theorem runJobLocked_good (h : Inv strict s) (n : Nat) (d : RunData)
    (hg : s.covers d → ∀ t, s.tasks d.jobId = some t → strict t →
      (s.obj t).task.pastHandler = false) :
    Good strict s (s.runJobLocked n d) := by
  have hret : ∀ res, Good strict s (s.runReturn n d.jobId res) := fun res =>
    h.good_same (runReturn_same ..) rfl
  unfold runJobLocked
  split
  · exact hret _
  · rename_i hl
    split
    · rename_i hi
      exact (startIdle_good h hi).same (runReturn_same ..) rfl
    · rename_i hi
      obtain ⟨t, ht⟩ := h.books.busy (by simpa using hi)
      split
      · exact hret _
      · split
        · rename_i hcov
          have hc := coverEarly_good h ht hl (hg ⟨hl, hcov⟩ t ht)
          exact .of_serves hc.2 (coverPush_good hc.1 n d _ _)
        · split
          · unfold handleSerialExecution
            split
            · exact hret _
            · exact (enqueueSerial_good h ht hl).same (runReturn_same ..) rfl
          · exact hret _

theorem cancelJobLocked_good (h : Inv strict s) (n : Nat) (j : JobId) (includeQueue : Bool)
    (reason : PyStr)
    (hg : ∀ t, s.tasks j = some t → strict t → (s.obj t).task.pastHandler = false) :
    Good strict s (s.cancelJobLocked n j includeQueue reason) := by
  have h₁ := cancelLocked_good h j includeQueue reason hg
  have h₂ : Good strict s ((s.cancelLocked j includeQueue reason).1.unlockJob j) :=
    h₁.same (.unlockJob j) rfl
  exact .of_serves h₂.2 (cancelPush_good h₂.1 n reason _ _)

theorem runJob_good (h : Inv strict s) (d : RunData)
    (hg : ∀ t, strict t → Careful s (.runJob d) t) :
    Good strict s (s.runJob d) := by
  have hcall : SameBooks s s.openCall := .openCall
  have hlock := hcall.trans (SameBooks.lockJob d.jobId (.call s.nextCall))
  simp only [runJob]
  split
  · rename_i hh
    split
    · rename_i hfree
      have h₁ := h.good_same hlock rfl
      refine .of_serves h₁.2 (runJobLocked_good h₁.1 s.nextCall d fun hc t ht hs => ?_)
      refine (hg t hs).gentle ?_
      have hc' : s.covers d := hc
      simp only [Event.target, Event.checks, hh, hfree, and_self, if_true, hc']
      exact ht
    · exact h.good_same (hlock.trans (.setCall _ _)) rfl
  · exact h.good_same (hcall.trans (.setCall _ _)) rfl

theorem cancelJob_good (h : Inv strict s) (j : JobId) (includeQueue : Bool) (reason : PyStr)
    (hg : ∀ t, strict t → Careful s (.cancelJob j includeQueue reason) t) :
    Good strict s (s.cancelJob j includeQueue reason) := by
  have hcall : SameBooks s s.openCall := .openCall
  have hlock := hcall.trans (SameBooks.lockJob j (.call s.nextCall))
  simp only [cancelJob]
  split
  · rename_i hfree
    have h₁ := h.good_same hlock rfl
    refine .of_serves h₁.2 (cancelJobLocked_good h₁.1 s.nextCall j includeQueue reason
      fun t ht hs => (hg t hs).gentle ?_)
    simp only [Event.target, Event.checks, Event.kills, hfree, if_true]
    exact ht
  · exact h.good_same (hlock.trans (.setCall _ _)) rfl

theorem resumeCall_good (h : Inv strict s) (n : Nat)
    (hg : ∀ t, strict t → Careful s (.resumeCall n) t) (hs : s.resumeCall n = some s') :
    Good strict s s' := by
  unfold resumeCall at hs
  split at hs
  · rename_i d hc
    split at hs
    · cases hs
      refine runJobLocked_good h n d fun hcov t ht hst => (hg t hst).gentle ?_
      simp only [Event.target, Event.checks, hc, hcov, if_true]
      exact ht
    · cases hs
  · rename_i d x r rest reason hc
    split at hs
    · cases hs
      have h₁ : Good strict s (s.unlockWorker.put x r) :=
        h.good_same (SameBooks.unlockWorker.trans (.put x r)) rfl
      exact .of_serves h₁.2 (coverPush_good h₁.1 n d reason rest)
    · cases hs
  · rename_i j includeQueue reason hc
    split at hs
    · cases hs
      refine cancelJobLocked_good h n j includeQueue reason fun t ht hst => (hg t hst).gentle ?_
      simp only [Event.target, Event.checks, Event.kills, hc]
      exact ht
    · cases hs
  · rename_i x r rest reason t hc
    split at hs
    · cases hs
      have h₁ : Good strict s (s.unlockWorker.put x r) :=
        h.good_same (SameBooks.unlockWorker.trans (.put x r)) rfl
      exact .of_serves h₁.2 (cancelPush_good h₁.1 n reason t rest)
    · cases hs
  · split at hs
    · cases hs; exact h.good_same (.setCall n _) rfl
    · cases hs; exact h.good_same (.setCall n _) rfl
    · cases hs
  · cases hs
  · cases hs
  · cases hs

/-! ## Every step -/

theorem step_good (h : Inv strict s) {e : Event} (hc : ∀ t, strict t → Careful s e t)
    (hs : step s e = some s') : Good strict s s' := by
  have hlt : ∀ t, s.obj t ≠ noTask → t < s.nextTask := fun t => h.lt_of_obj
  cases e with
  | runJob d => cases hs; exact runJob_good h d hc
  | cancelJob j includeQueue reason =>
    cases hs
    exact cancelJob_good h j includeQueue reason hc
  | resumeCall n =>
    simp only [step] at hs
    split at hs
    · exact resumeCall_good h n hc hs
    · cases hs
  | start t aux =>
    simp only [step] at hs
    split at hs
    · rename_i ht
      cases hs
      refine startRun_good h (hlt t fun ho => ?_) ht aux fun hst =>
        (hc t hst).begins aux rfl
      rw [ho] at ht
      cases ht
    · cases hs
  | abort t =>
    simp only [step] at hs
    split at hs
    · rename_i ht
      cases hs
      have hlt' := hlt t fun ho => by rw [ho] at ht; cases ht
      have hok := h.tasks t hlt'
      simp only [TaskOk, ht] at hok
      refine h.good_task (.endTask t _) (fun u hu => modTask_other hu) hlt' ?_
      simp [endTask, TaskOk, hok.1, hok.2.1, hok.2.2.2]
    · cases hs
  | handlerEnds t res aux =>
    simp only [step] at hs
    split at hs
    · rename_i ts ht
      cases hs
      have hlt' := hlt t fun ho => by rw [ho] at ht; cases ht
      exact handlerEnds_good h (running_of_inHandler h hlt' ht) ts res aux
    · cases hs
  | resumeTask t aux =>
    refine resumeTask_good h (hlt t fun ho => ?_) aux hs
    simp [step, resumeTask, ho, noTask] at hs
  | resumeCleanup t aux =>
    refine resumeCleanup_good h (hlt t fun ho => ?_) aux
      (fun hst => (hc t hst).cleans aux rfl) hs
    simp [step, resumeCleanup, ho, noTask] at hs
  | setHandler handler =>
    cases hs
    exact h.good_same ⟨rfl, rfl, rfl, rfl, rfl, rfl, rfl, rfl, fun _ => rfl, fun _ => rfl⟩ rfl
  | stopCalled close =>
    cases hs
    exact h.good_same ⟨rfl, rfl, rfl, rfl, rfl, rfl, rfl, rfl, fun _ => rfl, fun _ => rfl⟩ rfl
  | stopLock n => cases hs; exact h.good_same (.lockWorker _) rfl
  | stopUnlock n =>
    simp only [step] at hs
    split at hs
    · cases hs; exact h.good_same .unlockWorker rfl
    · cases hs
  | tick now =>
    cases hs
    exact h.good_same ⟨rfl, rfl, rfl, rfl, rfl, rfl, rfl, rfl, fun _ => rfl, fun _ => rfl⟩ rfl

end Executor
end Pyxxl
