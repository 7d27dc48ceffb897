import Pyxxl.Executor.Delta

/-!
# Pyxxl.Executor.Free

While `CallbackManager.stop` is not called, no coroutine of the executor ever waits for a lock:
`enqueue` returns at once, so whoever takes a job lock gives it back before it suspends. The only
awaits left are those of handlers and of the calls that wait for a task to end.

`Free locks s` also says that every accepted trigger has a registered handler, as long as none is
taken away.
-/

namespace Pyxxl
namespace Executor

open Transition

def Coro.parked : Coro → Bool
  | .pushing _ _ => true
  | .thrownPushing _ _ => true
  | .locking _ => true
  | .thrownLocking => true
  | _ => false

def Cleanup.parked : Cleanup → Bool
  | .pushing _ => true
  | .locking => true
  | _ => false

def Call.parked : Call → Bool
  | .runLock _ => true
  | .coverPush _ _ _ _ _ => true
  | .cancelLock _ _ _ => true
  | .cancelPush _ _ _ _ _ => true
  | _ => false

structure Free (locks : JobId → List Pid) (s : Executor) : Prop where
  worker : s.workerLock = []
  opened : s.closed = false
  undropped : s.dropped = []
  locks : s.jobLocks = locks
  coro : ∀ t, (s.obj t).task.parked = false
  cleanup : ∀ t, (s.obj t).cleanup.parked = false
  call : ∀ n, (s.call n).parked = false
  registered : ∀ x ∈ s.accepted, s.handler x.data.executorHandler = true

variable {locks : JobId → List Pid} {s s' : Executor} {t n : Nat}

theorem free_init (handler : String → Bool) (m : Int) : Free (fun _ => []) (init handler m) where
  worker := rfl
  opened := rfl
  undropped := rfl
  locks := rfl
  coro _ := rfl
  cleanup _ := rfl
  call _ := rfl
  registered x hx := by cases hx

theorem Free.unpast (h : Free locks s) (t : Nat) : (s.obj t).task.pastHandler = false := by
  have := h.coro t
  cases hc : (s.obj t).task <;> simp_all [Coro.parked, Coro.pastHandler]

/-! ## The operations -/

theorem Free.modTask (h : Free locks s) (t : Nat) (f : XXLTask → XXLTask)
    (hc : (f (s.obj t)).task.parked = false) (hk : (f (s.obj t)).cleanup.parked = false) :
    Free locks (s.modTask t f) where
  worker := h.worker
  opened := h.opened
  undropped := h.undropped
  locks := h.locks
  coro u := by
    by_cases he : u = t
    · subst he; rw [modTask_self]; exact hc
    · rw [modTask_other he]; exact h.coro u
  cleanup u := by
    by_cases he : u = t
    · subst he; rw [modTask_self]; exact hk
    · rw [modTask_other he]; exact h.cleanup u
  call := h.call
  registered := h.registered

theorem Free.setCoro (h : Free locks s) (t : Nat) {c : Coro} (hc : c.parked = false) :
    Free locks (s.setCoro t c) := h.modTask t _ hc (h.cleanup t)

theorem Free.setCleanup (h : Free locks s) (t : Nat) {c : Cleanup} (hc : c.parked = false) :
    Free locks (s.setCleanup t c) := h.modTask t _ (h.coro t) hc

theorem Free.endTask (h : Free locks s) (t : Nat) (e : Option Exc) : Free locks (s.endTask t e) :=
  h.modTask t _ rfl rfl

theorem Free.markCleaned (h : Free locks s) (t : Nat) : Free locks (s.markCleaned t) :=
  h.modTask t _ (h.coro t) (h.cleanup t)

theorem Free.setCall (h : Free locks s) (n : Nat) {c : Call} (hc : c.parked = false) :
    Free locks (s.setCall n c) where
  worker := h.worker
  opened := h.opened
  undropped := h.undropped
  locks := h.locks
  coro := h.coro
  cleanup := h.cleanup
  call m := by
    by_cases he : m = n
    · subst he; simpa [Executor.setCall] using hc
    · simpa [Executor.setCall, he] using h.call m
  registered := h.registered

theorem Free.openCall (h : Free locks s) : Free locks s.openCall :=
  let h' := h.setCall s.nextCall (c := .begun) rfl
  ⟨h'.worker, h'.opened, h'.undropped, h'.locks, h'.coro, h'.cleanup, h'.call, h'.registered⟩

theorem Free.lockJob (h : Free locks s) (j : JobId) (p : Pid) :
    Free (Function.update locks j (locks j ++ [p])) (s.lockJob j p) :=
  ⟨h.worker, h.opened, h.undropped, by simp [Executor.lockJob, h.locks], h.coro, h.cleanup, h.call,
    h.registered⟩

/-- The job lock is given back, and all locks are free again. -/
theorem Free.unlockJob {j : JobId} {p : Pid}
    (h : Free (Function.update (fun _ => []) j ([] ++ [p])) s) :
    Free (fun _ => []) (s.unlockJob j) := by
  refine ⟨h.worker, h.opened, h.undropped, ?_, h.coro, h.cleanup, h.call, h.registered⟩
  funext k
  by_cases hk : k = j
  · subst hk; simp [Executor.unlockJob, h.locks]
  · simp [Executor.unlockJob, h.locks]

theorem Free.put (h : Free locks s) (x : Trigger) (r : CallbackRequest) :
    Free locks (s.put x r) :=
  ⟨h.worker, h.opened, h.undropped, h.locks, h.coro, h.cleanup, h.call, h.registered⟩

theorem Free.enqueue (h : Free locks s) (p : Pid) (x : Trigger) (r : CallbackRequest) :
    s.enqueue p x r = (s.put x r, true) := by
  simp [Executor.enqueue, h.opened, h.worker]

theorem Free.pushFailed (h : Free locks s) (p : Pid) (reason : PyStr) (xs : List Trigger) :
    ∃ s', pushFailedQueuedTasks p reason xs s = (s', none) ∧ Free locks s' := by
  induction xs generalizing s with
  | nil => exact ⟨s, rfl, h⟩
  | cons x xs ih =>
    obtain ⟨s', hs, hf⟩ := ih (h.put x (s.failedRequest reason x))
    exact ⟨s', by simp only [pushFailedQueuedTasks, h.enqueue, hs], hf⟩

theorem Free.cancel (h : Free locks s) (t : Nat) : Free locks (s.cancel t) := by
  have hc := h.coro t
  unfold Executor.cancel
  split
  · exact h.setCoro t rfl
  · rename_i hp; rw [hp] at hc; cases hc
  · rename_i hp; rw [hp] at hc; cases hc
  · exact h

theorem Free.kill (h : Free locks s) (t : Nat) (reason : PyStr) :
    Free locks ((s.setCancelReason t reason).cancel t) :=
  Free.cancel (h.modTask t _ (h.coro t) (h.cleanup t)) t

theorem Free.createTask (h : Free locks s) (x : Trigger) : Free locks (s.createTask x) where
  worker := h.worker
  opened := h.opened
  undropped := h.undropped
  locks := h.locks
  coro u := by
    by_cases he : u = s.nextTask
    · subst he; simp [Executor.createTask, Coro.parked]
    · simpa [Executor.createTask, he] using h.coro u
  cleanup u := by
    by_cases he : u = s.nextTask
    · subst he; simp [Executor.createTask, Cleanup.parked]
    · simpa [Executor.createTask, he] using h.cleanup u
  call := h.call
  registered := h.registered

theorem Free.finish (h : Free locks s) (t : Nat) : Free locks (s.finish t) := by
  have hbook : ∀ s₁ : Executor, s₁.workerLock = s.workerLock → s₁.closed = s.closed →
      s₁.jobLocks = s.jobLocks → s₁.obj = s.obj → s₁.call = s.call → s₁.handler = s.handler →
      s₁.accepted = s.accepted → s₁.dropped = s.dropped → Free locks s₁ := by
    intro s₁ h1 h2 h3 h4 h5 h6 h7 h8
    exact ⟨h1.trans h.worker, h2.trans h.opened, h8.trans h.undropped, h3.trans h.locks,
      by rw [h4]; exact h.coro,
      by rw [h4]; exact h.cleanup, by rw [h5]; exact h.call, by rw [h6, h7]; exact h.registered⟩
  simp only [Executor.finish]
  split
  · simp only [popCoverReplacement, releaseLogId]
    split
    · rename_i s₂ r hs
      simp only [Prod.mk.injEq] at hs
      obtain ⟨rfl, -⟩ := hs
      refine Free.createTask ?_ r
      exact hbook _ rfl rfl rfl rfl rfl rfl rfl rfl
    · rename_i s₂ hs
      simp only [Prod.mk.injEq] at hs
      obtain ⟨rfl, -⟩ := hs
      split
      · exact hbook _ rfl rfl rfl rfl rfl rfl rfl rfl
      · refine Free.createTask ?_ _
        exact hbook _ rfl rfl rfl rfl rfl rfl rfl rfl
  · exact hbook _ rfl rfl rfl rfl rfl rfl rfl rfl

theorem Free.accept (h : Free locks s) {d : RunData}
    (hd : s.handler d.executorHandler = true) : Free locks (s.accept d).1 :=
  ⟨h.worker, h.opened, h.undropped, h.locks, h.coro, h.cleanup, h.call, by
    intro x hx
    simp only [Executor.accept, List.mem_append, List.mem_singleton] at hx
    rcases hx with hx | rfl
    · exact h.registered x hx
    · exact hd⟩

theorem Free.startIdle (h : Free locks s) {d : RunData}
    (hd : s.handler d.executorHandler = true) : Free locks (s.startIdle d) := by
  have h' := h.accept hd
  refine Free.createTask ?_ _
  exact ⟨h'.worker, h'.opened, h'.undropped, h'.locks, h'.coro, h'.cleanup, h'.call, h'.registered⟩

theorem Free.enqueueSerial (h : Free locks s) {d : RunData}
    (hd : s.handler d.executorHandler = true) : Free locks (s.enqueueSerial d) :=
  let h' := h.accept hd
  ⟨h'.worker, h'.opened, h'.undropped, h'.locks, h'.coro, h'.cleanup, h'.call, h'.registered⟩

theorem Free.takePending (h : Free locks s) (j : JobId) : Free locks (s.takePending j).1 := by
  rw [takePending_fst]
  exact ⟨h.worker, h.opened, h.undropped, h.locks, h.coro, h.cleanup, h.call, h.registered⟩

theorem Free.coverEarly (h : Free locks s) {d : RunData}
    (hd : s.handler d.executorHandler = true) (ht : s.tasks d.jobId = some t) :
    Free locks (s.coverEarly d).1 := by
  have h₁ := h.takePending d.jobId
  have hd₁ : (s.takePending d.jobId).1.handler d.executorHandler = true := by
    rw [takePending_fst]; exact hd
  have h₂ := h₁.accept hd₁
  rw [coverEarly_fst ht]
  refine Free.kill ?_ t _
  exact ⟨h₂.worker, h₂.opened, h₂.undropped, h₂.locks, h₂.coro, h₂.cleanup, h₂.call, h₂.registered⟩

/-! ## Tasks -/

theorem Free.finishLocked {p : Pid}
    (h : Free (Function.update (fun _ => []) (s.obj t).data.jobId ([] ++ [p])) s) :
    Free (fun _ => []) (s.finishLocked t) := (h.finish t).unlockJob

theorem Free.cleanupTask (h : Free (fun _ => []) s) (t : Nat) (exc : Option Exc) :
    Free (fun _ => []) (s.cleanupTask t exc) := by
  unfold Executor.cleanupTask
  split
  · exact h.endTask t exc
  · have h₁ := (h.markCleaned t).lockJob (s.obj t).data.jobId (.task t)
    have hobj : ((s.markCleaned t).lockJob (s.obj t).data.jobId (.task t)).obj t =
        { s.obj t with cleaned := true } := by simp [Executor.markCleaned, Executor.lockJob,
          Executor.modTask]
    rw [if_pos (by rw [h.locks])]
    refine (Free.finishLocked (p := .task t) ?_).endTask t exc
    rw [hobj]
    exact h₁

theorem Free.exceptBranch (h : Free (fun _ => []) s) (t : Nat) (ts : Int) (e : Exc) (aux : Aux) :
    Free (fun _ => []) (s.exceptBranch t ts e aux) := by
  unfold Executor.exceptBranch
  split
  · exact h.cleanupTask t _
  · simp only [h.enqueue]
    exact (h.put _ _).cleanupTask t _

theorem Free.afterSuccess (h : Free (fun _ => []) s) (t : Nat) (ts : Int) (aux : Aux) :
    Free (fun _ => []) (s.afterSuccess t ts aux) := by
  unfold Executor.afterSuccess
  split
  · exact h.exceptBranch t ts _ aux
  · exact h.cleanupTask t none

theorem Free.handlerEnds (h : Free (fun _ => []) s) (t : Nat) (ts : Int) (res : Except Exc PyVal)
    (aux : Aux) : Free (fun _ => []) (s.handlerEnds t ts res aux) := by
  unfold Executor.handlerEnds
  split
  · exact h.exceptBranch t ts _ aux
  · exact h.exceptBranch t ts _ aux
  · simp only [h.enqueue]
    exact (h.put _ _).afterSuccess t ts aux

theorem Free.startRun (h : Free (fun _ => []) s) (t : Nat) (aux : Aux) :
    Free (fun _ => []) (s.startRun t aux) := by
  have h₁ : Free (fun _ => []) (s.markStarted t) := by
    have := h.modTask t (fun o => { o with started := true }) (h.coro t) (h.cleanup t)
    exact ⟨this.worker, this.opened, this.undropped, this.locks, this.coro, this.cleanup, this.call,
      this.registered⟩
  have h₂ := h₁.setCoro t (c := .inHandler (s.callbackTimestamp (s.obj t).data.data)) rfl
  simp only [Executor.startRun]
  split
  · split
    · exact h₂.endTask t _
    · exact h₂.exceptBranch t _ _ aux
    · exact h₂
  · exact h₂.endTask t _

theorem Free.cleanupPushed (h : Free (fun _ => []) s) (t : Nat) (aux : Aux) :
    Free (fun _ => []) (s.cleanupPushed t aux) := by
  unfold Executor.cleanupPushed
  split
  · exact h.setCleanup t rfl
  · rw [if_pos (by rw [h.locks])]
    exact (Free.finishLocked (h.lockJob _ (.cleanup t))).setCleanup t rfl

theorem Free.resumeCleanup (h : Free (fun _ => []) s) {aux : Aux}
    (hs : s.resumeCleanup t aux = some s') : Free (fun _ => []) s' := by
  have hc := h.cleanup t
  unfold Executor.resumeCleanup at hs
  split at hs
  · split at hs
    · cases hs
      unfold onExecutorTaskDone
      split
      · exact h.setCleanup t rfl
      · exact h.setCleanup t rfl
    · cases hs
  · cases hs
    simp only [cleanupRun]
    split
    · exact h.setCleanup t rfl
    · simp only [(h.markCleaned t).enqueue]
      exact ((h.markCleaned t).put _ _).cleanupPushed t aux
  · rename_i hk; rw [hk] at hc; cases hc
  · rename_i hk; rw [hk] at hc; cases hc
  · cases hs
  · cases hs

theorem Free.resumeTask (h : Free (fun _ => []) s) (t : Nat) (aux : Aux) :
    s.resumeTask t aux = none := by
  have hc := h.coro t
  unfold Executor.resumeTask
  split
  · rename_i hk; rw [hk] at hc; cases hc
  · rename_i hk; rw [hk] at hc; cases hc
  · rename_i hk; rw [hk] at hc; cases hc
  · rename_i hk; rw [hk] at hc; cases hc
  · rfl

/-! ## Calls -/

theorem Free.runReturn {j : JobId} {p : Pid}
    (h : Free (Function.update (fun _ => []) j ([] ++ [p])) s) (n : Nat)
    (res : Except RunError Reply) : Free (fun _ => []) (s.runReturn n j res) :=
  h.unlockJob.setCall n rfl

theorem Free.runJobLocked (hb : Books s) {d : RunData} {p : Pid}
    (h : Free (Function.update (fun _ => []) d.jobId ([] ++ [p])) s)
    (hd : s.handler d.executorHandler = true) (n : Nat) :
    Free (fun _ => []) (s.runJobLocked n d) := by
  unfold Executor.runJobLocked
  split
  · exact h.runReturn n _
  · split
    · exact (h.startIdle hd).runReturn n _
    · rename_i hi
      obtain ⟨t, ht⟩ := hb.busy (by simpa using hi)
      split
      · exact h.runReturn n _
      · split
        · obtain ⟨s', hs, hf⟩ := (h.coverEarly hd ht).pushFailed (.call n) coverReason
            (s.coverEarly d).2
          simp only [handleCoverEarly, coverPush, hs]
          exact hf.runReturn n _
        · split
          · unfold handleSerialExecution
            split
            · exact h.runReturn n _
            · exact (h.enqueueSerial hd).runReturn n _
          · exact h.runReturn n _

theorem Free.runJob (hb : Books s) (h : Free (fun _ => []) s) (d : RunData) :
    Free (fun _ => []) (s.runJob d) := by
  simp only [Executor.runJob]
  split
  · rename_i hd
    rw [if_pos (by rw [h.locks])]
    exact Free.runJobLocked (hb.congr (SameBooks.openCall.trans (.lockJob _ _)))
      (h.openCall.lockJob d.jobId (.call s.nextCall)) hd s.nextCall
  · exact h.openCall.setCall _ rfl

theorem Free.cancelJob (h : Free (fun _ => []) s) (j : JobId) (includeQueue : Bool)
    (reason : PyStr) : Free (fun _ => []) (s.cancelJob j includeQueue reason) := by
  have h₁ := h.openCall.lockJob j (.call s.nextCall)
  have hkill : ∀ s₁ : Executor,
      Free (Function.update (fun _ => []) j ([] ++ [.call s.nextCall])) s₁ →
      Free (Function.update (fun _ => []) j ([] ++ [.call s.nextCall]))
        (s₁.killCurrent j reason) := by
    intro s₁ h₁
    unfold killCurrent
    split
    · exact h₁.kill _ reason
    · exact h₁
  have hrest : ∀ s₁ : Executor, ∀ o xs,
      Free (Function.update (fun _ => []) j ([] ++ [.call s.nextCall])) s₁ →
      Free (fun _ => []) ((s₁.unlockJob j).cancelPush s.nextCall reason o xs) := by
    intro s₁ o xs h₁
    obtain ⟨s', hs, hf⟩ := h₁.unlockJob.pushFailed (.call s.nextCall) reason xs
    simp only [cancelPush, hs]
    split
    · exact hf.setCall _ rfl
    · exact hf.setCall _ rfl
  simp only [Executor.cancelJob]
  rw [if_pos (by rw [h.locks])]
  unfold cancelJobLocked cancelLocked
  cases includeQueue with
  | false => exact hrest _ _ _ (hkill _ h₁)
  | true => exact hrest _ _ _ (hkill _ (h₁.takePending j))

theorem Free.resumeCall (h : Free (fun _ => []) s) (hs : s.resumeCall n = some s') :
    Free (fun _ => []) s' := by
  have hc := h.call n
  unfold Executor.resumeCall at hs
  split at hs
  · rename_i hk; rw [hk] at hc; cases hc
  · rename_i hk; rw [hk] at hc; cases hc
  · rename_i hk; rw [hk] at hc; cases hc
  · rename_i hk; rw [hk] at hc; cases hc
  · split at hs
    · cases hs; exact h.setCall n rfl
    · cases hs; exact h.setCall n rfl
    · cases hs
  · cases hs
  · cases hs
  · cases hs

/-- No step that keeps the handlers and is no part of a stop makes anyone wait for a lock. -/
theorem Free.step (hb : Books s) (h : Free (fun _ => []) s) {e : Event} (hn : e.noStop)
    (hk : e.keepsHandlers s) (hs : s.step e = some s') : Free (fun _ => []) s' := by
  cases e with
  | runJob d => cases hs; exact h.runJob hb d
  | cancelJob j includeQueue reason => cases hs; exact h.cancelJob j includeQueue reason
  | resumeCall n =>
    simp only [Executor.step] at hs
    split at hs
    · exact h.resumeCall hs
    · cases hs
  | start t aux =>
    simp only [Executor.step] at hs
    split at hs
    · cases hs; exact h.startRun t aux
    · cases hs
  | abort t =>
    simp only [Executor.step] at hs
    split at hs
    · cases hs; exact h.endTask t _
    · cases hs
  | handlerEnds t res aux =>
    simp only [Executor.step] at hs
    split at hs
    · cases hs; exact h.handlerEnds t _ res aux
    · cases hs
  | resumeTask t aux => simp only [Executor.step, h.resumeTask] at hs; cases hs
  | resumeCleanup t aux => exact h.resumeCleanup hs
  | setHandler handler =>
    cases hs
    exact ⟨h.worker, h.opened, h.undropped, h.locks, h.coro, h.cleanup, h.call,
      fun x hx => hk _ (h.registered x hx)⟩
  | stopCalled close => cases hn
  | stopLock n => cases hn
  | stopUnlock n => cases hn
  | tick now =>
    cases hs
    exact ⟨h.worker, h.opened, h.undropped, h.locks, h.coro, h.cleanup, h.call, h.registered⟩

end Executor
end Pyxxl
