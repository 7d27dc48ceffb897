import Pyxxl.Executor.Order

/-!
# Pyxxl.Executor.Observers

What `succeeded_callback` and `failed_callback` can change, by comparing a run with the run in
which they do nothing.

* `erase`: the state without the exceptions in flight, all that a raising observer leaves behind
  as long as it does not meddle (`Meddles`).
* `step_erase`: up to `erase`, an event does what it does when no observer raises.
* `observers_unseen`: so two runs that differ in their observers look the same.
-/

namespace Pyxxl
namespace Executor

open Transition

variable {s s' : Executor} {e : Event} {t n : Nat}

/-- Whatever exception is in flight, or has ended the coroutine. -/
def Coro.erase : Coro → Coro
  | .locking _ => .locking none
  | .done _ => .done (some .cancelled)
  | c => c

def Call.erase : Call → Call
  | .cancelDone _ => .cancelDone none
  | c => c

def XXLTask.erase (o : XXLTask) : XXLTask := { o with task := o.task.erase }

def erase (s : Executor) : Executor :=
  { s with obj := XXLTask.erase ∘ s.obj, call := Call.erase ∘ s.call }

/-- No observer raises. -/
def Aux.silent (aux : Aux) : Aux := { aux with succeeded := none, failed := none }

def Event.silent : Event → Event
  | .start t aux => .start t aux.silent
  | .handlerEnds t res aux => .handlerEnds t res aux.silent
  | .resumeTask t aux => .resumeTask t aux.silent
  | .resumeCleanup t aux => .resumeCleanup t aux.silent
  | e => e

/-- `succeeded_callback` raises, and the `except` branch reports it. -/
def Aux.upsets (aux : Aux) : Prop :=
  ∃ e, aux.succeeded = some e ∧ aux.catches e

/-- `enqueue` returns at once. -/
def passes (s : Executor) : Prop := s.closed = true ∨ s.workerLock = []

/-- An observer that is called in the event raises where it does harm: `succeeded_callback` in the
`try` body, or `failed_callback` in the cleanup of a task that never began. -/
def Meddles (s : Executor) : Event → Prop
  | .handlerEnds _ res aux => res.toOption ≠ none ∧ aux.finishLog = none ∧ s.passes ∧ aux.upsets
  | .resumeTask t aux => (∃ r, (s.obj t).task = .pushing true r) ∧ aux.upsets
  | .resumeCleanup t aux => aux.failed ≠ none ∧
      ((s.obj t).cleanup = .scheduled ∧ (s.obj t).cleaned = false ∧ s.passes ∨
        ∃ r, (s.obj t).cleanup = .pushing r)
  | _ => False

/-! ## Operations and `erase` -/

theorem Coro.erase_erase (c : Coro) : c.erase.erase = c.erase := by cases c <;> rfl

theorem Call.erase_erase (c : Call) : c.erase.erase = c.erase := by cases c <;> rfl

@[simp] theorem erase_erase (s : Executor) : s.erase.erase = s.erase := by
  have hobj : XXLTask.erase ∘ XXLTask.erase = XXLTask.erase :=
    funext fun o => by simp only [Function.comp, XXLTask.erase, Coro.erase_erase]
  have hcall : Call.erase ∘ Call.erase = Call.erase := funext Call.erase_erase
  simp only [erase, ← Function.comp_assoc, hobj, hcall]

@[simp] theorem erase_tasks (s : Executor) : s.erase.tasks = s.tasks := rfl
@[simp] theorem erase_queue (s : Executor) : s.erase.queue = s.queue := rfl
@[simp] theorem erase_jobLogIds (s : Executor) : s.erase.jobLogIds = s.jobLogIds := rfl
@[simp] theorem erase_coverReplacements (s : Executor) :
    s.erase.coverReplacements = s.coverReplacements := rfl
@[simp] theorem erase_jobLocks (s : Executor) : s.erase.jobLocks = s.jobLocks := rfl
@[simp] theorem erase_handler (s : Executor) : s.erase.handler = s.handler := rfl
@[simp] theorem erase_workerLock (s : Executor) : s.erase.workerLock = s.workerLock := rfl
@[simp] theorem erase_closed (s : Executor) : s.erase.closed = s.closed := rfl
@[simp] theorem erase_nextCall (s : Executor) : s.erase.nextCall = s.nextCall := rfl
@[simp] theorem erase_nextTask (s : Executor) : s.erase.nextTask = s.nextTask := rfl
@[simp] theorem erase_obj (s : Executor) (t : Nat) : s.erase.obj t = (s.obj t).erase := rfl
@[simp] theorem erase_call (s : Executor) (n : Nat) : s.erase.call n = (s.call n).erase := rfl

@[simp] theorem XXLTask.erase_data (o : XXLTask) : o.erase.data = o.data := rfl
@[simp] theorem XXLTask.erase_started (o : XXLTask) : o.erase.started = o.started := rfl
@[simp] theorem XXLTask.erase_cleaned (o : XXLTask) : o.erase.cleaned = o.cleaned := rfl
@[simp] theorem XXLTask.erase_cleanup (o : XXLTask) : o.erase.cleanup = o.cleanup := rfl
@[simp] theorem XXLTask.erase_cancelReason (o : XXLTask) : o.erase.cancelReason = o.cancelReason := rfl
@[simp] theorem XXLTask.erase_task (o : XXLTask) : o.erase.task = o.task.erase := rfl

theorem erase_modTask {f g : XXLTask → XXLTask} (h : (f (s.obj t)).erase = g (s.obj t).erase) :
    (s.modTask t f).erase = s.erase.modTask t g := by
  simp only [erase, modTask, Function.comp_update, h, Function.comp_apply]

@[simp] theorem erase_setCoro (c : Coro) : (s.setCoro t c).erase = s.erase.setCoro t c.erase :=
  erase_modTask rfl

@[simp] theorem erase_setCleanup (c : Cleanup) :
    (s.setCleanup t c).erase = s.erase.setCleanup t c := erase_modTask rfl

@[simp] theorem erase_endTask (exc : Option Exc) :
    (s.endTask t exc).erase = s.erase.endTask t (some .cancelled) := erase_modTask rfl

@[simp] theorem erase_markCleaned : (s.markCleaned t).erase = s.erase.markCleaned t :=
  erase_modTask rfl

@[simp] theorem erase_setCancelReason (r : PyStr) :
    (s.setCancelReason t r).erase = s.erase.setCancelReason t r := erase_modTask rfl

@[simp] theorem erase_setCall (c : Call) : (s.setCall n c).erase = s.erase.setCall n c.erase := by
  simp only [erase, setCall, Function.comp_update]

@[simp] theorem erase_openCall : s.openCall.erase = s.erase.openCall := by
  simp only [erase, openCall, Function.comp_update, Call.erase]

@[simp] theorem erase_lockJob (j : JobId) (p : Pid) :
    (s.lockJob j p).erase = s.erase.lockJob j p := rfl
@[simp] theorem erase_unlockJob (j : JobId) : (s.unlockJob j).erase = s.erase.unlockJob j := rfl
@[simp] theorem erase_leaveJob (j : JobId) (p : Pid) :
    (s.leaveJob j p).erase = s.erase.leaveJob j p := rfl
@[simp] theorem erase_lockWorker (p : Pid) : (s.lockWorker p).erase = s.erase.lockWorker p := rfl
@[simp] theorem erase_unlockWorker : s.unlockWorker.erase = s.erase.unlockWorker := rfl
@[simp] theorem erase_leaveWorker (p : Pid) : (s.leaveWorker p).erase = s.erase.leaveWorker p := rfl
@[simp] theorem erase_put (x : Trigger) (r : CallbackRequest) :
    (s.put x r).erase = s.erase.put x r := rfl
@[simp] theorem erase_registerLogId (j : JobId) (l : LogId) :
    (s.registerLogId j l).erase = s.erase.registerLogId j l := rfl
@[simp] theorem erase_releaseLogId (j : JobId) (l : LogId) :
    (s.releaseLogId j l).erase = s.erase.releaseLogId j l := rfl
@[simp] theorem erase_setQueue (j : JobId) (q : List Trigger) :
    (s.setQueue j q).erase = s.erase.setQueue j q := rfl

@[simp] theorem erase_createTask (x : Trigger) : (s.createTask x).erase = s.erase.createTask x := by
  simp only [erase, createTask, Function.comp_update, XXLTask.erase, Coro.erase]

theorem erase_cancel (s : Executor) (t : Nat) : (s.cancel t).erase = s.erase.cancel t := by
  unfold cancel
  cases hc : (s.obj t).task <;> simp [hc, Coro.erase]

theorem erase_enqueue (s : Executor) (p : Pid) (x : Trigger) (r : CallbackRequest) :
    s.erase.enqueue p x r = ((s.enqueue p x r).1.erase, (s.enqueue p x r).2) := by
  by_cases hc : s.closed = true
  · simp only [enqueue, erase_closed, hc, if_true]
    rfl
  · by_cases hw : s.workerLock = []
    · simp [enqueue, hc, hw]
    · simp [enqueue, hc, hw]

theorem erase_finish (s : Executor) (t : Nat) : (s.finish t).erase = s.erase.finish t := by
  by_cases ht : s.tasks (s.obj t).data.jobId = some t
  · simp only [finish, popCoverReplacement, releaseLogId, erase_tasks, erase_obj,
      XXLTask.erase_data, erase_coverReplacements, erase_queue, ht, if_true]
    cases s.coverReplacements (s.obj t).data.jobId with
    | some r => exact erase_createTask r
    | none =>
      cases hq : s.queue (s.obj t).data.jobId with
      | nil => simp only [hq]; rfl
      | cons y rest => simp only [hq]; exact erase_createTask y
  · simp only [finish, erase_tasks, erase_obj, XXLTask.erase_data, ht, if_false]
    rfl

@[simp] theorem erase_finishLocked (s : Executor) (t : Nat) :
    (s.finishLocked t).erase = s.erase.finishLocked t := by
  simp only [finishLocked, erase_unlockJob, erase_finish, erase_obj, XXLTask.erase_data]

/-! ## Calls -/

theorem erase_pushFailed (p : Pid) (reason : PyStr) : ∀ (xs : List Trigger) (s : Executor),
    pushFailedQueuedTasks p reason xs s.erase =
      ((pushFailedQueuedTasks p reason xs s).1.erase, (pushFailedQueuedTasks p reason xs s).2) := by
  intro xs
  induction xs with
  | nil => intro s; rfl
  | cons x rest ih =>
    intro s
    have hreq : s.erase.failedRequest reason x = s.failedRequest reason x := rfl
    simp only [pushFailedQueuedTasks, hreq, erase_enqueue]
    cases he : s.enqueue p x (s.failedRequest reason x) with
    | mk s₁ b =>
      cases b with
      | true => exact ih s₁
      | false => rfl

theorem erase_coverPush (s : Executor) (n : Nat) (d : RunData) (reason : PyStr)
    (rest : List Trigger) :
    (s.coverPush n d reason rest).erase = s.erase.coverPush n d reason rest := by
  simp only [coverPush, erase_pushFailed]
  cases pushFailedQueuedTasks (.call n) reason rest s with
  | mk s₁ o =>
    cases o with
    | none => simp [runReturn, Call.erase]
    | some y => simp [Call.erase]

theorem erase_cancelPush (s : Executor) (n : Nat) (reason : PyStr) (o : Option Nat)
    (rest : List Trigger) :
    (s.cancelPush n reason o rest).erase = s.erase.cancelPush n reason o rest := by
  simp only [cancelPush, erase_pushFailed]
  cases pushFailedQueuedTasks (.call n) reason rest s with
  | mk s₁ y =>
    cases y with
    | none =>
      cases o with
      | none => simp [Call.erase]
      | some t => simp [Call.erase]
    | some y => simp [Call.erase]

theorem erase_takePending (s : Executor) (j : JobId) :
    s.erase.takePending j = ((s.takePending j).1.erase, (s.takePending j).2) := by
  refine Prod.ext ?_ ?_
  · simp only [takePending_fst]
    rfl
  · simp only [takePending_snd]
    rfl

theorem erase_accept (s : Executor) (d : RunData) :
    s.erase.accept d = ((s.accept d).1.erase, (s.accept d).2) :=
  Prod.ext rfl rfl

theorem erase_coverEarly (s : Executor) (d : RunData) :
    s.erase.coverEarly d = ((s.coverEarly d).1.erase, (s.coverEarly d).2) := by
  simp only [coverEarly, erase_takePending, ← erase_registerLogId, erase_accept, erase_tasks]
  split
  · refine Prod.ext ?_ rfl
    simp only
    rw [erase_cancel, erase_setCancelReason]
    rfl
  · refine Prod.ext ?_ rfl
    simp only [erase_createTask]

theorem erase_runReturn (s : Executor) (n : Nat) (j : JobId) (res : Except RunError Reply) :
    (s.runReturn n j res).erase = s.erase.runReturn n j res := by
  simp [runReturn, Call.erase]

theorem erase_runJobLocked (s : Executor) (n : Nat) (d : RunData) :
    (s.runJobLocked n d).erase = s.erase.runJobLocked n d := by
  have hidle : s.erase.idle d.jobId = s.idle d.jobId := rfl
  have hfull : s.erase.queueFull d.jobId = s.queueFull d.jobId := rfl
  simp only [runJobLocked, erase_jobLogIds, hidle]
  split
  · exact erase_runReturn ..
  · split
    · rw [erase_runReturn]
      simp only [startIdle, erase_createTask]
      rfl
    · split
      · exact erase_runReturn ..
      · split
        · simp only [handleCoverEarly, erase_coverPush, erase_coverEarly]
        · split
          · simp only [handleSerialExecution, hfull]
            split
            · exact erase_runReturn ..
            · exact erase_runReturn ..
          · exact erase_runReturn ..

theorem erase_killCurrent (s : Executor) (j : JobId) (reason : PyStr) :
    (s.killCurrent j reason).erase = s.erase.killCurrent j reason := by
  simp only [killCurrent, erase_tasks]
  split
  · rw [erase_cancel, erase_setCancelReason]
  · rfl

theorem erase_cancelJobLocked (s : Executor) (n : Nat) (j : JobId) (includeQueue : Bool)
    (reason : PyStr) :
    (s.cancelJobLocked n j includeQueue reason).erase =
      s.erase.cancelJobLocked n j includeQueue reason := by
  have hlocked : s.erase.cancelLocked j includeQueue reason =
      ((s.cancelLocked j includeQueue reason).1.erase, (s.cancelLocked j includeQueue reason).2) := by
    cases includeQueue with
    | false => exact Prod.ext (erase_killCurrent s j reason).symm rfl
    | true =>
      simp only [cancelLocked, if_true, erase_takePending]
      exact Prod.ext (erase_killCurrent ..).symm rfl
  simp only [cancelJobLocked, hlocked, erase_cancelPush, erase_unlockJob, erase_tasks]

theorem erase_runJob (s : Executor) (d : RunData) : (s.runJob d).erase = s.erase.runJob d := by
  simp only [runJob, erase_handler, erase_jobLocks, erase_nextCall]
  by_cases hh : s.handler d.executorHandler = true
  · by_cases hl : s.jobLocks d.jobId = []
    · simp only [hh, hl, if_true, erase_runJobLocked, erase_lockJob, erase_openCall]
    · simp only [hh, hl, if_true, if_false, erase_setCall, erase_lockJob, erase_openCall, Call.erase]
  · simp only [hh, Bool.false_eq_true, if_false, erase_setCall, erase_openCall, Call.erase]

theorem erase_cancelJob (s : Executor) (j : JobId) (includeQueue : Bool) (reason : PyStr) :
    (s.cancelJob j includeQueue reason).erase = s.erase.cancelJob j includeQueue reason := by
  simp only [cancelJob, erase_jobLocks, erase_nextCall]
  by_cases hl : s.jobLocks j = []
  · simp only [hl, if_true, erase_cancelJobLocked, erase_lockJob, erase_openCall]
  · simp only [hl, if_false, erase_setCall, erase_lockJob, erase_openCall, Call.erase]

/-- A coroutine that goes on with the lock goes on as it does without the erased exceptions. -/
theorem erase_granted {α : Type} {lock : List α} {p : α} [DecidableEq α] {s₁ s₂ : Executor}
    (h : s₁.erase = s₂) :
    (if lock.head? = some p then some s₁ else none).map erase =
      if lock.head? = some p then some s₂ else none := by
  split
  · rw [Option.map_some, h]
  · rfl

theorem erase_resumeCall (s : Executor) (n : Nat) :
    (s.resumeCall n).map erase = s.erase.resumeCall n := by
  unfold resumeCall
  rw [erase_call]
  cases hc : s.call n with
  | runLock d => exact erase_granted (erase_runJobLocked s n d)
  | coverPush d x r rest reason =>
    exact erase_granted (erase_coverPush (s.unlockWorker.put x r) n d reason rest)
  | cancelLock j includeQueue reason =>
    exact erase_granted (erase_cancelJobLocked s n j includeQueue reason)
  | cancelPush x r rest reason o =>
    exact erase_granted (erase_cancelPush (s.unlockWorker.put x r) n reason o rest)
  | cancelAwait t =>
    simp only [Call.erase, erase_obj, XXLTask.erase_task]
    -- whatever has ended the awaited task, the call returns
    cases ht : (s.obj t).task with
    | done exc =>
      cases exc with
      | none => simp [Coro.erase, Call.erase]
      | some exc => cases exc <;> simp [Coro.erase, Call.erase]
    | _ => rfl
  | _ => rfl

/-! ## Tasks -/

@[simp] theorem erase_markStarted : (s.markStarted t).erase = s.erase.markStarted t := by
  have h : (s.modTask t fun o => { o with started := true }).erase =
      s.erase.modTask t fun o => { o with started := true } := erase_modTask rfl
  simp only [erase, modTask, Executor.mk.injEq] at h
  simp only [markStarted, erase, modTask, h]
  rfl

theorem erase_cleanupTask (s : Executor) (t : Nat) (exc exc' : Option Exc) :
    (s.cleanupTask t exc).erase = (s.erase.cleanupTask t exc').erase := by
  simp only [cleanupTask, erase_obj, XXLTask.erase_cleaned, XXLTask.erase_data, erase_jobLocks]
  by_cases hc : (s.obj t).cleaned = true
  · simp only [hc, if_true, erase_endTask, erase_erase]
  · by_cases hl : s.jobLocks (s.obj t).data.jobId = []
    · simp only [hc, hl, Bool.false_eq_true, if_false, if_true, erase_endTask, erase_finishLocked,
        erase_lockJob, erase_markCleaned, erase_erase]
    · simp only [hc, hl, Bool.false_eq_true, if_false, erase_setCoro, Coro.erase, erase_lockJob,
        erase_markCleaned, erase_erase]

theorem erase_exceptBranch (s : Executor) (t : Nat) (ts : Int) (e : Exc) (aux : Aux) :
    (s.exceptBranch t ts e aux).erase = (s.erase.exceptBranch t ts e aux.silent).erase := by
  have hmsg : exceptMessage (s.erase.obj t) e aux.silent = exceptMessage (s.obj t) e aux := by
    cases e <;> rfl
  simp only [exceptBranch, hmsg]
  cases exceptMessage (s.obj t) e aux with
  | error e' => exact erase_cleanupTask ..
  | ok msg =>
    simp only [erase_obj, XXLTask.erase_data, erase_enqueue]
    cases s.enqueue (.task t) (s.obj t).data
        (callbackRequest (s.obj t).data ts 500 (.str msg)) with
    | mk s' b =>
      cases b with
      | true => exact erase_cleanupTask ..
      | false => simp only [erase_setCoro, erase_erase, Coro.erase]

/-- An exception of `succeeded_callback` that no branch reports is but an exception in flight. -/
theorem erase_afterSuccess (s : Executor) (t : Nat) (ts : Int) {aux : Aux} (h : ¬aux.upsets) :
    (s.afterSuccess t ts aux).erase = (s.erase.afterSuccess t ts aux.silent).erase := by
  show _ = (s.erase.cleanupTask t none).erase
  unfold afterSuccess
  cases hs : aux.succeeded with
  | none => exact erase_cleanupTask ..
  | some e =>
    obtain ⟨e', hm⟩ := exceptMessage_error (fun hc => h ⟨e, hs, hc⟩) (s.obj t)
    simp only [exceptBranch, hm]
    exact erase_cleanupTask ..

theorem erase_handlerEnds (s : Executor) (t : Nat) (ts : Int) (res : Except Exc PyVal) {aux : Aux}
    (h : ¬Meddles s (.handlerEnds t res aux)) :
    (s.handlerEnds t ts res aux).erase = (s.erase.handlerEnds t ts res aux.silent).erase := by
  unfold handlerEnds
  have hlog : aux.silent.finishLog = aux.finishLog := rfl
  rw [hlog]
  cases res with
  | error e => exact erase_exceptBranch s t ts e aux
  | ok v =>
    cases hl : aux.finishLog with
    | some e => exact erase_exceptBranch s t ts e aux
    | none =>
      simp only [erase_obj, XXLTask.erase_data, erase_enqueue]
      cases he : s.enqueue (.task t) (s.obj t).data
          (callbackRequest (s.obj t).data ts 200 v) with
      | mk s' b =>
        cases b with
        | true =>
          refine erase_afterSuccess s' t ts fun hu => h ⟨by simp [Except.toOption], hl, ?_, hu⟩
          by_contra hp
          simp only [passes, not_or] at hp
          simp [enqueue, hp.1, hp.2] at he
        | false => simp only [erase_setCoro, erase_erase, Coro.erase]

theorem erase_startRun (s : Executor) (t : Nat) (aux : Aux) :
    (s.startRun t aux).erase = (s.erase.startRun t aux.silent).erase := by
  have hts : s.erase.callbackTimestamp (s.obj t).data.data =
      s.callbackTimestamp (s.obj t).data.data := rfl
  simp only [startRun, erase_obj, XXLTask.erase_data, erase_handler, Aux.silent, hts]
  by_cases hh : s.handler (s.obj t).data.data.executorHandler = true
  · simp only [hh, if_true]
    cases aux.getLogger with
    | some e => simp only [erase_endTask, erase_setCoro, erase_markStarted, erase_erase, Coro.erase]
    | none =>
      cases aux.startLog with
      | some e =>
        simp only [erase_exceptBranch _ t _ e aux, erase_setCoro, erase_markStarted, Coro.erase]
        rfl
      | none => simp only [erase_setCoro, erase_markStarted, erase_erase, Coro.erase]
  · simp only [hh, Bool.false_eq_true, if_false, erase_endTask, erase_setCoro, erase_markStarted,
      erase_erase, Coro.erase]

theorem erase_resumeTask (s : Executor) (t : Nat) {aux : Aux} (h : ¬Meddles s (.resumeTask t aux)) :
    (s.resumeTask t aux).map erase = (s.erase.resumeTask t aux.silent).map erase := by
  unfold resumeTask
  rw [erase_obj, XXLTask.erase_task]
  cases hc : (s.obj t).task with
  | pushing inTry r =>
    have hput : (s.unlockWorker.put (s.obj t).data r).erase =
        s.erase.unlockWorker.put (s.obj t).data r := rfl
    simp only [Coro.erase, erase_workerLock, XXLTask.erase_data]
    by_cases hw : s.workerLock.head? = some (.task t)
    · simp only [hw, if_true, ← hput]
      cases inTry with
      | true =>
        refine congrArg some (erase_afterSuccess _ t _ fun hu => h ⟨⟨r, hc⟩, hu⟩)
      | false => exact congrArg some (erase_cleanupTask _ t _ _)
    · simp only [hw, if_false]
  | thrownPushing inTry ts =>
    cases inTry with
    | true => exact congrArg some (erase_exceptBranch s t ts .cancelled aux)
    | false => exact congrArg some (erase_cleanupTask s t _ _)
  | locking exc =>
    simp only [Coro.erase, erase_jobLocks, XXLTask.erase_data]
    by_cases hl : (s.jobLocks (s.obj t).data.jobId).head? = some (.task t)
    · simp only [hl, if_true, Option.map_some, erase_endTask, erase_finishLocked, erase_erase]
    · simp only [hl, if_false]
  | thrownLocking => simp only [Coro.erase, Option.map_some, erase_endTask, erase_erase]
  | _ => rfl

theorem erase_cleanupPushed (s : Executor) (t : Nat) {aux : Aux} (h : aux.failed = none) :
    (s.cleanupPushed t aux).erase = s.erase.cleanupPushed t aux.silent := by
  simp only [cleanupPushed, h, Aux.silent, erase_obj, XXLTask.erase_data, erase_jobLocks]
  by_cases hl : s.jobLocks (s.obj t).data.jobId = []
  · simp only [hl, if_true, erase_setCleanup, erase_finishLocked, erase_lockJob]
  · simp only [hl, if_false, erase_setCleanup, erase_lockJob]

theorem erase_cleanupRun (s : Executor) (t : Nat) {aux : Aux}
    (h : (s.obj t).cleaned = false → s.passes → aux.failed = none) :
    (s.cleanupRun t aux).erase = s.erase.cleanupRun t aux.silent := by
  have hreq : s.erase.cancelRequest t = s.cancelRequest t := rfl
  simp only [cleanupRun, erase_obj, XXLTask.erase_cleaned, XXLTask.erase_data, hreq]
  by_cases hc : (s.obj t).cleaned = true
  · simp only [hc, if_true, erase_setCleanup]
  · simp only [hc, Bool.false_eq_true, if_false, ← erase_markCleaned, erase_enqueue]
    cases he : (s.markCleaned t).enqueue (.cleanup t) (s.obj t).data (s.cancelRequest t) with
    | mk s' b =>
      cases b with
      | true =>
        refine erase_cleanupPushed s' t (h (by simpa using hc) ?_)
        by_contra hp
        simp only [passes, not_or] at hp
        simp [enqueue, markCleaned, modTask, hp.1, hp.2] at he
      | false => simp only [erase_setCleanup]

/-- The done-callback of a task that has begun does not look at its exception. -/
theorem erase_onExecutorTaskDone {strict : Nat → Prop} (hi : Inv strict s) (ht : t < s.nextTask)
    {exc : Option Exc} (hd : (s.obj t).task = .done exc)
    (hc : (s.obj t).cleanup = .doneCallback) :
    (s.onExecutorTaskDone t exc).erase = s.erase.onExecutorTaskDone t (some .cancelled) := by
  have hok := hi.tasks t ht
  simp only [TaskOk, hd, hc] at hok
  simp only [onExecutorTaskDone, erase_obj, XXLTask.erase_started, XXLTask.erase_cleaned]
  by_cases hst : (s.obj t).started = true
  · simp [hst]
  · obtain ⟨rfl, hcl⟩ := hok.1 (by simpa using hst)
    simp [hst, hcl]

theorem erase_resumeCleanup {strict : Nat → Prop} (hi : Inv strict s) {aux : Aux}
    (h : ¬Meddles s (.resumeCleanup t aux)) :
    (s.resumeCleanup t aux).map erase = s.erase.resumeCleanup t aux.silent := by
  unfold resumeCleanup
  rw [erase_obj, XXLTask.erase_cleanup]
  cases hc : (s.obj t).cleanup with
  | doneCallback =>
    have ht : t < s.nextTask := hi.lt_of_obj fun ho => by rw [ho] at hc; cases hc
    obtain ⟨exc, hd⟩ := (hi.tasks t ht).ended (by rw [hc]; simp)
    simp only [XXLTask.erase_task, hd, Coro.erase, Option.map_some,
      erase_onExecutorTaskDone hi ht hd hc]
  | scheduled =>
    refine congrArg some (erase_cleanupRun s t fun hcl hp => ?_)
    by_contra hf
    exact h ⟨hf, .inl ⟨hc, hcl, hp⟩⟩
  | pushing r =>
    refine erase_granted (erase_cleanupPushed (s.unlockWorker.put (s.obj t).data r) t ?_)
    by_contra hf
    exact h ⟨hf, .inr ⟨r, hc⟩⟩
  | locking =>
    refine erase_granted ?_
    rw [erase_setCleanup, erase_finishLocked]
  | idle => rfl
  | ended => rfl

/-! ## Every event -/

/-- Up to the exceptions in flight, an event in which no observer meddles does what it does when
no observer raises. -/
theorem step_erase {strict : Nat → Prop} (hi : Inv strict s) (h : ¬Meddles s e) :
    (step s e).map erase = (step s.erase e.silent).map erase := by
  cases e with
  | runJob d => exact congrArg some (by rw [← erase_runJob, erase_erase])
  | cancelJob j includeQueue reason => exact congrArg some (by rw [← erase_cancelJob, erase_erase])
  | resumeCall n =>
    simp only [step, Event.silent, erase_nextCall]
    by_cases hn : n < s.nextCall
    · simp only [hn, if_true, ← erase_resumeCall, Option.map_map]
      cases s.resumeCall n with
      | none => rfl
      | some s' => simp
    · simp only [hn, if_false]
  | start t aux =>
    simp only [step, Event.silent, erase_obj, XXLTask.erase_task]
    cases hc : (s.obj t).task with
    | scheduled b =>
      cases b with
      | true => rfl
      | false => exact congrArg some (erase_startRun s t aux)
    | _ => rfl
  | abort t =>
    simp only [step, Event.silent, erase_obj, XXLTask.erase_task]
    cases hc : (s.obj t).task with
    | scheduled b =>
      cases b with
      | true => simp [Coro.erase]
      | false => rfl
    | _ => rfl
  | handlerEnds t res aux =>
    simp only [step, Event.silent, erase_obj, XXLTask.erase_task]
    cases hc : (s.obj t).task with
    | inHandler ts => exact congrArg some (erase_handlerEnds s t ts res h)
    | _ => rfl
  | resumeTask t aux => exact erase_resumeTask s t h
  | resumeCleanup t aux =>
    simp only [step, Event.silent, ← erase_resumeCleanup hi h, Option.map_map]
    cases s.resumeCleanup t aux with
    | none => rfl
    | some s' => simp
  | setHandler handler => exact congrArg some (erase_erase { s with handler := handler }).symm
  | stopCalled close =>
    exact congrArg some (erase_erase { s with closed := s.closed || close }).symm
  | stopLock n => exact congrArg some (erase_erase (s.lockWorker (.stop n))).symm
  | stopUnlock n =>
    simp only [step, Event.silent, erase_workerLock]
    by_cases hw : s.workerLock.head? = some (.stop n)
    · simp only [hw, if_true, Option.map_some, erase_unlockWorker, erase_erase]
    · simp only [hw, if_false]
  | tick now => exact congrArg some (erase_erase { s with now := now }).symm

theorem silent_silent (e : Event) : e.silent.silent = e.silent := by cases e <;> rfl

theorem silent_harmless (s : Executor) (e : Event) : ¬Meddles s e.silent := by
  cases e with
  | handlerEnds t res aux => rintro ⟨-, -, -, e, he, -⟩; cases he
  | resumeTask t aux => rintro ⟨-, e, he, -⟩; cases he
  | resumeCleanup t aux => rintro ⟨hf, -⟩; exact hf rfl
  | _ => exact id

/-! ## What can be seen -/

/-- What the observers must not change: the callbacks handed to the manager, those it took and
those it refused, and the books. Of a current task it shows all but its coroutine. -/
structure View where
  callbacks : List (LogId × Int)
  dropped : List (LogId × Int)
  tasks : JobId → Option (Nat × Trigger × Option PyStr × Bool × Bool)
  queue : JobId → List Trigger
  coverReplacements : JobId → Option Trigger
  jobLogIds : JobId → Finset LogId

def view (s : Executor) : View where
  callbacks := s.callbacks.map fun c => (c.2.logId, c.2.code)
  dropped := s.dropped.map fun c => (c.2.logId, c.2.code)
  tasks j := (s.tasks j).map fun t =>
    (t, (s.obj t).data, (s.obj t).cancelReason, (s.obj t).started, (s.obj t).cleaned)
  queue := s.queue
  coverReplacements := s.coverReplacements
  jobLogIds := s.jobLogIds

theorem view_erase (s : Executor) : s.erase.view = s.view := rfl

/-- Two runs with the same events, one with observers that may raise anything and one with
observers that do nothing: as long as no observer meddles, the same events can happen in both, and
after each of them the two look the same. -/
theorem observers_unseen (handler : String → Bool) (m : Int) {es : List Event}
    (h : Allowed step (fun s e => ¬Meddles s e) (init handler m) es) :
    trace step view (init handler m) es =
      trace step view (init handler m) (es.map Event.silent) := by
  refine trace_erase (P := Inv fun _ => False) erase Event.silent ?_ ?_ ?_ (inv_init handler m)
    (inv_init handler m) rfl h
  · intro s r he
    rw [← view_erase s, he, view_erase]
  · intro s e s' hi hs
    exact (step_good hi (fun _ hf => hf.elim) hs).1
  · intro s r e hs hr he hm
    rw [step_erase hs hm, he]
    have hother := step_erase hr (silent_harmless r e)
    rw [silent_silent] at hother
    exact hother.symm

/-- `failed_callback` raises in an `except` branch. -/
def failedInBranch : List Event :=
  [.runJob (serialJob 1), .start 0 .quiet,
    .handlerEnds 0 (.error (.exception [])) { failed := some (.exception []) },
    .resumeCleanup 0 .quiet]

/-- `succeeded_callback` raises. -/
def succeededRaises : List Event :=
  [.runJob (serialJob 1), .start 0 .quiet,
    .handlerEnds 0 (.ok .none) { succeeded := some (.exception []) }]

/-- `failed_callback` raises in the cleanup of a task that was cancelled before its first step. -/
def failedInCleanup : List Event :=
  [.runJob (serialJob 1), .cancelJob 1 true [], .abort 0, .resumeCleanup 0 .quiet,
    .resumeCleanup 0 { failed := some (.exception []) }]

theorem observers_unseen_branch : trace step view (init (fun _ => true) 0) failedInBranch =
    trace step view (init (fun _ => true) 0) (failedInBranch.map Event.silent) := by
  refine observers_unseen (fun _ => true) 0 (.of_forall (fun e he s => ?_) _)
  simp only [failedInBranch, List.mem_cons, List.not_mem_nil, or_false] at he
  rcases he with rfl | rfl | rfl | rfl
  · exact id
  · exact id
  · exact fun hm => hm.1 rfl
  · exact fun hm => hm.1 rfl

/-- A `succeeded_callback` that raises has the success reported as a failure, too; a
`failed_callback` that raises in a cleanup task leaves the job to a task that has ended. -/
theorem observers_seen :
    (∃ s r, after succeededRaises = some s ∧ after (succeededRaises.map Event.silent) = some r ∧
      s.view.callbacks = [(1, 200), (1, 500)] ∧ r.view.callbacks = [(1, 200)]) ∧
    ∃ s r, after failedInCleanup = some s ∧ after (failedInCleanup.map Event.silent) = some r ∧
      s.tasks 1 = some 0 ∧ r.tasks 1 = none :=
  ⟨⟨_, _, rfl, rfl, rfl, rfl⟩, _, _, rfl, rfl, rfl, rfl⟩

end Executor
end Pyxxl
