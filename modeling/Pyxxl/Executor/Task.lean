import Pyxxl.Executor.State

/-!
# Pyxxl.Executor.Task

The coroutine `_run` of an `XXLTask`, its `_cleanup_task`, `_finish`, and the done-callback with
the cleanup task it creates for a task that was cancelled before its first step.
-/

namespace Pyxxl
namespace Executor

/-- How the calls of `_run` around the handler end: `none` is a normal return. -/
structure Aux where
  getLogger : Option Exc := none
  startLog : Option Exc := none
  finishLog : Option Exc := none
  errLog : Option Exc := none
  succeeded : Option Exc := none
  failed : Option Exc := none
  deriving DecidableEq

/-- Loggers and observers do not fail. -/
def Aux.quiet : Aux := {}

def finish (s : Executor) (t : Nat) : Executor :=
  let x := (s.obj t).data
  let s₀ := { s with finished := s.finished ++ [t] }
  if s.tasks x.jobId = some t then
    let s₁ := { s₀ with tasks := Function.update s₀.tasks x.jobId none }.releaseLogId x.jobId x.logId
    match s₁.popCoverReplacement x.jobId with
    | (s₂, some r) => s₂.createTask r
    | (s₂, none) =>
      match s₂.queue x.jobId with
      | [] => s₂
      | y :: rest => (s₂.setQueue x.jobId rest).createTask y
  else s₀.releaseLogId x.jobId x.logId

/-- `_cleanup_task` under the job lock. -/
def finishLocked (s : Executor) (t : Nat) : Executor :=
  (s.finish t).unlockJob (s.obj t).data.jobId

def markCleaned (s : Executor) (t : Nat) : Executor :=
  s.modTask t fun o => { o with cleaned := true }

/-- `await self._cleanup_task(task_info)` in the `finally` of `_run`, with `exc` in flight. -/
def cleanupTask (s : Executor) (t : Nat) (exc : Option Exc) : Executor :=
  if (s.obj t).cleaned then s.endTask t exc
  else if s.jobLocks (s.obj t).data.jobId = [] then
    (((s.markCleaned t).lockJob (s.obj t).data.jobId (.task t)).finishLocked t).endTask t exc
  else ((s.markCleaned t).lockJob (s.obj t).data.jobId (.task t)).setCoro t (.locking exc)

/-- The `except` branch that catches the exception, up to its `enqueue`: the text of the code-500
callback, or what is raised instead. `str(err)` runs code of the exception's class. -/
def exceptMessage (o : XXLTask) (e : Exc) (aux : Aux) : Except Exc PyStr :=
  match e, aux.errLog with
  | .base, _ => .error .base
  | _, some e' => .error e'
  | .cancelled, none => .ok (cancelMessageForTask o)
  | .timeout, none => .ok (py "TimeoutError")
  | .exception text, none => .ok text
  | .unprintable raised, none => .error raised

/-- The `except` branches of `_run`. -/
def exceptBranch (s : Executor) (t : Nat) (timestamp : Int) (e : Exc) (aux : Aux) : Executor :=
  match exceptMessage (s.obj t) e aux with
  | .error e' => s.cleanupTask t (some e')
  | .ok msg =>
    match s.enqueue (.task t) (s.obj t).data
        (callbackRequest (s.obj t).data timestamp 500 (.str msg)) with
    | (s', true) => s'.cleanupTask t aux.failed
    | (s', false) =>
      s'.setCoro t (.pushing false (callbackRequest (s.obj t).data timestamp 500 (.str msg)))

/-- The `except` branches report what they catch. -/
def Aux.catches (aux : Aux) (e : Exc) : Prop := e.reportable = true ∧ aux.errLog = none

theorem exceptMessage_ok {aux : Aux} {e : Exc} (h : aux.catches e) (o : XXLTask) :
    ∃ msg, exceptMessage o e aux = .ok msg := by
  obtain ⟨hr, hl⟩ := h
  cases e <;> simp_all [exceptMessage, Exc.reportable]

theorem exceptMessage_error {aux : Aux} {e : Exc} (h : ¬aux.catches e) (o : XXLTask) :
    ∃ e', exceptMessage o e aux = .error e' := by
  cases hl : aux.errLog <;> cases e <;> simp_all [exceptMessage, Aux.catches, Exc.reportable]

/-- `_run` after the code-200 callback: `succeeded_callback` still stands in the `try` body. -/
def afterSuccess (s : Executor) (t : Nat) (timestamp : Int) (aux : Aux) : Executor :=
  match aux.succeeded with
  | some e => s.exceptBranch t timestamp e aux
  | none => s.cleanupTask t none

/-- `_run` from the end of `handler.start`. -/
def handlerEnds (s : Executor) (t : Nat) (timestamp : Int) (res : Except Exc PyVal) (aux : Aux) :
    Executor :=
  match res, aux.finishLog with
  | .error e, _ => s.exceptBranch t timestamp e aux
  | .ok _, some e => s.exceptBranch t timestamp e aux
  | .ok v, none =>
    match s.enqueue (.task t) (s.obj t).data (callbackRequest (s.obj t).data timestamp 200 v) with
    | (s', true) => s'.afterSuccess t timestamp aux
    | (s', false) => s'.setCoro t (.pushing true (callbackRequest (s.obj t).data timestamp 200 v))

/-- `task_info.started = True`. -/
def markStarted (s : Executor) (t : Nat) : Executor :=
  { s.modTask t fun o => { o with started := true } with
    started := s.started ++ [(s.obj t).data] }

/-- The first step of `_run`, up to the await of `handler.start`. What raises before the `try`
ends the coroutine with no cleanup. -/
def startRun (s : Executor) (t : Nat) (aux : Aux) : Executor :=
  let timestamp := s.callbackTimestamp (s.obj t).data.data
  let s₁ := (s.markStarted t).setCoro t (.inHandler timestamp)
  if s.handler (s.obj t).data.data.executorHandler then
    match aux.getLogger, aux.startLog with
    | some e, _ => s₁.endTask t (some e)
    | none, some e => s₁.exceptBranch t timestamp e aux
    | none, none => s₁
  else s₁.endTask t (some (.exception []))

/-- Resume the coroutine of `t` at a lock, or with the `CancelledError` thrown into it there. -/
def resumeTask (s : Executor) (t : Nat) (aux : Aux) : Option Executor :=
  match (s.obj t).task with
  | .pushing inTry r =>
    if s.workerLock.head? = some (.task t) then
      let s' := s.unlockWorker.put (s.obj t).data r
      if inTry then some (s'.afterSuccess t r.timestamp aux)
      else some (s'.cleanupTask t aux.failed)
    else none
  | .thrownPushing inTry timestamp =>
    if inTry then some (s.exceptBranch t timestamp .cancelled aux)
    else some (s.cleanupTask t (some .cancelled))
  | .locking exc =>
    if (s.jobLocks (s.obj t).data.jobId).head? = some (.task t) then
      some ((s.finishLocked t).endTask t exc)
    else none
  -- the error leaves `_cleanup_task` before `_finish`
  | .thrownLocking => some (s.endTask t (some .cancelled))
  | _ => none

/-! ## The done-callback and the cleanup task -/

/-- `_on_executor_task_done`. -/
def onExecutorTaskDone (s : Executor) (t : Nat) (exc : Option Exc) : Executor :=
  if exc ≠ some .cancelled ∨ (s.obj t).started ∨ (s.obj t).cleaned then s.setCleanup t .ended
  else s.setCleanup t .scheduled

/-- `_cleanup_task(…, push_cancel_callback=True)` after its callback. When `failed_callback`
raises, `_finish` is not reached. -/
def cleanupPushed (s : Executor) (t : Nat) (aux : Aux) : Executor :=
  match aux.failed with
  | some _ => s.setCleanup t .ended
  | none =>
    if s.jobLocks (s.obj t).data.jobId = [] then
      ((s.lockJob (s.obj t).data.jobId (.cleanup t)).finishLocked t).setCleanup t .ended
    else (s.lockJob (s.obj t).data.jobId (.cleanup t)).setCleanup t .locking

def cancelRequest (s : Executor) (t : Nat) : CallbackRequest :=
  callbackRequest (s.obj t).data (s.callbackTimestamp (s.obj t).data.data) 500
    (.str (cancelMessageForTask (s.obj t)))

/-- `_cleanup_task(…, push_cancel_callback=True)`, the body of the cleanup task. -/
def cleanupRun (s : Executor) (t : Nat) (aux : Aux) : Executor :=
  if (s.obj t).cleaned then s.setCleanup t .ended
  else
    match (s.markCleaned t).enqueue (.cleanup t) (s.obj t).data (s.cancelRequest t) with
    | (s', true) => s'.cleanupPushed t aux
    | (s', false) => s'.setCleanup t (.pushing (s.cancelRequest t))

/-- Run or resume what stands in `cleanup` for `t`. -/
def resumeCleanup (s : Executor) (t : Nat) (aux : Aux) : Option Executor :=
  match (s.obj t).cleanup with
  | .doneCallback =>
    match (s.obj t).task with
    | .done exc => some (s.onExecutorTaskDone t exc)
    | _ => none
  | .scheduled => some (s.cleanupRun t aux)
  | .pushing r =>
    if s.workerLock.head? = some (.cleanup t) then
      some ((s.unlockWorker.put (s.obj t).data r).cleanupPushed t aux)
    else none
  | .locking =>
    if (s.jobLocks (s.obj t).data.jobId).head? = some (.cleanup t) then
      some ((s.finishLocked t).setCleanup t .ended)
    else none
  | .idle => none
  | .ended => none

end Executor
end Pyxxl
