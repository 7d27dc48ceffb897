import Pyxxl.Executor.State

/-!
# Pyxxl.Executor.Calls

`run_job` and `cancel_job`. A call that cannot take the job lock, or whose `enqueue` has to wait
for the worker lock, leaves its place in `call` and is resumed from there.
-/

namespace Pyxxl
namespace Executor

def coverReason : PyStr :=
  py "block strategy effect：" ++ py ExecutorBlockStrategy.coverEarly.value

/-- `queue.full()`: a queue without a positive `maxsize` is unbounded. -/
def queueFull (s : Executor) (j : JobId) : Bool :=
  0 < s.taskQueueLength && s.taskQueueLength ≤ (s.queue j).length

/-- The new trigger enters the books. -/
def accept (s : Executor) (d : RunData) : Executor × Trigger :=
  ({ s with accepted := s.accepted ++ [⟨s.accepted.length, d⟩] }, ⟨s.accepted.length, d⟩)

/-- Drain the queue and drop the replacement: the lines that `_handle_cover_early` and
`cancel_job` share. -/
def takePending (s : Executor) (j : JobId) : Executor × List Trigger :=
  let (s₁, drained) := s.drainPendingQueueLocked j
  match s₁.popCoverReplacement j with
  | (s₂, some r) => (s₂.releaseLogId j r.logId, drained ++ [r])
  | (s₂, none) => (s₂, drained)

/-- A `run_job` call leaves the critical section. -/
def runReturn (s : Executor) (n : Nat) (j : JobId) (res : Except RunError Reply) : Executor :=
  (s.unlockJob j).setCall n (.runDone res)

/-- `_handle_cover_early` before it awaits: the books are settled, and the dropped triggers are
returned. -/
def coverEarly (s : Executor) (d : RunData) : Executor × List Trigger :=
  let (s₁, dropped) := s.takePending d.jobId
  let (s₂, x) := (s₁.registerLogId d.jobId d.logId).accept d
  match s₂.tasks d.jobId with
  | some t =>
    (({ s₂ with coverReplacements := Function.update s₂.coverReplacements d.jobId (some x) }
      |>.setCancelReason t coverReason).cancel t, dropped)
  | none => (s₂.createTask x, dropped)

/-- `_push_failed_queued_tasks` in `_handle_cover_early`, then the return. -/
def coverPush (s : Executor) (n : Nat) (d : RunData) (reason : PyStr) (rest : List Trigger) :
    Executor :=
  match pushFailedQueuedTasks (.call n) reason rest s with
  | (s', none) => s'.runReturn n d.jobId (.ok (.replaced d.jobId d.logId))
  | (s', some (x, r, rest')) => s'.setCall n (.coverPush d x r rest' reason)

def handleCoverEarly (s : Executor) (n : Nat) (d : RunData) : Executor :=
  (s.coverEarly d).1.coverPush n d coverReason (s.coverEarly d).2

/-- The idle branch of `run_job`. -/
def startIdle (s : Executor) (d : RunData) : Executor :=
  ((s.registerLogId d.jobId d.logId).accept d).1.createTask
    ((s.registerLogId d.jobId d.logId).accept d).2

/-- The part of `_handle_serial_execution` that changes the books. -/
def enqueueSerial (s : Executor) (d : RunData) : Executor :=
  (((s.accept d).1.setQueue d.jobId (s.queue d.jobId ++ [(s.accept d).2]))).registerLogId
    d.jobId d.logId

def handleSerialExecution (s : Executor) (n : Nat) (d : RunData) : Executor :=
  if s.queueFull d.jobId then s.runReturn n d.jobId (.error (.queueFull d s.taskQueueLength))
  else (s.enqueueSerial d).runReturn n d.jobId
    (.ok (.ranked d.jobId d.logId ((s.queue d.jobId).length + 1) s.taskQueueLength))

/-- `not current_task and queue.empty() and data.jobId not in self._cover_replacements`. -/
def idle (s : Executor) (j : JobId) : Bool :=
  (s.tasks j).isNone && (s.queue j).isEmpty && (s.coverReplacements j).isNone

/-- `run_job` under the job lock. -/
def runJobLocked (s : Executor) (n : Nat) (d : RunData) : Executor :=
  if d.logId ∈ s.jobLogIds d.jobId then s.runReturn n d.jobId (.error (.repeated d.logId))
  else if s.idle d.jobId then (s.startIdle d).runReturn n d.jobId (.ok .running)
  else if d.executorBlockStrategy = ExecutorBlockStrategy.discardLater.value then
    s.runReturn n d.jobId (.error (.discarded d))
  else if d.executorBlockStrategy = ExecutorBlockStrategy.coverEarly.value then
    s.handleCoverEarly n d
  else if d.executorBlockStrategy = ExecutorBlockStrategy.serialExecution.value then
    s.handleSerialExecution n d
  else s.runReturn n d.jobId (.error (.unknownStrategy d.executorBlockStrategy))

/-- A call of `run_job`, up to its return or its first suspension. -/
def runJob (s : Executor) (d : RunData) : Executor :=
  let n := s.nextCall
  if s.handler d.executorHandler then
    if s.jobLocks d.jobId = [] then (s.openCall.lockJob d.jobId (.call n)).runJobLocked n d
    else (s.openCall.lockJob d.jobId (.call n)).setCall n (.runLock d)
  else s.openCall.setCall n (.runDone (.error (.notFound d.executorHandler)))

/-- `cancel_job` after the job lock: push the failures, then await the cancelled task. -/
def cancelPush (s : Executor) (n : Nat) (reason : PyStr) (taskToCancel : Option Nat)
    (rest : List Trigger) : Executor :=
  match pushFailedQueuedTasks (.call n) reason rest s with
  | (s', none) =>
    match taskToCancel with
    | some t => s'.setCall n (.cancelAwait t)
    | none => s'.setCall n (.cancelDone none)
  | (s', some (x, r, rest')) => s'.setCall n (.cancelPush x r rest' reason taskToCancel)

/-- The lines of `cancel_job` about the current task. -/
def killCurrent (s : Executor) (j : JobId) (reason : PyStr) : Executor :=
  match s.tasks j with
  | some t => (s.setCancelReason t reason).cancel t
  | none => s

/-- The critical section of `cancel_job`: what it drops is returned. -/
def cancelLocked (s : Executor) (j : JobId) (includeQueue : Bool) (reason : PyStr) :
    Executor × List Trigger :=
  let (s₁, queued) := if includeQueue then s.takePending j else (s, [])
  (s₁.killCurrent j reason, queued)

def cancelJobLocked (s : Executor) (n : Nat) (j : JobId) (includeQueue : Bool)
    (reason : PyStr) : Executor :=
  let (s₁, queued) := s.cancelLocked j includeQueue reason
  (s₁.unlockJob j).cancelPush n reason (s₁.tasks j) queued

/-- A call of `cancel_job` after its first `sleep`, up to its next suspension. -/
def cancelJob (s : Executor) (j : JobId) (includeQueue : Bool) (reason : PyStr) : Executor :=
  let n := s.nextCall
  if s.jobLocks j = [] then (s.openCall.lockJob j (.call n)).cancelJobLocked n j includeQueue reason
  else (s.openCall.lockJob j (.call n)).setCall n (.cancelLock j includeQueue reason)

/-- `is_running_or_has_queue`. -/
def isRunningOrHasQueue (s : Executor) (j : JobId) : Bool :=
  (s.tasks j).isSome || !(s.queue j).isEmpty || (s.coverReplacements j).isSome

/-- Resume the suspended call `n`, when what it waits for has come. -/
def resumeCall (s : Executor) (n : Nat) : Option Executor :=
  match s.call n with
  | .runLock d =>
    if (s.jobLocks d.jobId).head? = some (.call n) then some (s.runJobLocked n d) else none
  | .coverPush d x r rest reason =>
    if s.workerLock.head? = some (.call n) then
      some ((s.unlockWorker.put x r).coverPush n d reason rest)
    else none
  | .cancelLock j includeQueue reason =>
    if (s.jobLocks j).head? = some (.call n) then
      some (s.cancelJobLocked n j includeQueue reason)
    else none
  | .cancelPush x r rest reason taskToCancel =>
    if s.workerLock.head? = some (.call n) then
      some ((s.unlockWorker.put x r).cancelPush n reason taskToCancel rest)
    else none
  | .cancelAwait t =>
    match (s.obj t).task with
    -- a `CancelledError` of the awaited task is caught, any other exception passes on
    | .done (some .cancelled) => some (s.setCall n (.cancelDone none))
    | .done exc => some (s.setCall n (.cancelDone exc))
    | _ => none
  | .begun => none
  | .runDone _ => none
  | .cancelDone _ => none

end Executor
end Pyxxl
