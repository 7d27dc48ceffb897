import Mathlib.Data.Finset.Image
import Mathlib.Logic.Function.Basic
import Pyxxl.Model

/-!
# Pyxxl.Executor.State

The state of an `Executor` and of the coroutines working on it (`pyxxl/runtime/executor.py`,
`pyxxl/runtime/models.py`), and the operations that never suspend.

asyncio runs one coroutine at a time, up to its next await that really suspends. The awaits of
the executor that can suspend are the handler itself, `CallbackManager.enqueue` (on the worker
lock, which only `CallbackManager.stop` holds across an await), and the per-job lock.

* `Coro`, `Cleanup`, `Call`: where the coroutine of an `XXLTask`, its cleanup task and a
  `run_job` or `cancel_job` call stand.
* an `XXLTask` object and a call go by the number of their creation.
* an asyncio lock is the list of those who hold it or wait for it, the holder first.
* `accepted`, `started`, `finished`, `callbacks`, `dropped` record what happened; no code reads
  them. `dropped` are the callbacks a closed manager has refused.
-/

namespace Pyxxl
namespace Executor

/-- The coroutine of an `XXLTask`. `timestamp` is its `callback_timestamp`, `inTry` tells the
`enqueue` of the `try` body from those of the `except` branches, `exc` is the exception in flight
while `finally` runs, and the `thrown` states have a `CancelledError` to be raised at the await
they stand at. -/
inductive Coro where
  | scheduled (mustCancel : Bool)
  | inHandler (timestamp : Int)
  | pushing (inTry : Bool) (request : CallbackRequest)
  | thrownPushing (inTry : Bool) (timestamp : Int)
  | locking (exc : Option Exc)
  | thrownLocking
  | done (exc : Option Exc)

/-- The done-callback of an `XXLTask` and the cleanup task it may create. -/
inductive Cleanup where
  | idle
  | doneCallback
  | scheduled
  | pushing (request : CallbackRequest)
  | locking
  | ended

structure XXLTask where
  task : Coro
  data : Trigger
  cancelReason : Option PyStr := none
  started : Bool := false
  cleaned : Bool := false
  cleanup : Cleanup := .idle

/-- A call of `run_job` or `cancel_job`. In the `Push` states `x` is the dropped trigger whose
`request` waits in `enqueue` and `rest` are those still to come. -/
inductive Call where
  | begun
  | runLock (data : RunData)
  | coverPush (data : RunData) (x : Trigger) (request : CallbackRequest) (rest : List Trigger)
      (reason : PyStr)
  | runDone (result : Except RunError Reply)
  | cancelLock (jobId : JobId) (includeQueue : Bool) (reason : PyStr)
  | cancelPush (x : Trigger) (request : CallbackRequest) (rest : List Trigger) (reason : PyStr)
      (taskToCancel : Option Nat)
  | cancelAwait (taskToCancel : Nat)
  | cancelDone (exc : Option Exc)

inductive Pid where
  | call (n : Nat)
  | task (t : Nat)
  | cleanup (t : Nat)
  | stop (n : Nat)
  deriving DecidableEq, Repr

end Executor

open Executor

structure Executor where
  tasks : JobId → Option Nat
  queue : JobId → List Trigger
  jobLogIds : JobId → Finset LogId
  coverReplacements : JobId → Option Trigger
  jobLocks : JobId → List Pid
  handler : String → Bool
  taskQueueLength : Int
  obj : Nat → XXLTask
  nextTask : Nat
  call : Nat → Call
  nextCall : Nat
  workerLock : List Pid
  closed : Bool
  now : Int
  accepted : List Trigger
  started : List Trigger
  finished : List Nat
  callbacks : List (Trigger × CallbackRequest)
  dropped : List (Trigger × CallbackRequest)

namespace Executor

/-- Any `XXLTask` slot that was not created yet. -/
def noTask : XXLTask := { task := .done none, data := ⟨0, ⟨0, 0, "", "", none⟩⟩ }

/-- `Executor.__init__` with the given handlers and queue length. -/
def init (handler : String → Bool) (taskQueueLength : Int) : Executor where
  tasks _ := none
  queue _ := []
  jobLogIds _ := ∅
  coverReplacements _ := none
  jobLocks _ := []
  handler := handler
  taskQueueLength := taskQueueLength
  obj _ := noTask
  nextTask := 0
  call _ := .begun
  nextCall := 0
  workerLock := []
  closed := false
  now := 0
  accepted := []
  started := []
  finished := []
  callbacks := []
  dropped := []

/-- Change the `XXLTask` object `t`. -/
def modTask (s : Executor) (t : Nat) (f : XXLTask → XXLTask) : Executor :=
  { s with obj := Function.update s.obj t (f (s.obj t)) }

def setCoro (s : Executor) (t : Nat) (c : Coro) : Executor :=
  s.modTask t fun o => { o with task := c }

def setCleanup (s : Executor) (t : Nat) (c : Cleanup) : Executor :=
  s.modTask t fun o => { o with cleanup := c }

def setCall (s : Executor) (n : Nat) (c : Call) : Executor :=
  { s with call := Function.update s.call n c }

/-- A call begins; its number is the old `nextCall`. -/
def openCall (s : Executor) : Executor :=
  { s with call := Function.update s.call s.nextCall .begun, nextCall := s.nextCall + 1 }

/-- The `asyncio.Task` ends; its done-callback is put on the loop. -/
def endTask (s : Executor) (t : Nat) (exc : Option Exc) : Executor :=
  s.modTask t fun o => { o with task := .done exc, cleanup := .doneCallback }

/-! ## Locks -/

def lockJob (s : Executor) (j : JobId) (p : Pid) : Executor :=
  { s with jobLocks := Function.update s.jobLocks j (s.jobLocks j ++ [p]) }

/-- The holder leaves; whoever waited longest holds the lock next. -/
def unlockJob (s : Executor) (j : JobId) : Executor :=
  { s with jobLocks := Function.update s.jobLocks j (s.jobLocks j).tail }

/-- A waiter that was cancelled leaves the queue of the lock. -/
def leaveJob (s : Executor) (j : JobId) (p : Pid) : Executor :=
  { s with jobLocks := Function.update s.jobLocks j ((s.jobLocks j).erase p) }

def lockWorker (s : Executor) (p : Pid) : Executor :=
  { s with workerLock := s.workerLock ++ [p] }

def unlockWorker (s : Executor) : Executor :=
  { s with workerLock := s.workerLock.tail }

def leaveWorker (s : Executor) (p : Pid) : Executor :=
  { s with workerLock := s.workerLock.erase p }

/-! ## Containers -/

def registerLogId (s : Executor) (j : JobId) (l : LogId) : Executor :=
  { s with jobLogIds := Function.update s.jobLogIds j (insert l (s.jobLogIds j)) }

def releaseLogId (s : Executor) (j : JobId) (l : LogId) : Executor :=
  { s with jobLogIds := Function.update s.jobLogIds j ((s.jobLogIds j).erase l) }

def setQueue (s : Executor) (j : JobId) (q : List Trigger) : Executor :=
  { s with queue := Function.update s.queue j q }

def popCoverReplacement (s : Executor) (j : JobId) : Executor × Option Trigger :=
  ({ s with coverReplacements := Function.update s.coverReplacements j none },
    s.coverReplacements j)

/-- `_create_task`, with the assignment `self.tasks[jobId] = …` all its callers make. -/
def createTask (s : Executor) (x : Trigger) : Executor :=
  { s with
    tasks := Function.update s.tasks x.jobId (some s.nextTask)
    obj := Function.update s.obj s.nextTask { task := .scheduled false, data := x }
    nextTask := s.nextTask + 1 }

/-- The `while` loop of `_drain_pending_queue_locked`, on the elements left in the queue. -/
def drainLoop (j : JobId) : List Trigger → Executor → Executor
  | [], s => s
  | x :: rest, s => drainLoop j rest ((s.setQueue j rest).releaseLogId j x.logId)

def drainPendingQueueLocked (s : Executor) (j : JobId) : Executor × List Trigger :=
  (drainLoop j (s.queue j) s, s.queue j)

/-- `task.cancel()` on the coroutine of `t`. In the handler the error goes to `handler.start`, and
what comes of it is the handler's outcome; at a lock the waiter leaves the queue. -/
def cancel (s : Executor) (t : Nat) : Executor :=
  match (s.obj t).task with
  | .scheduled _ => s.setCoro t (.scheduled true)
  | .pushing inTry r => (s.leaveWorker (.task t)).setCoro t (.thrownPushing inTry r.timestamp)
  | .locking _ => (s.leaveJob (s.obj t).data.jobId (.task t)).setCoro t .thrownLocking
  | _ => s

def setCancelReason (s : Executor) (t : Nat) (reason : PyStr) : Executor :=
  s.modTask t fun o => { o with cancelReason := some reason }

/-! ## Callbacks -/

/-- `data.logDateTime or int(time.time() * 1000)`. -/
def callbackTimestamp (s : Executor) (d : RunData) : Int :=
  match d.logDateTime with
  | none => s.now
  | some 0 => s.now
  | some ms => ms

def cancelMessageForTask (o : XXLTask) : PyStr :=
  match o.cancelReason with
  | some (c :: cs) => (c :: cs) ++ py " [job running, killed.]"
  | _ => py "CancelledError"

def callbackRequest (x : Trigger) (timestamp code : Int) (msg : PyVal) : CallbackRequest :=
  { logId := x.logId, timestamp := timestamp, code := code, msg := msg }

/-- `CallbackManager.enqueue` once it holds the worker lock: the request is put in the queue. -/
def put (s : Executor) (x : Trigger) (r : CallbackRequest) : Executor :=
  { s with callbacks := s.callbacks ++ [(x, r)] }

/-- `CallbackManager.enqueue` up to its first suspension: on a closed manager the request is
dropped, on a free worker lock it is put, else the caller `p` waits for the lock. The flag tells
whether the call has returned. -/
def enqueue (s : Executor) (p : Pid) (x : Trigger) (r : CallbackRequest) : Executor × Bool :=
  if s.closed then ({ s with dropped := s.dropped ++ [(x, r)] }, true)
  else if s.workerLock = [] then (s.put x r, true)
  else (s.lockWorker p, false)

def queuedMessage (reason : PyStr) : PyStr :=
  reason ++ py " [job not executed, in the job queue, killed.]"

def failedRequest (s : Executor) (reason : PyStr) (x : Trigger) : CallbackRequest :=
  callbackRequest x (s.callbackTimestamp x.data) 500 (.str (queuedMessage reason))

/-- `_push_failed_queued_tasks` until it returns (`none`) or suspends: then with the request that
waits and the triggers after it. -/
def pushFailedQueuedTasks (p : Pid) (reason : PyStr) :
    List Trigger → Executor → Executor × Option (Trigger × CallbackRequest × List Trigger)
  | [], s => (s, none)
  | x :: rest, s =>
    match s.enqueue p x (s.failedRequest reason x) with
    | (s', true) => pushFailedQueuedTasks p reason rest s'
    | (s', false) => (s', some (x, s.failedRequest reason x, rest))

end Executor
end Pyxxl
