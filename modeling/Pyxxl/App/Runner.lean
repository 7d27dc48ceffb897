import Pyxxl.Callbacks.Manager
import Pyxxl.Executor.Machine
import Pyxxl.Protocol.AdminClient

/-!
# Pyxxl.App.Runner

`PyxxlRunner._cleanup_ctx` (`pyxxl/app/runner.py`) as a machine, with the executor and its callback
manager at work next to it, and with `Executor.shutdown` and `Executor.graceful_close`, which it
awaits.

* the executor's `enqueue` brings the request to the manager: whatever an event of the executor
  adds to its `callbacks` is enqueued (`sent`). It has to wait for the worker lock only while a
  `stop` holds that, and `stop` is called when the tasks are over.
* the web server is closed before the teardown begins, so that no `run_job` comes any more.
* where an awaited call raises, `_cleanup_ctx` ends there (`Phase.ended`).
-/

namespace Pyxxl
namespace PyxxlRunner

/-- What leaves `_cleanup_ctx`: an error of `registryRemove`, the `TimeoutError` of `wait_for`, the
exception of a task that `cancel_job` awaits, or the one a worker has ended with. -/
inductive Error where
  | client (e : PostError)
  | timeout
  | task (exc : Exc)
  | worker

/-- Where `_cleanup_ctx` stands. From `closing` on it is in `graceful_close` or `shutdown`:
`cancelling` with the jobs whose `cancel_job` has not begun and the calls that have, `flushing` in
the `stop` of `graceful_close`. In `stopping` it awaits the `stop` with `close=True`. -/
inductive Phase where
  | starting
  | serving
  | removing
  | closing
  | cancelling (todo : List JobId) (calls : List Nat)
  | flushing (n : Nat)
  | stopping (n : Nat)
  | ended (error : Option Error)

end PyxxlRunner

open PyxxlRunner

structure PyxxlRunner where
  executor : Executor
  manager : CallbackManager
  xxlClient : XXL
  gracefulClose : Bool
  sessionOpen : Bool
  phase : Phase

namespace PyxxlRunner

/-- A runner that has made its client, its executor and the executor's manager. -/
def init (handler : String → Bool) (taskQueueLength : Int)
    (files : CallbackPath → Option StoredFile) (nextUuid : Nat) (xxlClient : XXL)
    (gracefulClose : Bool) : PyxxlRunner where
  executor := .init handler taskQueueLength
  manager := .init files nextUuid
  xxlClient := xxlClient
  gracefulClose := gracefulClose
  sessionOpen := true
  phase := .starting

/-! ## Executor and manager at work -/

def Phase.running : Phase → Bool
  | .starting | .ended _ => false
  | _ => true

def Phase.isServing : Phase → Bool
  | .serving => true
  | _ => false

/-- The events of the executor that may happen in a phase. Its handlers are those of the runner, and
nobody but `_cleanup_ctx` calls `stop`. -/
def Phase.admits (p : Phase) : Executor.Event → Bool
  | .runJob _ => p.isServing
  | .setHandler _ | .stopCalled _ | .stopLock _ | .stopUnlock _ => false
  | _ => p.running

/-- The events of the manager that no caller brings about: its worker, its retry tasks and the
calls that are under way. -/
def ownEvent : CallbackManager.Event → Bool
  | .start _ | .enqueue _ | .cancelEnqueue _ | .stop _ _ _ => false
  | _ => true

/-- The requests an executor has sent on its way to `x'`. -/
def sent (x x' : Executor) : List CallbackRequest :=
  (x'.callbacks.drop x.callbacks.length).map Prod.snd

/-- The manager is brought what the executor has sent. -/
def tell (x x' : Executor) (m : CallbackManager) : CallbackManager :=
  (sent x x').foldl CallbackManager.enqueue m

def setExecutor (s : PyxxlRunner) (x : Executor) : PyxxlRunner :=
  { s with executor := x, manager := tell s.executor x s.manager }

/-! ## The teardown -/

def shutdownReason : PyStr := py "executor shutdown."

/-- The condition on which the loop of `graceful_close` ends. Only the job of an accepted trigger
can have a task, a queue or a replacement. -/
def allOver (x : Executor) : Bool :=
  x.accepted.all fun d => !x.isRunningOrHasQueue d.jobId

/-- `jobIds` are at least those which `shutdown` finds in `tasks`, `queue` and
`_cover_replacements`. -/
def covers (x : Executor) (jobIds : List JobId) : Bool :=
  x.accepted.all fun d => !x.isRunningOrHasQueue d.jobId || jobIds.contains d.jobId

def returned : Executor.Call → Bool
  | .cancelDone none => true
  | _ => false

/-- A task that has ended has its done-callback on the loop, and it may create a cleanup task. -/
def cleaning : Executor.Cleanup → Bool
  | .doneCallback | .scheduled => true
  | _ => false

/-- `gather` has its results. Whoever awaits a task is put on the loop behind its done-callback, and
the result of `gather` behind the cleanup task which that has created. -/
def gathered (x : Executor) (calls : List Nat) : Bool :=
  calls.all (fun n => returned (x.call n)) &&
    (List.range x.nextTask).all fun t => !cleaning (x.obj t).cleanup

/-- `stop_callback_manager(timeout=remaining)` in `graceful_close`. -/
def flush (s : PyxxlRunner) (writes : Nat → Bool) : PyxxlRunner :=
  { s with
    manager := s.manager.stopCall true false writes
    phase := .flushing s.manager.nextStop }

/-- `stop_callback_manager(timeout=1, close=True)`. -/
def stop (s : PyxxlRunner) (writes : Nat → Bool) : PyxxlRunner :=
  { s with
    executor := { s.executor with closed := true }
    manager := s.manager.stopCall true true writes
    phase := .stopping s.manager.nextStop }

def fail (s : PyxxlRunner) (e : Error) : PyxxlRunner := { s with phase := .ended (some e) }

/-- `xxl_client.close()`, and the end. -/
def close (s : PyxxlRunner) : PyxxlRunner := { s with sessionOpen := false, phase := .ended none }

inductive Event where
  /-- `start_callback_manager()`, with the names of the callback files. -/
  | start (paths : List CallbackPath)
  | executor (e : Executor.Event)
  /-- `JobHandler.register`. -/
  | register (name : String)
  | manager (e : CallbackManager.Event)
  /-- The generator is resumed for the teardown. -/
  | exit
  | registryRemove (answers : Nat → Nat → Answer)
  /-- `graceful_timeout` expires. -/
  | timeout
  /-- The loop of `graceful_close` ends. -/
  | tasksOver (writes : Nat → Bool)
  | shutdown (jobIds : List JobId)
  | cancelJob (j : JobId)
  | cancelled (writes : Nat → Bool)
  | cancelRaised (n : Nat)
  /-- The `stop` that is awaited has ended. -/
  | stopped (writes : Nat → Bool)

def step (s : PyxxlRunner) : Event → Option PyxxlRunner
  | .start paths =>
    match s.phase with
    | .starting =>
      (s.manager.step (.start paths)).map fun m => { s with manager := m, phase := .serving }
    | _ => none
  | .executor e => if s.phase.admits e then (s.executor.step e).map s.setExecutor else none
  | .register name =>
    if s.phase.running then
      (s.executor.step (.setHandler fun h => h = name || s.executor.handler h)).map s.setExecutor
    else none
  | .manager e =>
    if s.phase.running && ownEvent e then
      (s.manager.step e).map fun m => { s with manager := m }
    else none
  | .exit =>
    match s.phase with
    | .serving => some { s with phase := .removing }
    | _ => none
  | .registryRemove answers =>
    match s.phase with
    | .removing =>
      match (s.xxlClient.registryRemove answers).2 with
      | .ok _ => some { s with phase := .closing }
      | .error e => some (s.fail (.client e))
    | _ => none
  | .timeout =>
    match s.phase with
    | .closing => if s.gracefulClose then some (s.fail .timeout) else none
    | _ => none
  | .tasksOver writes =>
    match s.phase with
    | .closing => if s.gracefulClose && allOver s.executor then some (s.flush writes) else none
    | _ => none
  | .shutdown jobIds =>
    match s.phase with
    | .closing =>
      if !s.gracefulClose && jobIds.Nodup && covers s.executor jobIds then
        some { s with phase := .cancelling jobIds [] }
      else none
    | _ => none
  | .cancelJob j =>
    match s.phase with
    | .cancelling todo calls =>
      if j ∈ todo then
        some { s.setExecutor (s.executor.cancelJob j true shutdownReason) with
          phase := .cancelling (todo.erase j) (s.executor.nextCall :: calls) }
      else none
    | _ => none
  | .cancelled writes =>
    match s.phase with
    | .cancelling [] calls => if gathered s.executor calls then some (s.stop writes) else none
    | _ => none
  | .cancelRaised n =>
    match s.phase with
    | .cancelling _ calls =>
      match s.executor.call n with
      | .cancelDone (some exc) => if n ∈ calls then some (s.fail (.task exc)) else none
      | _ => none
    | _ => none
  | .stopped writes =>
    match s.phase with
    | .flushing n =>
      match s.manager.stop n with
      | .returned _ _ => some (s.stop writes)
      | .raised _ => some (s.fail .worker)
      | _ => none
    | .stopping n =>
      match s.manager.stop n with
      | .returned _ _ => some s.close
      | .raised _ => some (s.fail .worker)
      | _ => none
    | _ => none

/-- A state some run reaches whose steps all meet `ok`. -/
def Reachable (ok : PyxxlRunner → Event → Prop) (s : PyxxlRunner) : Prop :=
  ∃ handler taskQueueLength files nextUuid xxlClient gracefulClose, Transition.Steps step ok
    (init handler taskQueueLength files nextUuid xxlClient gracefulClose) s

end PyxxlRunner
end Pyxxl
