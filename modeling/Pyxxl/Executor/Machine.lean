import Pyxxl.Lib.Transition
import Pyxxl.Executor.Calls
import Pyxxl.Executor.Task

/-!
# Pyxxl.Executor.Machine

The executor as a machine: an event is one uninterrupted stretch of one coroutine, from where it
stood to its next suspension. A handler may end at any moment and in any way; which coroutine
goes next is arbitrary, except that a lock is granted to the one that waited longest.

`CallbackManager.stop` appears as far as the executor can see it: it may close the manager, and
it holds the worker lock across an await.
-/

namespace Pyxxl
namespace Executor

open Transition

inductive Event where
  | runJob (data : RunData)
  | cancelJob (jobId : JobId) (includeQueue : Bool) (reason : PyStr)
  | resumeCall (n : Nat)
  | start (t : Nat) (aux : Aux)
  | abort (t : Nat)
  | handlerEnds (t : Nat) (result : Except Exc PyVal) (aux : Aux)
  | resumeTask (t : Nat) (aux : Aux)
  | resumeCleanup (t : Nat) (aux : Aux)
  | setHandler (handler : String → Bool)
  | stopCalled (close : Bool)
  | stopLock (n : Nat)
  | stopUnlock (n : Nat)
  | tick (now : Int)

def step (s : Executor) : Event → Option Executor
  | .runJob d => some (s.runJob d)
  | .cancelJob j includeQueue reason => some (s.cancelJob j includeQueue reason)
  | .resumeCall n => if n < s.nextCall then s.resumeCall n else none
  | .start t aux =>
    match (s.obj t).task with
    | .scheduled false => some (s.startRun t aux)
    | _ => none
  | .abort t =>
    match (s.obj t).task with
    -- the `CancelledError` meets a coroutine that has not begun
    | .scheduled true => some (s.endTask t (some .cancelled))
    | _ => none
  | .handlerEnds t res aux =>
    match (s.obj t).task with
    | .inHandler timestamp => some (s.handlerEnds t timestamp res aux)
    | _ => none
  | .resumeTask t aux => s.resumeTask t aux
  | .resumeCleanup t aux => s.resumeCleanup t aux
  | .setHandler handler => some { s with handler := handler }
  | .stopCalled close => some { s with closed := s.closed || close }
  | .stopLock n => some (s.lockWorker (.stop n))
  | .stopUnlock n => if s.workerLock.head? = some (.stop n) then some s.unlockWorker else none
  | .tick now => some { s with now := now }

/-- A state some run reaches whose steps all meet `ok`. -/
def Reachable (ok : Executor → Event → Prop) (s : Executor) : Prop :=
  ∃ handler taskQueueLength, Steps step ok (init handler taskQueueLength) s

/-! ## Reading an event -/

/-- The task whose coroutine or cleanup runs in the event. -/
def Event.task : Event → Option Nat
  | .start t _ | .abort t | .handlerEnds t _ _ | .resumeTask t _ | .resumeCleanup t _ => some t
  | _ => none

/-- The call of `run_job` that enters its critical section in the event. -/
def Event.checks (s : Executor) : Event → Option (Nat × RunData)
  | .runJob d =>
    if s.handler d.executorHandler = true ∧ s.jobLocks d.jobId = [] then some (s.nextCall, d)
    else none
  | .resumeCall n =>
    match s.call n with
    | .runLock d => some (n, d)
    | _ => none
  | _ => none

/-- The job and `include_queue` of the `cancel_job` that enters its critical section. -/
def Event.kills (s : Executor) : Event → Option (JobId × Bool)
  | .cancelJob j includeQueue _ => if s.jobLocks j = [] then some (j, includeQueue) else none
  | .resumeCall n =>
    match s.call n with
    | .cancelLock j includeQueue _ => some (j, includeQueue)
    | _ => none
  | _ => none

/-- The call goes to `_handle_cover_early`, if the job is busy. -/
def covers (s : Executor) (d : RunData) : Prop :=
  d.logId ∉ s.jobLogIds d.jobId ∧
    d.executorBlockStrategy = ExecutorBlockStrategy.coverEarly.value

instance (s : Executor) (d : RunData) : Decidable (s.covers d) := inferInstanceAs (Decidable (_ ∧ _))

/-- The task a `cancel()` is delivered to in the event. -/
def Event.target (s : Executor) (e : Event) : Option Nat :=
  match e.checks s, e.kills s with
  | some (_, d), _ => if s.covers d then s.tasks d.jobId else none
  | none, some (j, _) => s.tasks j
  | none, none => none

/-- Loggers and observers do not fail in the event. -/
def Event.quiet : Event → Prop
  | .start _ aux | .handlerEnds _ _ aux | .resumeTask _ aux | .resumeCleanup _ aux => aux = .quiet
  | _ => True

/-- The event takes no registered handler away. -/
def Event.keepsHandlers (s : Executor) : Event → Prop
  | .setHandler handler => ∀ n, s.handler n = true → handler n = true
  | _ => True

/-- The event is no part of a `CallbackManager.stop` call. -/
def Event.noStop : Event → Prop
  | .stopCalled _ | .stopLock _ | .stopUnlock _ => False
  | _ => True

end Executor
end Pyxxl
