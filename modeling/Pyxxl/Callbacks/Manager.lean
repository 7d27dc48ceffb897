import Pyxxl.Lib.Transition
import Pyxxl.Callbacks.Store

/-!
# Pyxxl.Callbacks.Manager

`CallbackManager` (`pyxxl/runtime/callbacks.py`) as a machine: an event is one uninterrupted
stretch of an `enqueue` or `stop` call, of the worker or of a retry task.

* `_worker_lock` is the list of those who hold it or wait for it, the holder first. `enqueue` and
  the retry tasks do not suspend while they hold it, so that it is held across an await only by a
  `stop` that waits for the worker it has cancelled. `_state_lock` is never held across an await.
* no worker exists before the first `start`, and so nobody waits for the lock in it.
* a cancelled worker makes no step but its last one.
* `enqueued`: the requests whose `enqueue` has returned and was not dropped. `delivered`: those
  whose delivery the worker has completed. No code reads them.
-/

namespace Pyxxl
namespace CallbackManager

inductive Worker where
  | none
  | scheduled
  | idle
  | delivering (request : Nat)
  /-- It has ended, by an error of its own or by cancellation. -/
  | done (crashed : Bool)

/-- The task `_requeue_later` of a request. -/
inductive Retry where
  | none
  | sleeping
  | parked
  | cancelling
  deriving DecidableEq

/-- A call of `stop`. `drained` is its result; `woken` tells whether `_pending_empty` was set since
it waits. -/
inductive Stop where
  | none
  | waiting (timed close woken : Bool)
  | retries (close drained : Bool) (todo : List Nat)
  | locking (close drained : Bool)
  | joining (close drained : Bool)
  | returned (close drained : Bool)
  | raised (close : Bool)

inductive Waiter where
  | enqueue (request : Nat)
  | retry (request : Nat)
  | stop (n : Nat)
  deriving DecidableEq

end CallbackManager

open CallbackManager

structure CallbackManager where
  store : Store
  nextRequest : Nat
  queue : List Nat
  worker : Worker
  workerLock : List Waiter
  retry : Nat → Retry
  stop : Nat → Stop
  nextStop : Nat
  pending : Nat
  pendingEmpty : Bool
  closed : Bool
  started : Bool
  enqueued : List Nat
  delivered : List Nat

namespace CallbackManager

/-- `CallbackManager.__init__`, with what is in `store_dir`. -/
def init (files : CallbackPath → Option StoredFile) (nextUuid : Nat) : CallbackManager where
  store := .init files nextUuid
  nextRequest := 0
  queue := []
  worker := .none
  workerLock := []
  retry _ := .none
  stop _ := .none
  nextStop := 0
  pending := 0
  pendingEmpty := true
  closed := false
  started := false
  enqueued := []
  delivered := []

def request (s : CallbackManager) (i : Nat) : CallbackRequest := s.store.request i

def setStop (s : CallbackManager) (n : Nat) (c : Stop) : CallbackManager :=
  { s with stop := Function.update s.stop n c }

def setRetry (s : CallbackManager) (i : Nat) (c : Retry) : CallbackManager :=
  { s with retry := Function.update s.retry i c }

def lock (s : CallbackManager) (w : Waiter) : CallbackManager :=
  { s with workerLock := s.workerLock ++ [w] }

/-- The holder leaves; whoever waited longest holds the lock next. -/
def unlock (s : CallbackManager) : CallbackManager :=
  { s with workerLock := s.workerLock.tail }

/-! ## `_pending` -/

def Stop.wake : Stop → Stop
  | .waiting timed close _ => .waiting timed close true
  | c => c

/-- `_pending_empty.set()`. -/
def setPendingEmpty (s : CallbackManager) : CallbackManager :=
  { s with pendingEmpty := true, stop := fun n => (s.stop n).wake }

/-- A new request object, counted by `_queue_request`. -/
def count (s : CallbackManager) (r : CallbackRequest) : CallbackManager :=
  { s with
    store := s.store.add s.nextRequest r
    nextRequest := s.nextRequest + 1
    pending := s.pending + 1
    pendingEmpty := false }

def markCompleted (s : CallbackManager) : CallbackManager :=
  if s.pending - 1 = 0 then { s with pending := 0 }.setPendingEmpty
  else { s with pending := s.pending - 1 }

/-! ## The worker -/

def Worker.alive : Worker → Bool
  | .scheduled | .idle | .delivering _ => true
  | _ => false

/-- `_ensure_worker` under the lock, and `_queue.put`. -/
def put (s : CallbackManager) (i : Nat) : CallbackManager :=
  { s with
    worker := if s.worker.alive then s.worker else .scheduled
    queue := s.queue ++ [i] }

/-- `_queue.get()`. -/
def next (s : CallbackManager) : CallbackManager :=
  match s.queue with
  | [] => { s with worker := .idle }
  | i :: rest => { s with worker := .delivering i, queue := rest }

/-- The worker was cancelled, and has not yet noticed. -/
def workerCancelled (s : CallbackManager) : Bool :=
  match s.workerLock with
  | .stop n :: _ =>
    match s.stop n with
    | .joining _ _ => true
    | _ => false
  | _ => false

/-! ## `enqueue`, `start` and the retry tasks -/

/-- `enqueue` after its `start()`, up to its return or its first suspension. -/
def enqueue (s : CallbackManager) (r : CallbackRequest) : CallbackManager :=
  if s.closed then s
  else if s.workerLock = [] then
    { (s.count r).put s.nextRequest with enqueued := s.enqueued ++ [s.nextRequest] }
  else (s.count r).lock (.enqueue s.nextRequest)

/-- `enqueue` from the lock on. -/
def resumeEnqueue (s : CallbackManager) (i : Nat) : CallbackManager :=
  { s.unlock.put i with enqueued := s.enqueued ++ [i] }

/-- One round of the loop of `_replay_persisted_requests`. -/
def replay (s : CallbackManager) (p : CallbackPath) : CallbackManager :=
  match s.store.files p with
  | some (.whole r) => (s.count { r with persistedPath := some p }).put s.nextRequest
  | _ => { s with store := s.store.setFile p none }

def retryFires (s : CallbackManager) (i : Nat) : CallbackManager :=
  if s.closed then s.setRetry i .none
  else if s.workerLock = [] then (s.put i).setRetry i .none
  else (s.lock (.retry i)).setRetry i .parked

/-! ## `stop` -/

/-- A `stop` that has left the worker lock. -/
def stopEnd (s : CallbackManager) (n : Nat) (close drained : Bool) : CallbackManager :=
  (if drained then s else { s with pending := 0 }.setPendingEmpty).setStop n
    (.returned close drained)

/-- A `stop` that holds the worker lock. An ended worker is awaited without suspension, and its own
error is raised. -/
def stopLocked (s : CallbackManager) (n : Nat) (close drained : Bool) : CallbackManager :=
  match s.worker with
  | .none => s.unlock.stopEnd n close drained
  | .done false => { s with worker := .none }.unlock.stopEnd n close drained
  | .done true => s.unlock.setStop n (.raised close)
  | _ => s.setStop n (.joining close drained)

def stopAcquire (s : CallbackManager) (n : Nat) (close drained : Bool) : CallbackManager :=
  if s.workerLock = [] then (s.lock (.stop n)).stopLocked n close drained
  else (s.lock (.stop n)).setStop n (.locking close drained)

/-- `_persist_buffered_requests`, on the elements left in the queue. -/
def persistBuffered (writes : Nat → Bool) : List Nat → CallbackManager → CallbackManager × Bool
  | [], s => (s, true)
  | i :: rest, s =>
    match s.store.persist i writes with
    | (st, true) => persistBuffered writes rest { s with store := st, queue := rest }
    | (st, false) => ({ s with store := st, queue := rest }, false)

/-- `stop` once the retry tasks it has cancelled are over. -/
def stopFlush (s : CallbackManager) (n : Nat) (close drained : Bool) (writes : Nat → Bool) :
    CallbackManager :=
  if drained then s.stopAcquire n close drained
  else
    match persistBuffered writes s.queue s with
    | (s', true) => s'.stopAcquire n close drained
    | (s', false) => s'.setStop n (.raised close)

def retryTasks (s : CallbackManager) : List Nat :=
  (List.range s.nextRequest).filter fun i => s.retry i ≠ .none

def Retry.cancel : Retry → Retry
  | .none => .none
  | _ => .cancelling

def Waiter.isRetry : Waiter → Bool
  | .retry _ => true
  | _ => false

/-- `task.cancel()` for all retry tasks. -/
def cancelRetries (s : CallbackManager) : CallbackManager :=
  { s with
    retry := fun i => (s.retry i).cancel
    workerLock := s.workerLock.filter fun w => !w.isRetry }

/-- `stop` after its wait for `_pending_empty`. -/
def stopWaited (s : CallbackManager) (n : Nat) (close drained : Bool) (writes : Nat → Bool) :
    CallbackManager :=
  if s.retryTasks = [] then s.stopFlush n close drained writes
  else s.cancelRetries.setStop n (.retries close drained s.retryTasks)

/-- A call of `stop`, up to its return or its first suspension. -/
def stopCall (s : CallbackManager) (timed close : Bool) (writes : Nat → Bool) : CallbackManager :=
  let n := s.nextStop
  let s₁ := { s with closed := s.closed || close, nextStop := s.nextStop + 1 }
  if 0 < s.pending && !s.pendingEmpty then s₁.setStop n (.waiting timed close false)
  else s₁.stopWaited n close true writes

/-! ## The machine -/

inductive Event where
  /-- The first `start()`, up to the end or to an error; `paths` are the names of the callback files
  it gets through, in order. -/
  | start (paths : List CallbackPath)
  | enqueue (r : CallbackRequest)
  | resumeEnqueue (i : Nat)
  | cancelEnqueue (i : Nat)
  | workerTakes
  | workerDelivers (unlinks : Nat → Bool)
  | workerFails (writes : Nat → Bool)
  | workerEnds (writes : Nat → Bool)
  | retryFires (i : Nat)
  | retryResumes (i : Nat)
  | retryEnds (i : Nat)
  | stop (timed close : Bool) (writes : Nat → Bool)
  | stopDrained (n : Nat) (writes : Nat → Bool)
  | stopTimeout (n : Nat) (writes : Nat → Bool)
  | stopRetriesOver (n : Nat) (writes : Nat → Bool)
  | stopLocked (n : Nat)
  | stopJoined (n : Nat)

def step (s : CallbackManager) : Event → Option CallbackManager
  | .start paths =>
    if s.started then some s
    -- file names differ, and `uuid4` will not give one of them again
    else if paths.Nodup ∧ ∀ p ∈ paths, p.uuid < s.store.nextUuid ∧
        StoredFile.decodes (s.store.files p) then
      some { paths.foldl replay s with started := true }
    else none
  | .enqueue r => if s.started && r.persistedPath.isNone then some (s.enqueue r) else none
  | .resumeEnqueue i =>
    if s.workerLock.head? = some (.enqueue i) then some (s.resumeEnqueue i) else none
  | .cancelEnqueue i =>
    if .enqueue i ∈ s.workerLock then
      some { s with workerLock := s.workerLock.erase (.enqueue i) }
    else none
  | .workerTakes =>
    if s.workerCancelled then none
    else
      match s.worker, s.queue with
      | .scheduled, _ => some s.next
      | .idle, _ :: _ => some s.next
      | _, _ => none
  | .workerDelivers unlinks =>
    match s.worker with
    | .delivering i =>
      if s.workerCancelled || !(s.request i).msg.dumpable then none
      else some ({ s with
        store := s.store.delete i unlinks, delivered := s.delivered ++ [i] }.markCompleted.next)
    | _ => none
  | .workerFails writes =>
    match s.worker with
    | .delivering i =>
      if s.workerCancelled then none
      else
        match (s.store.attempt i).persist i writes with
        | (st, true) => some (({ s with store := st }.setRetry i .sleeping).next)
        -- the second error leaves the `except` branch and the loop
        | (st, false) => some { s with store := st, worker := .done true }
    | _ => none
  | .workerEnds writes =>
    if s.workerCancelled then
      match s.worker with
      | .delivering i =>
        match s.store.persist i writes with
        | (st, returned) => some { s with store := st, worker := .done !returned }
      | .scheduled | .idle => some { s with worker := .done false }
      | _ => none
    else none
  | .retryFires i => if s.retry i = .sleeping then some (s.retryFires i) else none
  | .retryResumes i =>
    if s.retry i = .parked ∧ s.workerLock.head? = some (.retry i) then
      some ((s.unlock.put i).setRetry i .none)
    else none
  | .retryEnds i => if s.retry i = .cancelling then some (s.setRetry i .none) else none
  | .stop timed close writes => some (s.stopCall timed close writes)
  | .stopDrained n writes =>
    match s.stop n with
    | .waiting _ close true => some (s.stopWaited n close true writes)
    | _ => none
  | .stopTimeout n writes =>
    match s.stop n with
    | .waiting true close _ => some (s.stopWaited n close false writes)
    | _ => none
  | .stopRetriesOver n writes =>
    match s.stop n with
    | .retries close drained todo =>
      if ∀ i ∈ todo, s.retry i = .none then some (s.stopFlush n close drained writes) else none
    | _ => none
  | .stopLocked n =>
    match s.stop n with
    | .locking close drained =>
      if s.workerLock.head? = some (.stop n) then some (s.stopLocked n close drained) else none
    | _ => none
  | .stopJoined n =>
    match s.stop n, s.worker with
    | .joining close drained, .done crashed =>
      if s.workerLock.head? = some (.stop n) then
        if crashed then some (s.unlock.setStop n (.raised close))
        else some ({ s with worker := .none }.unlock.stopEnd n close drained)
      else none
    | _, _ => none

/-- A state some run reaches whose steps all meet `ok`. -/
def Reachable (ok : CallbackManager → Event → Prop) (s : CallbackManager) : Prop :=
  ∃ files nextUuid, Transition.Steps step ok (init files nextUuid) s

end CallbackManager
end Pyxxl
