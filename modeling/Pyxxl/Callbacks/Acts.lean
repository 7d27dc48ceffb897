import Mathlib.Data.List.Count
import Pyxxl.Callbacks.Manager

/-!
# Pyxxl.Callbacks.Acts

The steps of a `CallbackManager` cut into `Act`s, as long as files can be written and deleted and
every message can be stored (`FilesOk`).

* an act hands one request from one place to the next, or concerns the calls and the lock only.
* `tidy`: a timed-out `stop` that sets `_pending` to 0 waits for what it counts on, `Flushed s`.
* `muted`: nobody calls `enqueue` any more.
-/

namespace Pyxxl
namespace CallbackManager

/-- The request the worker holds. -/
def held (s : CallbackManager) : Option Nat :=
  match s.worker with
  | .delivering i => some i
  | _ => none

/-- The task will put its request into the queue. -/
def Retry.active : Retry → Bool
  | .sleeping | .parked => true
  | _ => false

def Stop.close : Stop → Bool
  | .waiting _ close _ | .retries close _ _ | .locking close _ | .joining close _
  | .returned close _ | .raised close => close
  | .none => false

/-- A `stop(close=True)` that has seen `_pending` at 0. -/
def Stop.through : Stop → Bool
  | .waiting _ close woken => close && woken
  | .retries close drained _ | .locking close drained | .joining close drained => close && drained
  | .returned close _ => close
  | _ => false

/-- A `stop` that was not drained, and has written what was queued. -/
def Stop.flushed : Stop → Bool
  | .locking _ drained | .joining _ drained => !drained
  | _ => false

/-- No `enqueue` waits for the lock, all that is queued is in files, and as long as requests may
come nothing is queued and none waits for its next attempt. -/
def Flushed (muted : Prop) (s : CallbackManager) : Prop :=
  (∀ i, .enqueue i ∉ s.workerLock) ∧ (∀ i ∈ s.queue, s.store.Stored i) ∧
    (s.closed = true ∨ muted ∨ s.queue = [] ∧ ∀ i, (s.retry i).active = false)

/-- The `stop` call `n` may come to `c`. -/
structure Comes (s : CallbackManager) (n : Nat) (c : Stop) : Prop where
  lt : n < s.nextStop
  closed : c.close = true → s.closed = true
  kept : (s.stop n).close = true → c.close = true
  through : c.through = true → s.pending = 0 ∨ (s.stop n).through = true
  flushed : c.flushed = true → s.queue = [] ∨ (s.stop n).flushed = true
  unraised : ∀ close, c ≠ .raised close

inductive Act (tidy muted : Prop) : CallbackManager → CallbackManager → Prop where
  | started {s} : Act tidy muted s { s with started := true }
  /-- A file is loaded. -/
  | replay {s} {p : CallbackPath} {r : CallbackRequest} (hs : s.started = true)
      (hf : s.store.files p = some (.whole r)) (hm : r.msg.plain = true)
      (hr : r.msg.storable = true)
      (hh : ∀ i, s.store.home i ≠ some p) (hu : p.uuid < s.store.nextUuid) :
      Act tidy muted s ((s.count { r with persistedPath := some p }).put s.nextRequest)
  /-- A file that cannot be loaded is deleted. -/
  | discard {s} {p : CallbackPath} (hf : ∀ r, s.store.files p ≠ some (.whole r))
      (hh : ∀ i, s.store.home i ≠ some p) :
      Act tidy muted s { s with store := s.store.setFile p none }
  /-- A request is counted, and waits for the lock. -/
  | enter {s} {r : CallbackRequest} (hs : s.started = true) (hp : r.persistedPath = none)
      (hr : r.msg.storable = true) (ho : s.closed = false) (hm : ¬muted) :
      Act tidy muted s ((s.count r).lock (.enqueue s.nextRequest))
  | resume {s i} (h : s.workerLock.head? = some (.enqueue i)) : Act tidy muted s (s.resumeEnqueue i)
  | take {s} (h : s.held = none) : Act tidy muted s s.next
  | deliver {s i unlinks} (h : s.worker = .delivering i) (hu : unlinks i = true) :
      Act tidy muted s { s with
        store := s.store.delete i unlinks
        delivered := s.delivered ++ [i]
        worker := .idle }.markCompleted
  | fail {s i writes} (h : s.worker = .delivering i) (hw : writes i = true) :
      Act tidy muted s ({ s with
        store := ((s.store.attempt i).persist i writes).1
        worker := .idle }.setRetry i .sleeping)
  | cut {s i writes} (h : s.worker = .delivering i) (hw : writes i = true) :
      Act tidy muted s { s with store := (s.store.persist i writes).1, worker := .done false }
  | worker {s} {w : Worker} (hh : s.held = none) (hw : w = .none ∨ w = .done false) :
      Act tidy muted s { s with worker := w }
  /-- No new `enqueue` comes to the lock. -/
  | lock {s l} (hl : ∀ i, l.count (.enqueue i) ≤ s.workerLock.count (.enqueue i)) :
      Act tidy muted s { s with workerLock := l }
  | requeue {s i} (h : s.retry i ≠ .none) (ho : (s.retry i).active = true) :
      Act tidy muted s ((s.put i).setRetry i .none)
  | retries {s f} (hf : ∀ i, f i ≠ Retry.none → s.retry i ≠ .none)
      (ha : ∀ i, (f i).active = true → (s.retry i).active = true) :
      Act tidy muted s { s with retry := f }
  | flush {s i rest writes} (hq : s.queue = i :: rest) (hw : writes i = true) :
      Act tidy muted s { s with store := (s.store.persist i writes).1, queue := rest }
  | closing {s} : Act tidy muted s { s with closed := true }
  | number {s} : Act tidy muted s { s with nextStop := s.nextStop + 1 }
  | stop {s n c} (hc : Comes s n c) : Act tidy muted s (s.setStop n c)
  | reset {s} (hh : s.held = none) (ht : tidy → s.Flushed muted) :
      Act tidy muted s { s with pending := 0 }.setPendingEmpty

/-- Acts one after the other. -/
def Acts (tidy muted : Prop) : CallbackManager → CallbackManager → Prop :=
  Relation.ReflTransGen (Act tidy muted)

end CallbackManager
end Pyxxl
