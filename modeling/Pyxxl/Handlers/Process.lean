import Pyxxl.Lib.Transition
import Pyxxl.Model

/-!
# Pyxxl.Handlers.Process

`HandlerInfo._start_process` after `process.start()` (`pyxxl/runtime/handlers.py`), with the child
it watches.

* the child puts at most one payload in the result queue; what it has put is visible once it is
  flushed, and it may exit at any time, whatever it was told.
* `put` returns at once: a thread of the child pickles the payload later and drops it when it
  cannot, and `get_nowait()` unpickles it in the parent, which may raise (`Transfer`).
* `Phase`: where the parent stands. It can be cancelled where it awaits: in a `sleep`, or while a
  thread runs `process.join`.
* between two looks of the parent at the child the child may do anything.
-/

namespace Pyxxl
namespace Process

/-- What becomes of a payload on its way through the result queue. -/
inductive Transfer where
  | arrives
  /-- It cannot be pickled. -/
  | dropped
  /-- Unpickling it raises this, which is no `queue.Empty`. -/
  | raises (exc : Exc)
  /-- Unpickling it raises a `queue.Empty`. -/
  | empty
  deriving DecidableEq

/-- What `process_handler_entry` puts in the result queue. -/
structure Payload where
  ok : Bool
  result : PyVal := .none
  error : PyStr := []
  traceback : PyStr := []
  transfer : Transfer := .arrives

inductive Phase where
  /-- About to call `result_queue.get_nowait()`. -/
  | polling
  /-- The queue was empty: about to call `process.is_alive()`. -/
  | checking
  /-- The child is gone: about to call `result_queue.get_nowait()` once more. -/
  | lastLook
  /-- In the `sleep` of `_wait_process_result`. -/
  | sleeping
  /-- In a `sleep` of `_stop_process`, of its first or of its second loop, with the rounds left and
  the exception to be raised again. -/
  | stopping (second : Bool) (left : Nat) (exc : Exc)
  /-- In the `finally`, with the outcome in flight. -/
  | joining (outcome : Except Exc PyVal)
  | ended (outcome : Except Exc PyVal)

end Process

open Process

structure Process where
  phase : Phase
  exitcode : Option Int
  buffered : Option Payload
  payload : Option Payload
  /-- `get_nowait()` has taken the payload out, and raised `queue.Empty` for it. -/
  taken : Bool
  cancelEvent : Bool
  terminated : Bool
  killed : Bool
  closed : Bool
  queueClosed : Bool

namespace Process

def started : Process where
  phase := .polling
  exitcode := none
  buffered := none
  payload := none
  taken := false
  cancelEvent := false
  terminated := false
  killed := false
  closed := false
  queueClosed := false

def isAlive (s : Process) : Bool := s.exitcode.isNone

def enter (s : Process) (p : Phase) : Process := { s with phase := p }

def Payload.errorMessage (p : Payload) : PyStr :=
  if p.error = [] then py "Process mode handler failed." else p.error

/-- What a payload makes of the call. -/
def Payload.outcome (p : Payload) : Except Exc PyVal :=
  if p.ok then .ok p.result
  else if p.traceback = [] then .error (.exception p.errorMessage)
  else .error (.exception (p.errorMessage ++ py "\n" ++ p.traceback))

def noPayload (exitcode : Int) : Except Exc PyVal :=
  .error (.exception (py "Process mode handler exited unexpectedly with code " ++ pyInt exitcode ++
    py "."))

/-! ## `_stop_process` -/

/-- The second loop, with so many rounds left. -/
def stopSecond (s : Process) (exc : Exc) : Nat → Process
  | 0 => { s with killed := s.killed || s.isAlive }.enter (.joining (.error exc))
  | left + 1 =>
    if s.isAlive then s.enter (.stopping true left exc) else s.enter (.joining (.error exc))

/-- The first loop, with so many rounds left. -/
def stopFirst (s : Process) (exc : Exc) : Nat → Process
  | 0 => { s with terminated := s.terminated || s.isAlive }.stopSecond exc 20
  | left + 1 =>
    if s.isAlive then s.enter (.stopping false left exc) else s.enter (.joining (.error exc))

def stopProcess (s : Process) (exc : Exc) : Process :=
  { s with cancelEvent := true }.stopFirst exc 10

/-- `exc` leaves `_wait_process_result`. -/
def raised (s : Process) (exc : Exc) : Process :=
  match exc with
  | .cancelled | .timeout => s.stopProcess exc
  | _ => s.enter (.joining (.error exc))

/-- The end of `_join_process`, whose `close` fails on a child that still runs, and
`_close_result_queue`. -/
def closeAll (s : Process) : Process :=
  { s with closed := s.closed || !s.isAlive, queueClosed := true }

/-! ## The machine -/

/-- What `result_queue.get_nowait()` finds. -/
def visible (s : Process) : Option Payload := if s.taken then none else s.payload

/-- After `get_nowait()` has found `p`; `next` is what follows a `queue.Empty`. -/
def take (s : Process) (p : Payload) (next : Process → Process) : Process :=
  match p.transfer with
  | .raises exc => s.raised exc
  | .empty => next { s with taken := true }
  | _ => s.enter (.joining p.outcome)

inductive Event where
  | childPuts (p : Payload)
  | childFlushes
  | childExits (exitcode : Int)
  /-- The parent takes its next look at the queue or at the child. -/
  | look
  /-- A `sleep` of the parent ends. -/
  | wake
  /-- The time of `wait_for` is up. -/
  | timeout
  /-- A `cancel()` of the parent's task is delivered. -/
  | cancel
  /-- `process.join(0.2)` returns. -/
  | joined

def step (s : Process) : Event → Option Process
  | .childPuts p =>
    if s.isAlive ∧ s.buffered.isNone then some { s with buffered := some p } else none
  | .childFlushes =>
    match s.buffered with
    | some p =>
      if s.isAlive ∧ s.payload.isNone ∧ p.transfer ≠ .dropped then some { s with payload := some p }
      else none
    | none => none
  | .childExits c => if s.isAlive then some { s with exitcode := some c } else none
  | .look =>
    match s.phase with
    | .polling =>
      match s.visible with
      | some p => some (s.take p fun s => s.enter .checking)
      | none => some (s.enter .checking)
    | .checking => if s.isAlive then some (s.enter .sleeping) else some (s.enter .lastLook)
    | .lastLook =>
      match s.visible, s.exitcode with
      | some p, some c => some (s.take p fun s => s.enter (.joining (noPayload c)))
      | none, some c => some (s.enter (.joining (noPayload c)))
      | _, none => none
    | _ => none
  | .wake =>
    match s.phase with
    | .sleeping => some (s.enter .polling)
    | .stopping false left exc => some (s.stopFirst exc left)
    | .stopping true left exc => some (s.stopSecond exc left)
    | _ => none
  | .timeout =>
    match s.phase with
    | .sleeping => some (s.stopProcess .timeout)
    | _ => none
  | .cancel =>
    match s.phase with
    | .sleeping => some (s.stopProcess .cancelled)
    -- the error leaves `_stop_process`, and the `finally` is next
    | .stopping _ _ _ => some (s.enter (.joining (.error .cancelled)))
    -- it is no `Exception`: it leaves `_join_process`, and nothing is closed
    | .joining _ => some (s.enter (.ended (.error .cancelled)))
    | _ => none
  | .joined =>
    match s.phase with
    | .joining outcome => some (s.closeAll.enter (.ended outcome))
    | _ => none

end Process
end Pyxxl
