import Mathlib.Data.List.Sublists

/-!
# Pyxxl.Model

The data the executor passes around (`pyxxl/model`, `pyxxl/error.py`, `CallbackRequest`).

Python strings are lists of code points, so that they may hold unpaired surrogates. A `Trigger`
is one `RunData` object accepted by `run_job`: the `ticket` stands for the identity of the
object and is never read by the code.
-/

namespace Pyxxl

abbrev PyStr := List Nat

/-- A Python string given by a Lean literal. -/
def py (s : String) : PyStr := s.toList.map Char.toNat

def pyInt (z : Int) : PyStr := py (toString z)

inductive PyKey where
  | none
  | bool (b : Bool)
  | int (z : Int)
  | float (repr : PyStr)
  | str (s : PyStr)
  | object

/-- Values a handler can return, as far as `json.dumps` and `asdict` tell them apart. An `object` is
what one of them does not read as plain data: a set, bytes, an instance of a class (of a dataclass,
`Counter` or `defaultdict` as well), or a list too deep for it. It carries what `json.dumps` writes
it as, and what `asdict` makes of it, if they do not raise. -/
inductive PyVal where
  | none
  | bool (b : Bool)
  | int (z : Int)
  | float (repr : PyStr)
  | str (s : PyStr)
  | list (xs : List PyVal)
  | dict (items : List (PyKey × PyVal))
  | object (dumped asdicted : Option PyVal)

inductive ExecutorBlockStrategy where
  | serialExecution
  | discardLater
  | coverEarly
  deriving DecidableEq, Repr

def ExecutorBlockStrategy.value : ExecutorBlockStrategy → String
  | .serialExecution => "SERIAL_EXECUTION"
  | .discardLater => "DISCARD_LATER"
  | .coverEarly => "COVER_EARLY"

abbrev JobId := Int
abbrev LogId := Int

structure RunData where
  jobId : JobId
  logId : LogId
  executorHandler : String
  executorBlockStrategy : String
  logDateTime : Option Int := none
  deriving DecidableEq, Repr

structure Trigger where
  ticket : Nat
  data : RunData
  deriving DecidableEq, Repr

def Trigger.jobId (x : Trigger) : JobId := x.data.jobId
def Trigger.logId (x : Trigger) : LogId := x.data.logId

/-- Where `_persist_request` writes a request: `callback-{log_id}-{timestamp}-{uuid4}.json`. -/
structure CallbackPath where
  logId : LogId
  timestamp : Int
  uuid : Nat
  deriving DecidableEq, Repr

structure CallbackRequest where
  logId : LogId
  timestamp : Int
  code : Int
  msg : PyVal
  attempts : Nat := 0
  persistedPath : Option CallbackPath := none

/-- What a coroutine can raise: the classes the `except` clauses of `_run` tell apart, and what
`str()` makes of the exception where they call it. `unprintable` is an `Exception` whose `__str__`
raises in turn, `base` a `BaseException` outside `Exception`, such as `SystemExit`. -/
inductive Exc where
  | cancelled
  | timeout
  | exception (text : PyStr)
  | unprintable (raised : Exc)
  | base
  deriving DecidableEq, Repr

/-- An `except` clause of `_run` catches the exception, and has a text for it. -/
def Exc.reportable : Exc → Bool
  | .cancelled | .timeout | .exception _ => true
  | .unprintable _ | .base => false

/-- What `run_job` raises. -/
inductive RunError where
  | notFound (executorHandler : String)
  | repeated (logId : LogId)
  | discarded (data : RunData)
  | queueFull (data : RunData) (maxsize : Int)
  | unknownStrategy (executorBlockStrategy : String)
  deriving DecidableEq, Repr

/-- The text of the error; `str` is the `__str__` of the `RunData` dataclass. -/
def RunError.message (str : RunData → PyStr) : RunError → PyStr
  | .notFound h => py "handler " ++ py h ++ py " not found."
  | .repeated l => py "repeate trigger job, logId:" ++ pyInt l
  | .discarded d =>
    py "The same job [" ++ str d ++ py "] is already executing and this has been discarded."
  | .queueFull d maxsize =>
    py "Job " ++ pyInt d.jobId ++ py " is SERIAL, queue length more than " ++ pyInt maxsize ++
      py ". Job " ++ str d ++ py " discard!"
  | .unknownStrategy b =>
    py "unknown executorBlockStrategy [" ++ py b ++ py "].[executorBlockStrategy=" ++ py b ++ py "]"

/-- What `run_job` returns. -/
inductive Reply where
  | running
  | replaced (jobId : JobId) (logId : LogId)
  | ranked (jobId : JobId) (logId : LogId) (ranked : Nat) (maxsize : Int)
  deriving DecidableEq, Repr

def Reply.msg : Reply → PyStr
  | .running => py "Running"
  | .replaced j l =>
    py "Job " ++ pyInt j ++ py " BlockStrategy is COVER_EARLY, logId " ++ pyInt l ++ py " replaced."
  | .ranked j l r maxsize =>
    py "job " ++ pyInt j ++ py " is in queue, logId " ++ pyInt l ++ py " ranked " ++ pyInt r ++
      py "th [max=" ++ pyInt maxsize ++ py "]..."

end Pyxxl
