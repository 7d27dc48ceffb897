import Pyxxl.Protocol.Requests
import Pyxxl.Executor.Machine

/-!
# Pyxxl.Protocol.Server

The routes of `pyxxl/protocol/server.py` over one executor, with any number of requests under way.

A route runs in one stretch from where it stood to its next await that suspends: the body of the
request, the `sleep` of `cancel_job`, and what `run_job` and `cancel_job` wait for. The calls go on in
the events of the executor, which also does all else that happens meanwhile.

* `Place`: where a route stands. A call it awaits goes by its number in the executor.
* `answer s n`: what request `n` has been answered, if it has.
* requests whose ids are no integers, or whose names and strategies are no strings, have no event:
  the executor of the model has no keys of other types.
* `Site`: what comes from outside: the limits of `json.loads`, the text of a `RunData`, and
  `get_logs` of the task logger, which may raise.
-/

namespace Pyxxl

inductive Route where
  | beat
  | idleBeat
  | run
  | kill
  | log
  deriving DecidableEq, Repr

/-- A POST to one of the routes. `token` is its header `XXL-JOB-ACCESS-TOKEN`. -/
structure WebRequest where
  route : Route
  token : Option PyStr
  body : Option PyStr

/-- `web.json_response`, or the answer of aiohttp to an exception. -/
inductive WebResponse where
  | json (code : Int) (msg : Option PyStr) (content : Option Json)
  | serverError

def WebResponse.code : WebResponse → Int
  | .json code _ _ => code
  | .serverError => 500

inductive Place where
  | reading
  | sleeping (jobId : JobId)
  | running (data : RunData) (call : Nat)
  | killing (jobId : JobId) (call : Nat)
  | answered (a : WebResponse)

structure Site where
  limits : Json.Limits
  str : RunData → PyStr
  getLogs : Json → Option Json

structure Server where
  executor : Executor
  accessToken : Option PyStr
  requests : List WebRequest
  place : Nat → Place

namespace Server

open Transition

def init (handler : String → Bool) (taskQueueLength : Int) (accessToken : Option PyStr) : Server where
  executor := Executor.init handler taskQueueLength
  accessToken := accessToken
  requests := []
  place _ := .reading

def setPlace (s : Server) (n : Nat) (p : Place) : Server :=
  { s with place := Function.update s.place n p }

/-- `access_token and request.headers.get(ACCESS_TOKEN_HEADER) != access_token`. -/
def refuses (s : Server) (r : WebRequest) : Bool :=
  match s.accessToken with
  | none => false
  | some [] => false
  | some (c :: cs) => r.token ≠ some (c :: cs)

def wrongToken : WebResponse := .json 500 (some (py "The access token is wrong.")) none

def ok : WebResponse := .json 200 none none

def busy : WebResponse := .json 500 (some (py "job thread is running or has trigger queue.")) none

/-- `cancel_job`'s default for `reason`. -/
def killReason : PyStr := py "scheduling center kill job."

/-- The first stretch of a route. -/
def arrive (s : Server) (r : WebRequest) : Server :=
  { s with
    requests := s.requests ++ [r]
    place := Function.update s.place s.requests.length
      (if s.refuses r then .answered wrongToken
      else if r.route = .beat then .answered ok
      else .reading) }

/-- `run` after `run_job` has raised: only two of the errors are caught. -/
def runError (w : Site) : RunError → WebResponse
  | .unknownStrategy _ => .serverError
  | e => .json 500 (some (e.message w.str)) none

def runAnswer (w : Site) : Except RunError Reply → WebResponse
  | .ok r => .json 200 (some r.msg) none
  | .error e => runError w e

def killAnswer : Option Exc → WebResponse
  | none => ok
  | some _ => .serverError

/-- `idle_beat` after the body. -/
def idleBeat (s : Server) (j : JobId) : WebResponse :=
  if s.executor.isRunningOrHasQueue j then busy else ok

def logAnswer : Option Json → WebResponse
  | some content => .json 200 none (some content)
  | none => .serverError

/-- A route goes on with the body of its request. -/
def read (w : Site) (s : Server) (n : Nat) (r : WebRequest) : Option Server :=
  match r.route with
  | .beat => none
  | .idleBeat =>
    match requestJson w.limits r.body >>= requestJobId with
    | .error _ => some (s.setPlace n (.answered .serverError))
    | .ok (.int j) => some (s.setPlace n (.answered (s.idleBeat j)))
    | .ok _ => none
  | .run =>
    match readRunData w.limits r.body with
    | .error _ => some (s.setPlace n (.answered .serverError))
    | .ok p =>
      match p.data with
      | some d =>
        some { s.setPlace n (.running d s.executor.nextCall) with executor := s.executor.runJob d }
      | none => none
  | .kill =>
    match requestJson w.limits r.body >>= requestJobId with
    | .error _ => some (s.setPlace n (.answered .serverError))
    | .ok (.int j) => some (s.setPlace n (.sleeping j))
    | .ok _ => none
  | .log =>
    match requestJson w.limits r.body with
    | .error _ => some (s.setPlace n (.answered .serverError))
    | .ok data => some (s.setPlace n (.answered (logAnswer (w.getLogs data))))

inductive Event where
  | arrive (r : WebRequest)
  | read (n : Nat)
  | wake (n : Nat)
  | executor (e : Executor.Event)

def step (w : Site) (s : Server) : Event → Option Server
  | .arrive r => some (s.arrive r)
  | .read n =>
    match s.requests[n]?, s.place n with
    | some r, .reading => s.read w n r
    | _, _ => none
  | .wake n =>
    match s.place n with
    | .sleeping j =>
      if n < s.requests.length then
        some { s.setPlace n (.killing j s.executor.nextCall) with
          executor := s.executor.cancelJob j true killReason }
      else none
    | _ => none
  -- nobody but the route `/run` calls `run_job`
  | .executor (.runJob _) => none
  | .executor e => (s.executor.step e).map fun x => { s with executor := x }

def answer (w : Site) (s : Server) (n : Nat) : Option WebResponse :=
  match s.place n with
  | .answered a => some a
  | .running _ c =>
    match s.executor.call c with
    | .runDone res => some (runAnswer w res)
    | _ => none
  | .killing _ c =>
    match s.executor.call c with
    | .cancelDone exc => some (killAnswer exc)
    | _ => none
  | _ => none

def Reachable (w : Site) (good : Executor → Executor.Event → Prop) (s : Server) : Prop :=
  ∃ handler taskQueueLength accessToken,
    Steps (step w) (fun s e => ∀ e', e = .executor e' → good s.executor e')
      (init handler taskQueueLength accessToken) s

end Server
end Pyxxl
