import Pyxxl.Model

/-!
# Pyxxl.Protocol.AdminClient

The client `XXL` of the admin (`pyxxl/protocol/admin_client.py`): `_post_once`, `_post` and the
calls built on it.

* `Answer`: what comes of one HTTP request, as far as aiohttp tells the code. The body of a
  response is read by `response.json()` or `response.text()`, which may raise.
* `_post` sends its requests one after the other; the answers are given by the number of the round
  and the place of the address in `admin_urls`.
* `Sent` is the record of the requests and of the sleeps between the rounds; no code reads it.
* `str` is Python's `str()`, with which the messages that are no strings come into the texts of the
  errors.
-/

namespace Pyxxl

/-- What aiohttp raises: the first two are the classes `_post` catches, `client` is any other
`aiohttp.ClientError`, and `other` an error from the decoding of a body. -/
inductive HttpError where
  | connection (text : PyStr)
  | timeout (text : PyStr)
  | client (text : PyStr)
  | other (text : PyStr)
  deriving DecidableEq, Repr

structure HttpResponse where
  status : Int
  json : Except HttpError PyVal
  text : Except HttpError PyStr

abbrev Answer := Except HttpError HttpResponse

/-- The record `Response` of a JSON answer. -/
structure Response where
  code : PyVal
  msg : PyVal

/-- `code == 200` holds of the float as well. -/
def Response.ok (r : Response) : Bool :=
  match r.code with
  | .int z => z = 200
  | .float repr => repr = py "200.0"
  | _ => false

/-- What leaves `_post_once`. -/
inductive PostError where
  | http (e : HttpError)
  | xxl (message : PyVal)
  | typeError

namespace XXL

def isStr : PyKey → Bool
  | .str _ => true
  | _ => false

def item (items : List (PyKey × PyVal)) (key : String) : Option PyVal :=
  items.findSome? fun
    | (.str k, v) => if k = py key then some v else none
    | _ => none

/-- `Response(**data)`: `self` is given already, and `code` has no default. -/
def makeResponse : PyVal → Except PostError Response
  | .dict items =>
    if items.all fun kv => isStr kv.1 then
      match item items "self", item items "code" with
      | some _, _ => .error .typeError
      | none, none => .error .typeError
      | none, some code => .ok ⟨code, (item items "msg").getD .none⟩
    else .error .typeError
  | _ => .error .typeError

/-- `bool(v)`. -/
def truthy : PyVal → Bool
  | .none => false
  | .bool b => b
  | .int z => z ≠ 0
  | .float repr => repr ≠ py "0.0" && repr ≠ py "-0.0"
  | .str s => s ≠ []
  | .list xs => !xs.isEmpty
  | .dict items => !items.isEmpty
  | .object _ _ => true

def postOnce : Answer → Except PostError Response
  | .error e => .error (.http e)
  | .ok r =>
    if r.status = 200 then
      match r.json with
      | .error e => .error (.http e)
      | .ok data =>
        match makeResponse data with
        | .error e => .error e
        | .ok response =>
          if response.ok then .ok response
          else .error (.xxl (if truthy response.msg then response.msg else .str []))
    else
      match r.text with
      | .error e => .error (.http e)
      | .ok text => .error (.xxl (.str text))

/-! ## `_post` -/

inductive Sent where
  | post (times address : Nat)
  | sleep
  deriving DecidableEq, Repr

structure Round where
  hadRetryableError : Bool
  lastError : Option PyStr

/-- How the addresses of one round are left. -/
inductive RoundEnd where
  | returned (r : Response)
  | raised (e : PostError)
  | ended (round : Round)

/-- The text `f"{admin_url} {err}"`. -/
def errorText (url text : PyStr) : PyStr := url ++ py " " ++ text

/-- `f"{v}"`: a string is its own text. -/
def formatted (str : PyVal → PyStr) : PyVal → PyStr
  | .str s => s
  | v => str v

/-- The loop over the addresses, with these left of which the first is number `i`. -/
def tryAddresses (str : PyVal → PyStr) (times : Nat) (answer : Nat → Answer) :
    List PyStr → Nat → Round → List Sent × RoundEnd
  | [], _, round => ([], .ended round)
  | url :: rest, i, round =>
    match postOnce (answer i) with
    | .ok r => ([.post times i], .returned r)
    | .error e =>
      match e with
      | .http (.connection text) | .http (.timeout text) =>
        let (sent, res) := tryAddresses str times answer rest (i + 1) ⟨true, some (errorText url text)⟩
        (.post times i :: sent, res)
      | .xxl message =>
        let (sent, res) := tryAddresses str times answer rest (i + 1)
          { round with lastError := some (errorText url (formatted str message)) }
        (.post times i :: sent, res)
      | e => ([.post times i], .raised e)

def noAttempt : PyStr := py "Connection error after retry times 0"

/-- The rounds, with so many left. -/
def postRounds (str : PyVal → PyStr) (urls : List PyStr) (answers : Nat → Nat → Answer) :
    Nat → Nat → Option PyStr → List Sent × Except PostError Response
  | 0, _, lastError => ([], .error (.xxl (.str (lastError.getD noAttempt))))
  | left + 1, times, lastError =>
    match tryAddresses str times (answers times) urls 0 ⟨false, lastError⟩ with
    | (sent, .returned r) => (sent, .ok r)
    | (sent, .raised e) => (sent, .error e)
    | (sent, .ended round) =>
      if round.hadRetryableError ∧ 0 < left then
        let (sent', res) := postRounds str urls answers left (times + 1) round.lastError
        (sent ++ .sleep :: sent', res)
      else (sent, .error (.xxl (.str (round.lastError.getD noAttempt))))

end XXL

/-- A client, as `__init__` has made it. -/
structure XXL where
  adminUrls : List PyStr
  retryTimes : Int
  str : PyVal → PyStr

namespace XXL

/-- `retry_times or self.retry_times`. -/
def attempts (c : XXL) : Option Int → Int
  | none => c.retryTimes
  | some n => if n = 0 then c.retryTimes else n

def post (c : XXL) (retryTimes : Option Int) (answers : Nat → Nat → Answer) :
    List Sent × Except PostError Response :=
  postRounds c.str c.adminUrls answers (c.attempts retryTimes).toNat 1 none

def registry (c : XXL) (answers : Nat → Nat → Answer) : List Sent × Except PostError Bool :=
  match c.post (some 5) answers with
  | (sent, .ok _) => (sent, .ok true)
  | (sent, .error (.xxl _)) => (sent, .ok false)
  | (sent, .error e) => (sent, .error e)

def registryRemove (c : XXL) (answers : Nat → Nat → Answer) : List Sent × Except PostError Unit :=
  match c.post (some 3) answers with
  | (sent, .ok _) => (sent, .ok ())
  | (sent, .error e) => (sent, .error e)

/-- So many rounds of the loop of `PyxxlRunner._register_task`: `none` while it goes on. -/
def registerTask (c : XXL) (answers : Nat → Nat → Nat → Answer) : Nat → Option PostError
  | 0 => none
  | n + 1 =>
    match registerTask c answers n with
    | some e => some e
    | none =>
      match (c.registry (answers n)).2 with
      | .ok _ => none
      | .error e => some e

end XXL
end Pyxxl
