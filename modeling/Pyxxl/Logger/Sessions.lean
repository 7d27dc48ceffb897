import Mathlib.Logic.Function.Basic
import Pyxxl.Lib.PosixPath
import Pyxxl.Lib.Transition
import Pyxxl.Logger.Backends

/-!
# Pyxxl.Logger.Sessions

The loggers of the tasks of one process: `new_logger` enters a session of a `logId`, the task logs,
and the session is left. Sessions of different tasks overlap as they like.

* the loggers belong to the process and go by their names; a handler goes by its number.
* a record comes with what `TASK_FORMATTER` makes of it, and with whether the store takes what is
  written then; `encodes` is what the encoding of the store can write.
* `session`, `left`, `logged` and `appended` are records of what happened; no code reads them.
* `StoredOnce`, `Cleared`: what is to hold of a run; `records_stored_once`: when it does.
-/

namespace Pyxxl

open Transition

inductive Sink where
  | stream
  | file (path : PyStr)
  | redis (key : PyStr)
  deriving DecidableEq, Repr

structure LogHandler where
  number : Nat
  sink : Sink
  level : Nat
  deriving DecidableEq, Repr

def LogHandler.isFile (h : LogHandler) : Bool :=
  match h.sink with
  | .file _ => true
  | _ => false

/-- The handler writes to the store of the backend. -/
def LogHandler.stores (h : LogHandler) : Bool := h.sink != .stream

structure TaskLogger where
  level : Nat
  propagate : Bool
  handlers : List LogHandler

structure LogRecord where
  level : Nat
  /-- `none`: the message does not fit its arguments. -/
  line : Option PyStr
  up : Bool
  /-- Where the store does not take the record: whether the file is open by then. -/
  opened : Bool := true

/-- `logging.INFO`. -/
def info : Nat := 20

def maxLogTailLines : Int := 1000

inductive LogFactory where
  /-- With the absolute path of the directory. -/
  | diskLog (logPath : PyStr)
  | redisLog (app : PyStr)

namespace LogFactory

def fileName (logId : LogId) : PyStr := py "pyxxl-" ++ pyInt logId ++ py ".log"

def key (f : LogFactory) (logId : LogId) : PyStr :=
  match f with
  | .diskLog logPath => PosixPath.join logPath (fileName logId)
  | .redisLog app => py "pyxxl:log:" ++ app ++ py ":" ++ pyInt logId

def loggerName (f : LogFactory) (logId : LogId) : PyStr :=
  match f with
  | .diskLog _ => py "pyxxl.task_log.disk.task-\x7b" ++ pyInt logId ++ py "\x7d"
  | .redisLog _ => py "pyxxl.task_log.redis.task-\x7b" ++ pyInt logId ++ py "\x7d"

def sink (f : LogFactory) (logId : LogId) : Sink :=
  match f with
  | .diskLog _ => .file (f.key logId)
  | .redisLog _ => .redis (f.key logId)

/-- The handlers `get_logger` makes. -/
def handlers (f : LogFactory) (logId : LogId) (stdout : Bool) (level next : Nat) :
    List LogHandler :=
  ((if stdout then [Sink.stream] else []) ++ [f.sink logId]).mapIdx fun i sink =>
    ⟨next + i, sink, level⟩

/-- `after_running`; `RedisLog` has the one of `LogBase`. What `DiskLog` logs there is below the
level of the logger. -/
def afterRunning (f : LogFactory) (logger : TaskLogger) : TaskLogger :=
  match f with
  | .diskLog _ =>
    { logger with
      handlers := (logger.handlers.filter LogHandler.isFile).foldl List.erase logger.handlers }
  | .redisLog _ => logger

/-- What is left on the logger of the handlers of the sessions that are over. -/
def kept (f : LogFactory) (left : List LogHandler) : List LogHandler :=
  match f with
  | .diskLog _ => []
  | .redisLog _ => left

/-- What the store keeps of the texts that were appended. -/
def window (f : LogFactory) (texts : List PyStr) : List PyStr :=
  match f with
  | .diskLog _ => texts
  | .redisLog _ => texts.drop (texts.length - maxLogTailLines.toNat)

/-- How often a record is appended in the session `round` of its `logId`. -/
def copies (f : LogFactory) (round : Nat) : Nat :=
  match f with
  | .diskLog _ => 1
  | .redisLog _ => round

end LogFactory

/-! ## Names and keys -/

theorem py_injective : Function.Injective py := by
  intro s t h
  have hl : s.toList = t.toList := List.map_injective_iff.mpr (fun _ _ => Char.toNat_inj.mp) h
  exact String.toList_inj.mp hl

theorem toList_toString (z : Int) : (toString z).toList =
    if z < 0 then '-' :: Nat.toDigits 10 z.natAbs else Nat.toDigits 10 z.natAbs := by
  cases z with
  | ofNat n =>
    rw [if_neg (show ¬Int.ofNat n < 0 from Int.not_lt.mpr (Int.natCast_nonneg n))]
    exact Nat.toList_repr
  | negSucc n =>
    rw [if_pos (Int.negSucc_lt_zero n)]
    show ("-" ++ toString (n + 1)).toList = _
    rw [String.toList_append]
    exact congrArg ('-' :: ·) Nat.toList_repr

theorem toDigits_injective : Function.Injective (Nat.toDigits 10) := by
  intro m n h
  have hd := congrArg (Nat.ofDigitChars 10 · 0) h
  simpa only [Nat.ofDigitChars_ten_toDigits] using hd

/-- Digits do not begin with a minus sign. -/
theorem toDigits_ne_minus (m : Nat) (t : List Char) : Nat.toDigits 10 m ≠ '-' :: t := by
  intro h
  have hd : '-'.isDigit = true :=
    Nat.isDigit_of_mem_toDigits (by decide) (by decide) (h ▸ List.mem_cons_self ..)
  cases hd

theorem pyInt_injective : Function.Injective pyInt := by
  intro a b h
  have ht : (toString a).toList = (toString b).toList := congrArg String.toList (py_injective h)
  rw [toList_toString, toList_toString] at ht
  have hn : a.natAbs = b.natAbs ∧ (a < 0 ↔ b < 0) := by
    split at ht
    · split at ht
      · exact ⟨toDigits_injective (List.cons.inj ht).2, by simp only [*]⟩
      · exact absurd ht.symm (toDigits_ne_minus _ _)
    · split at ht
      · exact absurd ht (toDigits_ne_minus _ _)
      · exact ⟨toDigits_injective ht, by simp only [*]⟩
  omega

theorem slash_not_mem_pyInt (z : Int) : PosixPath.slash ∉ pyInt z := by
  intro h
  obtain ⟨d, hd, hs⟩ := List.mem_map.mp h
  have hdigit : d ∉ Nat.toDigits 10 z.natAbs := by
    intro hm
    have hd := Char.isDigit_iff_toNat.mp (Nat.isDigit_of_mem_toDigits (by decide) (by decide) hm)
    rw [hs] at hd
    exact absurd hd.1 (by decide)
  rw [toList_toString] at hd
  split at hd
  · rcases List.mem_cons.mp hd with rfl | hd
    · cases hs
    · exact hdigit hd
  · exact hdigit hd

namespace LogFactory

theorem slash_not_mem_fileName (l : LogId) : PosixPath.slash ∉ fileName l := by
  intro h
  rcases List.mem_append.mp h with h | h
  · rcases List.mem_append.mp h with h | h
    · exact absurd h (by decide)
    · exact slash_not_mem_pyInt l h
  · exact absurd h (by decide)

theorem parts_fileName (p : PyStr) (l : LogId) :
    PosixPath.parts (PosixPath.join p (fileName l)) = PosixPath.parts p ++ [fileName l] :=
  PosixPath.parts_join p (slash_not_mem_fileName l) nofun nofun

theorem key_injective (f : LogFactory) : Function.Injective f.key := by
  intro l l' h
  cases f with
  | diskLog p =>
    have hparts := congrArg PosixPath.parts h
    rw [key, key, parts_fileName, parts_fileName] at hparts
    have hn := (List.cons.inj (List.append_cancel_left hparts)).1
    exact pyInt_injective (List.append_cancel_left (List.append_cancel_right hn))
  | redisLog a => exact pyInt_injective (List.append_cancel_left h)

theorem loggerName_injective (f : LogFactory) : Function.Injective f.loggerName := by
  intro l l' h
  cases f with
  | diskLog p => exact pyInt_injective (List.append_cancel_left (List.append_cancel_right h))
  | redisLog a => exact pyInt_injective (List.append_cancel_left (List.append_cancel_right h))

end LogFactory

/-! ## The process -/

/-- A record that was logged, and in which session of its `logId`. -/
structure Logged where
  logId : LogId
  record : LogRecord
  round : Nat

structure Appended where
  key : PyStr
  record : Nat
  text : PyStr

structure LogState where
  loggers : PyStr → TaskLogger
  nextHandler : Nat
  /-- The lines of a file, or the elements of a Redis list. -/
  stored : PyStr → List PyStr
  /-- The handler of the store that was made for the session. -/
  session : LogId → Option LogHandler
  left : LogId → List LogHandler
  logged : List Logged
  appended : List Appended

namespace LogState

def start : LogState where
  loggers _ := { level := 0, propagate := true, handlers := [] }
  nextHandler := 0
  stored _ := []
  session _ := none
  left _ := []
  logged := []
  appended := []

def setLogger (s : LogState) (name : PyStr) (logger : TaskLogger) : LogState :=
  { s with loggers := Function.update s.loggers name logger }

def setSession (s : LogState) (logId : LogId) (h : Option LogHandler) : LogState :=
  { s with session := Function.update s.session logId h }

/-- The record `n` is written under `key`, which leaves `texts` there. -/
def write (s : LogState) (key : PyStr) (n : Nat) (text : PyStr) (texts : List PyStr) : LogState :=
  { s with
    stored := Function.update s.stored key texts
    appended := s.appended ++ [⟨key, n, text⟩] }

/-- `handler.emit(record)`, and whether it raises. A file handler opens its file at its first record,
and raises what `open` does; what it fails at later `logging` reports. `RedisHandler` only catches a
`RedisError`. -/
def emit (encodes : PyStr → Bool) (n : Nat) (r : LogRecord) (s : LogState) (h : LogHandler) :
    LogState × Bool :=
  match h.sink, r.line with
  | .stream, _ => (s, false)
  | .file _, none => (s, !r.up && !r.opened)
  | .file path, some line =>
    let text := line ++ RedisLog.terminator
    if r.up && encodes text then (s.write path n text (s.stored path ++ [text]), false)
    else (s, !r.up && !r.opened)
  | .redis _, none => (s, true)
  | .redis key, some line =>
    let text := line ++ RedisLog.terminator
    if r.up then
      if encodes text then
        (s.write key n text (RedisLog.emit maxLogTailLines (s.stored key) line), false)
      else (s, true)
    else (s, false)

/-- `Logger.callHandlers`: a handler that raises leaves the others out. -/
def callHandlers (encodes : PyStr → Bool) (n : Nat) (r : LogRecord) :
    LogState → List LogHandler → LogState
  | s, [] => s
  | s, h :: hs =>
    if h.level ≤ r.level then
      match emit encodes n r s h with
      | (s', true) => s'
      | (s', false) => callHandlers encodes n r s' hs
    else callHandlers encodes n r s hs

/-- `get_logger`. -/
def getLogger (f : LogFactory) (s : LogState) (logId : LogId) (stdout : Bool) (level : Nat) :
    LogState :=
  let made := f.handlers logId stdout level s.nextHandler
  { s.setLogger (f.loggerName logId)
      { level := level
        propagate := false
        handlers := (s.loggers (f.loggerName logId)).handlers ++ made } with
    nextHandler := s.nextHandler + made.length }

/-- `new_logger` up to its `yield`. -/
def enter (f : LogFactory) (s : LogState) (logId : LogId) : LogState :=
  (s.getLogger f logId true info).setSession logId
    ((f.handlers logId true info s.nextHandler).find? LogHandler.stores)

/-- The rest of `new_logger`. -/
def leave (f : LogFactory) (s : LogState) (logId : LogId) (h : LogHandler) : LogState :=
  { (s.setLogger (f.loggerName logId)
      (f.afterRunning (s.loggers (f.loggerName logId)))).setSession logId none with
    left := Function.update s.left logId (s.left logId ++ [h]) }

/-- A call like `logger.info(..)`. -/
def log (f : LogFactory) (encodes : PyStr → Bool) (s : LogState) (logId : LogId) (r : LogRecord) :
    LogState :=
  let logger := s.loggers (f.loggerName logId)
  if logger.level ≤ r.level then
    { callHandlers encodes s.logged.length r s logger.handlers with
      logged := s.logged ++ [⟨logId, r, (s.left logId).length + 1⟩] }
  else s

inductive Move where
  | enter (logId : LogId)
  | log (logId : LogId) (r : LogRecord)
  | leave (logId : LogId)

def step (f : LogFactory) (encodes : PyStr → Bool) (s : LogState) : Move → Option LogState
  | .enter logId => if s.session logId = none then some (s.enter f logId) else none
  | .log logId r => if s.session logId = none then none else some (s.log f encodes logId r)
  | .leave logId => (s.session logId).map (s.leave f logId)

/-- How often the record `n` was appended under `key`. -/
def times (s : LogState) (key : PyStr) (n : Nat) : Nat :=
  s.appended.countP fun a => a.key = key ∧ a.record = n

/-- Each record was appended once to the log of its `logId`, and to no other. -/
def StoredOnce (f : LogFactory) (s : LogState) : Prop :=
  ∀ n e, s.logged[n]? = some e → ∀ key, s.times key n = if key = f.key e.logId then 1 else 0

/-- No handler of a session that was left is on its logger. -/
def Cleared (f : LogFactory) (s : LogState) : Prop :=
  ∀ logId, ∀ h ∈ s.left logId, h ∉ (s.loggers (f.loggerName logId)).handlers

/-- The record has a text, and the store takes it. -/
def Writable (encodes : PyStr → Bool) (r : LogRecord) : Prop :=
  r.up = true ∧ r.line.any (fun line => encodes (line ++ RedisLog.terminator)) = true

instance (encodes : PyStr → Bool) (r : LogRecord) : Decidable (Writable encodes r) :=
  inferInstanceAs (Decidable (_ ∧ _))

theorem Writable.line {encodes : PyStr → Bool} {r : LogRecord} (hw : Writable encodes r) :
    ∃ line, r.line = some line ∧ encodes (line ++ RedisLog.terminator) = true := by
  have he := hw.2
  cases hl : r.line with
  | none =>
    rw [hl] at he
    cases he
  | some line =>
    rw [hl] at he
    exact ⟨line, rfl, he⟩

variable {f : LogFactory} {encodes : PyStr → Bool} {s s' : LogState} {l l' : LogId} {n : Nat}
  {r : LogRecord} {h : LogHandler} {hs : List LogHandler}

/-! ## One call of the handlers -/

theorem emit_frame (encodes : PyStr → Bool) (n : Nat) (r : LogRecord) (s : LogState)
    (h : LogHandler) : ∃ stored appended,
      (emit encodes n r s h).1 = { s with stored := stored, appended := appended } := by
  unfold emit
  split
  · exact ⟨_, _, rfl⟩
  · exact ⟨_, _, rfl⟩
  · dsimp only
    split
    · exact ⟨_, _, rfl⟩
    · exact ⟨_, _, rfl⟩
  · exact ⟨_, _, rfl⟩
  · dsimp only
    split
    · split
      · exact ⟨_, _, rfl⟩
      · exact ⟨_, _, rfl⟩
    · exact ⟨_, _, rfl⟩

/-- Handlers write to the store, and nothing else. -/
theorem callHandlers_frame (encodes : PyStr → Bool) (n : Nat) (r : LogRecord) (s : LogState)
    (hs : List LogHandler) : ∃ stored appended,
      callHandlers encodes n r s hs = { s with stored := stored, appended := appended } := by
  induction hs generalizing s with
  | nil => exact ⟨_, _, rfl⟩
  | cons h hs ih =>
    unfold callHandlers
    obtain ⟨stored, appended, he⟩ := emit_frame encodes n r s h
    split
    · split
      · rename_i s' hs'
        rw [hs'] at he
        exact ⟨stored, appended, he⟩
      · rename_i s' hs'
        rw [hs'] at he
        obtain rfl : s' = _ := he
        exact ih _
    · exact ih s

/-- The handlers that stand on the logger of a `logId`. -/
def OnLogger (f : LogFactory) (l : LogId) (h : LogHandler) : Prop :=
  h.level = info ∧ (h.sink = .stream ∨ h.sink = f.sink l)

theorem sink_cases (f : LogFactory) (l : LogId) :
    (∃ p, f = .diskLog p ∧ f.sink l = .file (f.key l)) ∨
      ∃ a, f = .redisLog a ∧ f.sink l = .redis (f.key l) := by
  cases f with
  | diskLog p => exact .inl ⟨p, rfl, rfl⟩
  | redisLog a => exact .inr ⟨a, rfl, rfl⟩

theorem emit_writable {line : PyStr} (hup : r.up = true) (hl : r.line = some line)
    (he : encodes (line ++ RedisLog.terminator) = true) (hh : OnLogger f l h) :
    (emit encodes n r s h).2 = false ∧ (emit encodes n r s h).1.appended =
      s.appended ++ List.replicate ([h].countP LogHandler.stores)
        ⟨f.key l, n, line ++ RedisLog.terminator⟩ := by
  obtain ⟨number, sink, level⟩ := h
  obtain ⟨-, hs⟩ := hh
  rcases hs with hs | hs
  · obtain rfl : sink = .stream := hs
    exact ⟨rfl, (List.append_nil _).symm⟩
  · obtain rfl : sink = f.sink l := hs
    rcases sink_cases f l with ⟨-, -, hf⟩ | ⟨-, -, hf⟩
    · simp only [emit, hf, hl, hup, he, Bool.and_self, if_true]
      exact ⟨trivial, rfl⟩
    · simp only [emit, hf, hl, hup, he, if_true]
      exact ⟨trivial, rfl⟩

theorem emit_unwritable (hw : ¬Writable encodes r) :
    (emit encodes n r s h).1.appended = s.appended := by
  unfold emit
  split
  · rfl
  · rfl
  · rename_i line _ hl
    dsimp only
    split
    · rename_i hc
      rw [Bool.and_eq_true] at hc
      exact absurd ⟨hc.1, by rw [hl]; exact hc.2⟩ hw
    · rfl
  · rfl
  · rename_i line _ hl
    dsimp only
    split
    · rename_i hup
      split
      · rename_i he
        exact absurd ⟨hup, by rw [hl]; exact he⟩ hw
      · rfl
    · rfl

/-- A writable record is appended by each handler that has a store. -/
theorem callHandlers_writable {line : PyStr} (hup : r.up = true) (hl : r.line = some line)
    (he : encodes (line ++ RedisLog.terminator) = true) (hi : info ≤ r.level)
    (hh : ∀ h ∈ hs, OnLogger f l h) :
    (callHandlers encodes n r s hs).appended = s.appended ++
      List.replicate (hs.countP LogHandler.stores)
        ⟨f.key l, n, line ++ RedisLog.terminator⟩ := by
  induction hs generalizing s with
  | nil => exact (List.append_nil _).symm
  | cons h hs ih =>
    obtain ⟨hraise, happ⟩ :=
      emit_writable hup hl he (hh h (List.mem_cons_self ..)) (n := n) (s := s)
    have hle : h.level ≤ r.level := (hh h (List.mem_cons_self ..)).1 ▸ hi
    have hcall : callHandlers encodes n r s (h :: hs) =
        callHandlers encodes n r (emit encodes n r s h).1 hs := by
      rw [callHandlers, if_pos hle]
      split
      · rename_i s' hs'
        rw [hs'] at hraise
        cases hraise
      · rename_i s' hs'
        rw [hs']
    rw [hcall, ih fun h hm => hh h (List.mem_cons_of_mem _ hm), happ, List.append_assoc,
      List.replicate_append_replicate, ← List.countP_append, List.singleton_append]

theorem callHandlers_unwritable (hw : ¬Writable encodes r) :
    (callHandlers encodes n r s hs).appended = s.appended := by
  induction hs generalizing s with
  | nil => rfl
  | cons h hs ih =>
    have he := emit_unwritable hw (n := n) (s := s) (h := h)
    unfold callHandlers
    split
    · split
      · rename_i s' hs'
        rw [hs'] at he
        exact he
      · rename_i s' hs'
        rw [hs'] at he
        rw [ih, he]
    · exact ih

/-! ## One session -/

theorem foldl_erase_cons {α : Type} [DecidableEq α] {a : α} {xs : List α} (ha : a ∉ xs)
    (ys : List α) : xs.foldl List.erase (a :: ys) = a :: xs.foldl List.erase ys := by
  induction xs generalizing ys with
  | nil => rfl
  | cons x xs ih =>
    have hx : ¬(a == x) = true := fun h => ha (eq_of_beq h ▸ List.mem_cons_self ..)
    rw [List.foldl_cons, List.erase_cons_tail hx, ih fun h => ha (List.mem_cons_of_mem _ h)]
    rfl

theorem foldl_erase_filter {α : Type} [DecidableEq α] (p : α → Bool) (xs : List α) :
    (xs.filter p).foldl List.erase xs = xs.filter fun x => !p x := by
  induction xs with
  | nil => rfl
  | cons x xs ih =>
    cases hp : p x with
    | true =>
      rw [List.filter_cons_of_pos hp, List.foldl_cons, List.erase_cons_head, ih,
        List.filter_cons_of_neg (by rw [hp]; exact nofun)]
    | false =>
      have hx : x ∉ xs.filter p := fun h => by
        rw [(List.mem_filter.mp h).2] at hp
        cases hp
      rw [List.filter_cons_of_neg (by rw [hp]; exact nofun), foldl_erase_cons hx, ih,
        List.filter_cons_of_pos (by rw [hp]; rfl)]

/-- The handler of the store that a session of `logId` gets. -/
def made (f : LogFactory) (s : LogState) (logId : LogId) : LogHandler :=
  ⟨s.nextHandler + 1, f.sink logId, info⟩

theorem stores_made : (made f s l).stores = true := by
  rcases sink_cases f l with ⟨-, -, hf⟩ | ⟨-, -, hf⟩
  · rw [LogHandler.stores, made, hf]
    rfl
  · rw [LogHandler.stores, made, hf]
    rfl

theorem enter_eq (f : LogFactory) (s : LogState) (l : LogId) : s.enter f l =
    { s with
      loggers := Function.update s.loggers (f.loggerName l)
        { level := info
          propagate := false
          handlers := (s.loggers (f.loggerName l)).handlers ++
            [⟨s.nextHandler, .stream, info⟩, made f s l] }
      nextHandler := s.nextHandler + 2
      session := Function.update s.session l (some (made f s l)) } := by
  have hfind : (f.handlers l true info s.nextHandler).find? LogHandler.stores =
      some (made f s l) := by
    show ([⟨s.nextHandler, .stream, info⟩, made f s l] : List LogHandler).find? _ = _
    rw [List.find?_cons_of_neg (by exact nofun), List.find?_cons_of_pos stores_made]
  unfold enter
  rw [hfind]
  rfl

/-- What holds of the logger of a `logId`. -/
structure Held (f : LogFactory) (s : LogState) (l : LogId) : Prop where
  handlers : ∀ h ∈ (s.loggers (f.loggerName l)).handlers, OnLogger f l h
  level : s.session l ≠ none → (s.loggers (f.loggerName l)).level = info
  held : (s.loggers (f.loggerName l)).handlers.filter LogHandler.stores =
    f.kept (s.left l) ++ (s.session l).toList
  ordered : (s.left l ++ (s.session l).toList).Pairwise fun h h' => h.number < h'.number
  fresh : ∀ h ∈ s.left l ++ (s.session l).toList, h.number < s.nextHandler
  stores : ∀ h ∈ s.left l ++ (s.session l).toList, h.stores = true

structure Inv (f : LogFactory) (encodes : PyStr → Bool) (s : LogState) : Prop where
  held : ∀ l, Held f s l
  counts : ∀ n e, s.logged[n]? = some e → ∀ key,
    s.times key n =
      if key = f.key e.logId ∧ Writable encodes e.record then f.copies e.round else 0
  unwritten : ∀ n, s.logged.length ≤ n → ∀ key, s.times key n = 0
  rounds : ∀ e ∈ s.logged, 1 ≤ e.round ∧ e.round ≤ (s.left e.logId).length + 1

theorem Held.frame (hv : Held f s l)
    (hlog : s'.loggers (f.loggerName l) = s.loggers (f.loggerName l))
    (hses : s'.session l = s.session l) (hleft : s'.left l = s.left l)
    (hnext : s.nextHandler ≤ s'.nextHandler) : Held f s' l where
  handlers := hlog ▸ hv.handlers
  level := by rw [hlog, hses]; exact hv.level
  held := by rw [hlog, hses, hleft]; exact hv.held
  ordered := by rw [hses, hleft]; exact hv.ordered
  fresh h hm := by
    rw [hses, hleft] at hm
    exact Nat.lt_of_lt_of_le (hv.fresh h hm) hnext
  stores := by rw [hses, hleft]; exact hv.stores

theorem inv_start : Inv f encodes start where
  held l := by
    constructor
    · exact nofun
    · exact fun h => absurd rfl h
    · cases f with
      | diskLog p => rfl
      | redisLog a => rfl
    · exact .nil
    · exact nofun
    · exact nofun
  counts n e h := by cases h
  unwritten n _ key := rfl
  rounds e h := by cases h

theorem Held.enter (hv : Held f s l) (hn : s.session l = none) : Held f (s.enter f l) l := by
  rw [enter_eq]
  have hh := hv.held
  have ho := hv.ordered
  have hf := hv.fresh
  have hst := hv.stores
  rw [hn, Option.toList_none, List.append_nil] at hh ho hf hst
  constructor
  · dsimp only
    rw [Function.update_self]
    intro h hm
    rcases List.mem_append.mp hm with hm | hm
    · exact hv.handlers h hm
    · rcases List.mem_cons.mp hm with rfl | hm
      · exact ⟨rfl, .inl rfl⟩
      · rw [List.mem_singleton.mp hm]
        exact ⟨rfl, .inr rfl⟩
  · intro _
    dsimp only
    rw [Function.update_self]
  · dsimp only
    rw [Function.update_self, Function.update_self, List.filter_append, hh,
      List.filter_cons_of_neg (by exact nofun), List.filter_cons_of_pos stores_made]
    rfl
  · dsimp only
    rw [Function.update_self, Option.toList_some, List.pairwise_append]
    refine ⟨ho, List.pairwise_singleton _ _, fun h hm h' hm' => ?_⟩
    rw [List.mem_singleton.mp hm']
    exact Nat.lt_succ_of_lt (hf h hm)
  · dsimp only
    rw [Function.update_self, Option.toList_some]
    intro h hm
    rcases List.mem_append.mp hm with hm | hm
    · exact Nat.lt_add_right 2 (hf h hm)
    · rw [List.mem_singleton.mp hm]
      exact Nat.lt_succ_self _
  · dsimp only
    rw [Function.update_self, Option.toList_some]
    intro h hm
    rcases List.mem_append.mp hm with hm | hm
    · exact hst h hm
    · rw [List.mem_singleton.mp hm]
      exact stores_made

theorem Inv.enter (hv : Inv f encodes s) (hn : s.session l = none) :
    Inv f encodes (s.enter f l) where
  held l' := by
    by_cases hl : l' = l
    · subst hl
      exact (hv.held l').enter hn
    · apply (hv.held l').frame
      · rw [enter_eq]
        exact Function.update_of_ne (f.loggerName_injective.ne hl) ..
      · rw [enter_eq]
        exact Function.update_of_ne hl ..
      · rfl
      · rw [enter_eq]
        exact Nat.le_add_right ..
  counts := hv.counts
  unwritten := hv.unwritten
  rounds := hv.rounds

theorem mem_afterRunning {logger : TaskLogger} (hm : h ∈ (f.afterRunning logger).handlers) :
    h ∈ logger.handlers := by
  cases f with
  | diskLog p =>
    unfold LogFactory.afterRunning at hm
    dsimp only at hm
    rw [foldl_erase_filter] at hm
    exact (List.mem_filter.mp hm).1
  | redisLog a => exact hm

/-- `DiskLog` takes the handlers of the store off the logger, and `RedisLog` none. -/
theorem filter_afterRunning {logger : TaskLogger} (hh : ∀ h ∈ logger.handlers, OnLogger f l h) :
    (f.afterRunning logger).handlers.filter LogHandler.stores =
      f.kept (logger.handlers.filter LogHandler.stores) := by
  cases f with
  | diskLog p =>
    unfold LogFactory.afterRunning
    dsimp only
    rw [foldl_erase_filter, LogFactory.kept, List.filter_filter, List.filter_eq_nil_iff]
    intro h hm hc
    rw [Bool.and_eq_true, LogHandler.stores, LogHandler.isFile] at hc
    rcases (hh h hm).2 with hs | hs
    · rw [hs] at hc
      cases hc.1
    · rw [hs] at hc
      cases hc.2
  | redisLog a => rfl

theorem Held.leave (hv : Held f s l) (hn : s.session l = some h) : Held f (s.leave f l h) l := by
  have hh := hv.held
  have ho := hv.ordered
  have hf := hv.fresh
  have hst := hv.stores
  rw [hn, Option.toList_some] at hh ho hf hst
  have hlog : (s.leave f l h).loggers (f.loggerName l) =
      f.afterRunning (s.loggers (f.loggerName l)) := Function.update_self ..
  have hses : (s.leave f l h).session l = none := Function.update_self ..
  have hleft : (s.leave f l h).left l = s.left l ++ [h] := Function.update_self ..
  constructor
  · rw [hlog]
    exact fun h' hm => hv.handlers h' (mem_afterRunning hm)
  · exact fun hne => absurd hses hne
  · rw [hlog, filter_afterRunning hv.handlers, hh, hleft, hses, Option.toList_none,
      List.append_nil]
    cases f with
    | diskLog p => rfl
    | redisLog a => rfl
  · rw [hleft, hses, Option.toList_none, List.append_nil]
    exact ho
  · rw [hleft, hses, Option.toList_none, List.append_nil]
    exact hf
  · rw [hleft, hses, Option.toList_none, List.append_nil]
    exact hst

theorem Inv.leave (hv : Inv f encodes s) (hn : s.session l = some h) :
    Inv f encodes (s.leave f l h) where
  held l' := by
    by_cases hl : l' = l
    · subst hl
      exact (hv.held l').leave hn
    · apply (hv.held l').frame
      · exact Function.update_of_ne (f.loggerName_injective.ne hl) ..
      · exact Function.update_of_ne hl ..
      · exact Function.update_of_ne hl ..
      · exact Nat.le_refl _
  counts := hv.counts
  unwritten := hv.unwritten
  rounds e he := by
    obtain ⟨hone, hle⟩ := hv.rounds e he
    refine ⟨hone, ?_⟩
    by_cases hl : e.logId = l
    · have hleft : (s.leave f l h).left l = s.left l ++ [h] := Function.update_self ..
      rw [hl, hleft, List.length_append]
      rw [hl] at hle
      exact Nat.le_succ_of_le hle
    · have hleft : (s.leave f l h).left e.logId = s.left e.logId := Function.update_of_ne hl ..
      rw [hleft]
      exact hle

/-- A call of the logger: the record is appended once for each handler of the store. -/
theorem Held.log (hv : Held f s l) (encodes : PyStr → Bool) (hn : s.session l ≠ none)
    (hi : info ≤ r.level) :
    ∃ stored text, s.log f encodes l r =
      { s with
        stored := stored
        logged := s.logged ++ [⟨l, r, (s.left l).length + 1⟩]
        appended := s.appended ++
          List.replicate (if Writable encodes r then f.copies ((s.left l).length + 1) else 0)
            ⟨f.key l, s.logged.length, text⟩ } := by
  obtain ⟨stored, appended, hc⟩ := callHandlers_frame encodes s.logged.length r s
    (s.loggers (f.loggerName l)).handlers
  have happ := congrArg LogState.appended hc
  have hlevel : (s.loggers (f.loggerName l)).level ≤ r.level := hv.level hn ▸ hi
  unfold LogState.log
  dsimp only at happ ⊢
  rw [if_pos hlevel, hc]
  by_cases hw : Writable encodes r
  · obtain ⟨line, hl, he⟩ := hw.line
    have hcount : (s.loggers (f.loggerName l)).handlers.countP LogHandler.stores =
        f.copies ((s.left l).length + 1) := by
      obtain ⟨h, hs⟩ := Option.ne_none_iff_exists'.mp hn
      rw [List.countP_eq_length_filter, hv.held, hs]
      cases f with
      | diskLog p => rfl
      | redisLog a => exact List.length_append
    rw [callHandlers_writable hw.1 hl he hi hv.handlers, hcount] at happ
    refine ⟨stored, line ++ RedisLog.terminator, ?_⟩
    rw [if_pos hw, happ]
  · rw [callHandlers_unwritable hw] at happ
    refine ⟨stored, [], ?_⟩
    rw [if_neg hw, List.replicate_zero, List.append_nil, happ]

theorem countP_replicate_entry (k : Nat) (a : Appended) (key : PyStr) (m : Nat) :
    (List.replicate k a).countP (fun a => a.key = key ∧ a.record = m) =
      if a.key = key ∧ a.record = m then k else 0 := by
  rw [List.countP_replicate]
  simp only [decide_eq_true_eq]

theorem Inv.log (hv : Inv f encodes s) (hn : s.session l ≠ none) :
    Inv f encodes (s.log f encodes l r) := by
  by_cases hi : info ≤ r.level
  · obtain ⟨stored, text, hlog⟩ := (hv.held l).log encodes hn hi
    rw [hlog]
    constructor
    · exact fun l' => (hv.held l').frame rfl rfl rfl (Nat.le_refl _)
    · intro n e he key
      unfold times
      dsimp only at he ⊢
      rw [List.countP_append, countP_replicate_entry]
      rcases Nat.lt_trichotomy n s.logged.length with hlt | rfl | hgt
      · rw [List.getElem?_append_left hlt] at he
        rw [if_neg (fun hc => Nat.ne_of_gt hlt hc.2), Nat.add_zero]
        exact hv.counts n e he key
      · rw [List.getElem?_append_right (Nat.le_refl _), Nat.sub_self] at he
        obtain rfl : _ = e := Option.some.inj he
        have hz := hv.unwritten _ (Nat.le_refl _) key
        unfold times at hz
        rw [hz, Nat.zero_add]
        by_cases hw : Writable encodes r
        · simp only [hw, and_true, if_true, eq_comm (a := key)]
        · simp only [hw, and_false, if_false, ite_self]
      · rw [List.getElem?_eq_none] at he
        · cases he
        · rw [List.length_append, List.length_singleton]
          exact hgt
    · intro n hle key
      unfold times
      dsimp only at hle ⊢
      rw [List.length_append, List.length_singleton] at hle
      have hz := hv.unwritten n (Nat.le_of_succ_le hle) key
      unfold times at hz
      rw [List.countP_append, countP_replicate_entry, hz, Nat.zero_add,
        if_neg (fun hc => Nat.ne_of_lt hle hc.2)]
    · intro e he
      rcases List.mem_append.mp he with he | he
      · exact hv.rounds e he
      · rw [List.mem_singleton.mp he]
        exact ⟨Nat.le_add_left .., Nat.le_refl _⟩
  · have hlevel : ¬(s.loggers (f.loggerName l)).level ≤ r.level := (hv.held l).level hn ▸ hi
    unfold LogState.log
    dsimp only
    rw [if_neg hlevel]
    exact hv

/-! ## What the store holds -/

def texts (s : LogState) (key : PyStr) : List PyStr :=
  (s.appended.filter fun a => a.key = key).map Appended.text

/-- The store holds what was appended, with `RedisLog` the last of it. -/
def Kept (f : LogFactory) (s : LogState) : Prop := ∀ key, s.stored key = f.window (s.texts key)

theorem texts_write (s : LogState) (key key' : PyStr) (n : Nat) (text : PyStr)
    (stored : List PyStr) : (s.write key n text stored).texts key' =
      s.texts key' ++ if key = key' then [text] else [] := by
  unfold texts write
  rw [List.filter_append, List.map_append]
  by_cases hk : key = key'
  · simp only [hk, decide_true, List.filter_cons_of_pos, List.filter_nil, List.map_singleton,
      if_true]
  · simp only [hk, decide_false, Bool.false_eq_true, not_false_eq_true, List.filter_cons_of_neg,
      List.filter_nil, List.map_nil, if_false]

theorem Kept.write (hk : Kept f s) {key text : PyStr} {stored : List PyStr}
    (h : stored = f.window (s.texts key ++ [text])) : Kept f (s.write key n text stored) := by
  intro key'
  rw [texts_write]
  by_cases he : key = key'
  · subst he
    rw [if_pos rfl, ← h]
    exact Function.update_self ..
  · rw [if_neg he, List.append_nil, ← hk key']
    exact Function.update_of_ne (Ne.symm he) ..

theorem drop_emit {m : Int} (hm : 1 ≤ m) (ts : List PyStr) (line : PyStr) :
    RedisLog.emit m (ts.drop (ts.length - m.toNat)) line =
      (ts ++ [line ++ RedisLog.terminator]).drop
        ((ts ++ [line ++ RedisLog.terminator]).length - m.toNat) := by
  rw [RedisLog.emit_eq hm, ← List.drop_append_of_le_length (Nat.sub_le ..), List.drop_drop,
    List.length_drop, List.length_append, List.length_singleton]
  congr 1
  omega

theorem Kept.emit (hk : Kept f s) (hh : OnLogger f l h) : Kept f (emit encodes n r s h).1 := by
  obtain ⟨number, sink, level⟩ := h
  rcases hh.2 with hs | hs
  · obtain rfl : sink = .stream := hs
    exact hk
  · obtain rfl : sink = f.sink l := hs
    cases f with
    | diskLog p =>
      cases hl : r.line with
      | none =>
        simp only [LogState.emit, LogFactory.sink, hl]
        exact hk
      | some line =>
        simp only [LogState.emit, LogFactory.sink, hl]
        split
        · refine hk.write ?_
          rw [hk]
          rfl
        · exact hk
    | redisLog a =>
      cases hl : r.line with
      | none =>
        simp only [LogState.emit, LogFactory.sink, hl]
        exact hk
      | some line =>
        simp only [LogState.emit, LogFactory.sink, hl]
        split
        · split
          · refine hk.write ?_
            rw [hk, LogFactory.window, LogFactory.window, drop_emit (by decide)]
          · exact hk
        · exact hk

theorem Kept.callHandlers (hk : Kept f s) (hh : ∀ h ∈ hs, OnLogger f l h) :
    Kept f (callHandlers encodes n r s hs) := by
  induction hs generalizing s with
  | nil => exact hk
  | cons h hs ih =>
    have he : Kept f (LogState.emit encodes n r s h).1 := hk.emit (hh h (List.mem_cons_self ..))
    have hrest : ∀ h ∈ hs, OnLogger f l h := fun h hm => hh h (List.mem_cons_of_mem _ hm)
    unfold LogState.callHandlers
    split
    · split
      · rename_i s' hs'
        rw [hs'] at he
        exact he
      · rename_i s' hs'
        rw [hs'] at he
        exact ih he hrest
    · exact ih hk hrest

/-! ## A run -/

theorem Inv.step {m : Move} (hv : Inv f encodes s) (hs : step f encodes s m = some s') :
    Inv f encodes s' := by
  cases m with
  | enter l =>
    by_cases hn : s.session l = none
    · rw [LogState.step, if_pos hn] at hs
      cases hs
      exact hv.enter hn
    · rw [LogState.step, if_neg hn] at hs
      cases hs
  | log l r =>
    by_cases hn : s.session l = none
    · rw [LogState.step, if_pos hn] at hs
      cases hs
    · rw [LogState.step, if_neg hn] at hs
      cases hs
      exact hv.log hn
  | leave l =>
    obtain ⟨h, hn, rfl⟩ := Option.map_eq_some_iff.mp hs
    exact hv.leave hn

theorem inv_of_steps (hs : Steps (step f encodes) Any start s) : Inv f encodes s :=
  hs.invariant (fun _ _ _ hv _ h => hv.step h) inv_start

theorem Kept.step {m : Move} (hk : Kept f s) (hv : Inv f encodes s)
    (hs : step f encodes s m = some s') : Kept f s' := by
  cases m with
  | enter l =>
    by_cases hn : s.session l = none
    · rw [LogState.step, if_pos hn] at hs
      cases hs
      exact hk
    · rw [LogState.step, if_neg hn] at hs
      cases hs
  | log l r =>
    by_cases hn : s.session l = none
    · rw [LogState.step, if_pos hn] at hs
      cases hs
    · rw [LogState.step, if_neg hn] at hs
      cases hs
      unfold LogState.log
      dsimp only
      split
      · exact hk.callHandlers (hv.held l).handlers
      · exact hk
  | leave l =>
    obtain ⟨h, hn, rfl⟩ := Option.map_eq_some_iff.mp hs
    exact hk

/-- What is appended is what the store gets: a file holds all of it, and a Redis list the end. -/
theorem kept_of_steps (hs : Steps (step f encodes) Any start s) : Kept f s := by
  have hstart : Kept f start := by
    intro key
    cases f with
    | diskLog p => rfl
    | redisLog a => exact List.drop_nil.symm
  exact (hs.invariant (P := fun s => Inv f encodes s ∧ Kept f s)
    (fun _ _ _ h _ hm => ⟨h.1.step hm, h.2.step h.1 hm⟩) ⟨inv_start, hstart⟩).2

theorem Inv.cleared (hv : Inv f encodes s) :
    Cleared f s ↔ ∀ app, f = .redisLog app → ∀ l, s.left l = [] := by
  constructor
  · intro hc app hf l
    refine List.eq_nil_iff_forall_not_mem.mpr fun h hm => hc l h hm ?_
    have hheld := (hv.held l).held
    rw [hf] at hheld
    have hmem : h ∈ s.left l ++ (s.session l).toList := List.mem_append_left _ hm
    exact hf ▸ (List.mem_filter.mp (hheld ▸ hmem)).1
  · intro hf l h hm hon
    cases f with
    | diskLog p =>
      have hstores := (hv.held l).stores h (List.mem_append_left _ hm)
      have hmem := List.mem_filter.mpr ⟨hon, hstores⟩
      rw [(hv.held l).held] at hmem
      -- a handler of a session that is over is older than the one of the open session
      have hlt := (List.pairwise_append.mp (hv.held l).ordered).2.2 h hm h hmem
      exact absurd hlt (Nat.lt_irrefl _)
    | redisLog a =>
      rw [hf a rfl l] at hm
      cases hm

theorem Inv.storedOnce (hv : Inv f encodes s) :
    StoredOnce f s ↔ ∀ e ∈ s.logged, Writable encodes e.record ∧ f.copies e.round = 1 := by
  constructor
  · intro ho e he
    obtain ⟨n, hn⟩ := List.getElem?_of_mem he
    have hone := ho n e hn (f.key e.logId)
    rw [hv.counts n e hn, if_pos rfl] at hone
    by_cases hw : Writable encodes e.record
    · rw [if_pos ⟨rfl, hw⟩] at hone
      exact ⟨hw, hone⟩
    · rw [if_neg fun h => hw h.2] at hone
      cases hone
  · intro hall n e hn key
    obtain ⟨hw, hone⟩ := hall e (List.mem_of_getElem? hn)
    rw [hv.counts n e hn, hone]
    simp only [hw, and_true]

/-- Each record is stored once and the loggers are cleared as long as every record can be written
and, with `RedisLog`, no session has been left. -/
theorem records_stored_once (hs : Steps (step f encodes) Any start s) :
    StoredOnce f s ∧ Cleared f s ↔
      (∀ e ∈ s.logged, Writable encodes e.record) ∧
        ∀ app, f = .redisLog app → ∀ l, s.left l = [] := by
  have hv := inv_of_steps hs
  rw [hv.storedOnce, hv.cleared]
  constructor
  · rintro ⟨hall, hleft⟩
    exact ⟨fun e he => (hall e he).1, hleft⟩
  · rintro ⟨hall, hleft⟩
    refine ⟨fun e he => ⟨hall e he, ?_⟩, hleft⟩
    cases f with
    | diskLog p => rfl
    | redisLog a =>
      have hr := hv.rounds e he
      rw [hleft a rfl e.logId] at hr
      exact Nat.le_antisymm hr.2 hr.1

/-- A `logId` that runs twice, and logs once each time. -/
def repeated : List Move :=
  [.enter 7, .log 7 ⟨info, some (py "a"), true, true⟩, .leave 7,
    .enter 7, .log 7 ⟨info, some (py "b"), true, true⟩, .leave 7]

def repeatedState (f : LogFactory) : Option LogState := run (step f fun _ => true) start repeated

theorem steps_repeated (h : repeatedState f = some s) :
    Steps (step f fun _ => true) Any start s :=
  Steps.of_run (fun _ _ _ => trivial) h

def diskRepeated : LogState := (repeatedState (.diskLog (py "/logs"))).get rfl

def redisRepeated : LogState := (repeatedState (.redisLog (py "app"))).get rfl

theorem records_stored_once_disk : StoredOnce (.diskLog (py "/logs")) diskRepeated ∧
    Cleared (.diskLog (py "/logs")) diskRepeated :=
  (records_stored_once (steps_repeated (Option.some_get rfl).symm)).mpr ⟨by decide, nofun⟩

/-- The second session finds the handler of the first one still there, and its record is pushed
twice. -/
theorem redis_record_twice : ∃ s, Steps (step (.redisLog (py "app")) fun _ => true) Any start s ∧
    s.stored (py "pyxxl:log:app:7") = [py "a\n", py "b\n", py "b\n"] ∧
    ¬StoredOnce (.redisLog (py "app")) s ∧ ¬Cleared (.redisLog (py "app")) s := by
  refine ⟨redisRepeated, steps_repeated (Option.some_get rfl).symm, by decide, fun h => ?_,
    fun h => ?_⟩
  · exact absurd (h 1 _ rfl (py "pyxxl:log:app:7")) (by decide)
  · exact absurd (h 7 ⟨1, .redis (py "pyxxl:log:app:7"), info⟩ (by decide)) (by decide)

end LogState
end Pyxxl
