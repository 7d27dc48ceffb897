import Pyxxl.Lib.Transition
import Pyxxl.Protocol.Registry

/-!
# Pyxxl.App.Registration

The registration of an executor at the admin: the loop of `PyxxlRunner._register_task`, the first
lines of the teardown in `_cleanup_ctx`, and the admin as a peer that processes the requests in
flight in any order.

* both calls run `XXL._post`; `Posting` is where such a call stands while it waits for an answer.
* a request that was cancelled, or that has timed out, stays in flight. It may be processed at any
  time, or get lost.
* an answer of code 200 comes for a request that was processed.
* `register_task.cancel()` is not awaited: the loop ends at its next step.
* `deregistration_final`: exactly if no registry request is in flight when the teardown begins.
-/

namespace Pyxxl

open Transition XXL

namespace Registration

inductive Kind where
  | registry
  | registryRemove
  deriving DecidableEq, Repr

structure Message where
  id : Nat
  kind : Kind
  deriving DecidableEq, Repr

/-- `_post` waits for the answer to `msg`. -/
structure Posting where
  msg : Nat
  times : Nat
  address : Nat
  hadRetryableError : Bool

/-- Where `_post` goes from an answer. -/
inductive Next where
  | returned
  | send (times address : Nat) (hadRetryableError : Bool)
  | pause (times : Nat)
  | failed
  | raised

/-- For `n` addresses and so many rounds. -/
def Posting.next (n retryTimes : Nat) (p : Posting) (a : Answer) : Next :=
  if answered a then .returned
  else if escapes a then .raised
  else if p.address + 1 < n then .send p.times (p.address + 1) (p.hadRetryableError || retryable a)
  else if (p.hadRetryableError || retryable a) && p.times < retryTimes then .pause p.times
  else .failed

inductive Register where
  | scheduled
  | posting (p : Posting)
  /-- In the `sleep` of `_post`. -/
  | pausing (times : Nat)
  /-- In the `sleep` of the loop. -/
  | sleeping
  | ended

inductive Teardown where
  | serving
  | posting (p : Posting)
  | pausing (times : Nat)
  /-- `registryRemove` has returned. -/
  | removed
  | raised

end Registration

open Registration

structure Registration where
  register : Register
  /-- `register_task.cancel()` was called. -/
  cancelled : Bool
  teardown : Teardown
  nextMsg : Nat
  inFlight : List Message
  processed : List Message
  /-- The admin lists the executor. -/
  listed : Bool

namespace Registration

variable {n : Nat} {s s' : Registration}

def start : Registration where
  register := .scheduled
  cancelled := false
  teardown := .serving
  nextMsg := 0
  inFlight := []
  processed := []
  listed := false

def send (s : Registration) (kind : Kind) : Registration :=
  { s with inFlight := s.inFlight ++ [⟨s.nextMsg, kind⟩], nextMsg := s.nextMsg + 1 }

/-- `_register_task` sends its next request. -/
def sendRegistry (s : Registration) (times address : Nat) (hadRetryableError : Bool) : Registration :=
  { s.send .registry with register := .posting ⟨s.nextMsg, times, address, hadRetryableError⟩ }

def sendRemove (s : Registration) (times address : Nat) (hadRetryableError : Bool) : Registration :=
  { s.send .registryRemove with teardown := .posting ⟨s.nextMsg, times, address, hadRetryableError⟩ }

/-- The answer is there; whatever it is, `registry` returns or raises. -/
def registryNext (s : Registration) : Next → Registration
  | .returned | .failed => { s with register := .sleeping }
  | .send times address had => s.sendRegistry times address had
  | .pause times => { s with register := .pausing times }
  | .raised => { s with register := .ended }

def removeNext (s : Registration) : Next → Registration
  | .returned => { s with teardown := .removed }
  | .send times address had => s.sendRemove times address had
  | .pause times => { s with teardown := .pausing times }
  | .failed | .raised => { s with teardown := .raised }

/-- The teardown up to its first await. -/
def tearDown (s : Registration) : Registration := { s with cancelled := true }.sendRemove 1 0 false

/-- The admin processes a request. -/
def process (s : Registration) (m : Message) : Registration :=
  { s with
    inFlight := s.inFlight.erase m
    processed := s.processed ++ [m]
    listed := m.kind = .registry }

inductive Event where
  | registerStarts
  | registerAnswer (a : Answer)
  | registerWakes
  /-- The `CancelledError` is thrown into the loop. -/
  | registerCancelled
  | tearDown
  | removeAnswer (a : Answer)
  | removeWakes
  | process (m : Message)
  | lose (m : Message)

def step (n : Nat) (s : Registration) : Event → Option Registration
  | .registerStarts =>
    match s.cancelled, s.register with
    | false, .scheduled => some (s.sendRegistry 1 0 false)
    | _, _ => none
  | .registerAnswer a =>
    match s.cancelled, s.register with
    | false, .posting p =>
      if answered a = true → ⟨p.msg, .registry⟩ ∈ s.processed then
        some (s.registryNext (p.next n 5 a))
      else none
    | _, _ => none
  | .registerWakes =>
    match s.cancelled, s.register with
    | false, .pausing times => some (s.sendRegistry (times + 1) 0 false)
    | false, .sleeping => some (s.sendRegistry 1 0 false)
    | _, _ => none
  | .registerCancelled => if s.cancelled then some { s with register := .ended } else none
  | .tearDown =>
    match s.teardown with
    | .serving => some s.tearDown
    | _ => none
  | .removeAnswer a =>
    match s.teardown with
    | .posting p =>
      if answered a = true → ⟨p.msg, .registryRemove⟩ ∈ s.processed then
        some (s.removeNext (p.next n 3 a))
      else none
    | _ => none
  | .removeWakes =>
    match s.teardown with
    | .pausing times => some (s.sendRemove (times + 1) 0 false)
    | _ => none
  | .process m => if m ∈ s.inFlight then some (s.process m) else none
  | .lose m => if m ∈ s.inFlight then some { s with inFlight := s.inFlight.erase m } else none

/-! ## Before the teardown -/

/-- While the executor serves, it sends registry requests only. -/
structure Serving (s : Registration) : Prop where
  cancelled : s.cancelled = false
  inFlight : ∀ m ∈ s.inFlight, m.kind = .registry
  processed : ∀ m ∈ s.processed, m.kind = .registry

theorem Serving.sendRegistry (h : Serving s) (times address : Nat) (had : Bool) :
    Serving (s.sendRegistry times address had) := by
  refine ⟨h.cancelled, fun m hm => ?_, h.processed⟩
  rcases List.mem_append.mp hm with hm | hm
  · exact h.inFlight m hm
  · rw [List.mem_singleton.mp hm]

theorem Serving.registryNext (h : Serving s) (next : Next) : Serving (s.registryNext next) := by
  cases next with
  | send times address had => exact h.sendRegistry times address had
  | _ => exact ⟨h.cancelled, h.inFlight, h.processed⟩

theorem teardown_registryNext (next : Next) : (s.registryNext next).teardown = s.teardown := by
  cases next <;> rfl

theorem serving_step {e : Event} (h : s.teardown = .serving → Serving s)
    (hs : step n s e = some s') : s'.teardown = .serving → Serving s' := by
  intro hserving
  cases e with
  | registerStarts =>
    simp only [step] at hs
    split at hs
    · cases hs
      exact (h hserving).sendRegistry _ _ _
    · cases hs
  | registerAnswer a =>
    simp only [step] at hs
    split at hs
    · split at hs
      · cases hs
        rw [teardown_registryNext] at hserving
        exact (h hserving).registryNext _
      · cases hs
    · cases hs
  | registerWakes =>
    simp only [step] at hs
    split at hs
    · cases hs
      exact (h hserving).sendRegistry _ _ _
    · cases hs
      exact (h hserving).sendRegistry _ _ _
    · cases hs
  | registerCancelled =>
    simp only [step] at hs
    split at hs
    · cases hs
      have hserving := h hserving
      exact ⟨hserving.cancelled, hserving.inFlight, hserving.processed⟩
    · cases hs
  | tearDown =>
    simp only [step] at hs
    split at hs
    · cases hs
      cases hserving
    · cases hs
  | removeAnswer a =>
    simp only [step] at hs
    split at hs
    · rename_i p hp
      split at hs
      · cases hs
        cases hn : p.next n 3 a <;> rw [hn] at hserving <;> cases hserving
      · cases hs
    · cases hs
  | removeWakes =>
    simp only [step] at hs
    split at hs
    · cases hs
      cases hserving
    · cases hs
  | process m =>
    simp only [step] at hs
    split at hs
    · rename_i hm
      cases hs
      have hserving := h hserving
      refine ⟨hserving.cancelled, fun k hk => hserving.inFlight k (List.mem_of_mem_erase hk), ?_⟩
      intro k hk
      rcases List.mem_append.mp hk with hk | hk
      · exact hserving.processed k hk
      · rw [List.mem_singleton.mp hk]
        exact hserving.inFlight m hm
    · cases hs
  | lose m =>
    simp only [step] at hs
    split at hs
    · cases hs
      have hserving := h hserving
      exact ⟨hserving.cancelled, fun k hk => hserving.inFlight k (List.mem_of_mem_erase hk),
        hserving.processed⟩
    · cases hs

/-! ## After the teardown has begun -/

def registrations (s : Registration) : List Message := s.processed.filter fun m => m.kind = .registry

/-- The executor is not listed, no registry request is processed any more, and nothing is sent. -/
def Final (n : Nat) (s : Registration) : Prop :=
  ∀ s', Steps (step n) Any s s' →
    s'.listed = false ∧ s'.registrations = s.registrations ∧ s'.nextMsg = s.nextMsg

/-- Of the requests in flight none is a registry request any more. -/
structure Leaving (s : Registration) : Prop where
  cancelled : s.cancelled = true
  teardown : s.teardown ≠ .serving
  inFlight : ∀ m ∈ s.inFlight, m.kind = .registryRemove
  processed : ∀ m ∈ s.processed, m.kind = .registryRemove → s.listed = false
  removed : s.teardown = .removed → s.listed = false

theorem Serving.tearDown (h : Serving s) (hf : ∀ m ∈ s.inFlight, m.kind ≠ .registry) :
    Leaving s.tearDown := by
  refine ⟨rfl, fun he => (by cases he), fun m hm => ?_, fun m hm he => ?_, fun he => (by cases he)⟩
  · rcases List.mem_append.mp hm with hm | hm
    · exact absurd (h.inFlight m hm) (hf m hm)
    · rw [List.mem_singleton.mp hm]
  · rw [h.processed m hm] at he
    cases he

theorem Leaving.sendRemove (h : Leaving s) (times address : Nat) (had : Bool) :
    Leaving (s.sendRemove times address had) := by
  refine ⟨h.cancelled, fun he => (by cases he), fun m hm => ?_, h.processed, fun he => (by cases he)⟩
  rcases List.mem_append.mp hm with hm | hm
  · exact h.inFlight m hm
  · rw [List.mem_singleton.mp hm]

theorem Posting.next_returned {p : Posting} {retryTimes : Nat} {a : Answer}
    (h : p.next n retryTimes a = .returned) : answered a = true := by
  unfold Posting.next at h
  split at h
  · assumption
  · repeat' split at h
    all_goals cases h

/-- A step that begins nothing new: it ends or goes on with what is there. -/
theorem Leaving.step {e : Event} (h : Leaving s) (hs : step n s e = some s') : Leaving s' := by
  have hc := h.cancelled
  cases e with
  | registerStarts => simp only [Registration.step, hc] at hs; cases hs
  | registerAnswer a => simp only [Registration.step, hc] at hs; cases hs
  | registerWakes => simp only [Registration.step, hc] at hs; cases hs
  | registerCancelled =>
    simp only [Registration.step, if_pos hc] at hs
    cases hs
    exact ⟨hc, h.teardown, h.inFlight, h.processed, h.removed⟩
  | tearDown =>
    simp only [Registration.step] at hs
    split at hs
    · rename_i hserving
      exact absurd hserving h.teardown
    · cases hs
  | removeAnswer a =>
    simp only [Registration.step] at hs
    split at hs
    · rename_i p hp
      split at hs
      · rename_i ha
        cases hs
        cases hn : p.next n 3 a with
        | returned =>
          have hm := ha (Posting.next_returned hn)
          exact ⟨hc, fun he => (by cases he), h.inFlight, h.processed,
            fun _ => h.processed _ hm rfl⟩
        | send times address had => exact h.sendRemove times address had
        | _ => exact ⟨hc, fun he => (by cases he), h.inFlight, h.processed, fun he => (by cases he)⟩
      · cases hs
    · cases hs
  | removeWakes =>
    simp only [Registration.step] at hs
    split at hs
    · cases hs
      exact h.sendRemove _ _ _
    · cases hs
  | process m =>
    simp only [Registration.step] at hs
    split at hs
    · rename_i hm
      cases hs
      have hlisted : (s.process m).listed = false := by
        show decide (m.kind = .registry) = false
        rw [h.inFlight m hm]
        rfl
      exact ⟨hc, h.teardown, fun k hk => h.inFlight k (List.mem_of_mem_erase hk),
        fun _ _ _ => hlisted, fun _ => hlisted⟩
    · cases hs
  | lose m =>
    simp only [Registration.step] at hs
    split at hs
    · cases hs
      exact ⟨hc, h.teardown, fun k hk => h.inFlight k (List.mem_of_mem_erase hk), h.processed,
        h.removed⟩
    · cases hs

/-- Once `registryRemove` has returned, nothing happens but that the last requests are processed. -/
theorem Leaving.quiet {e : Event} (h : Leaving s) (hr : s.teardown = .removed)
    (hs : Registration.step n s e = some s') :
    s'.teardown = .removed ∧ s'.registrations = s.registrations ∧ s'.nextMsg = s.nextMsg := by
  have hc := h.cancelled
  cases e with
  | registerStarts => simp only [Registration.step, hc] at hs; cases hs
  | registerAnswer a => simp only [Registration.step, hc] at hs; cases hs
  | registerWakes => simp only [Registration.step, hc] at hs; cases hs
  | registerCancelled =>
    simp only [Registration.step, if_pos hc] at hs
    cases hs
    exact ⟨hr, rfl, rfl⟩
  | tearDown => simp only [Registration.step, hr] at hs; cases hs
  | removeAnswer a => simp only [Registration.step, hr] at hs; cases hs
  | removeWakes => simp only [Registration.step, hr] at hs; cases hs
  | process m =>
    simp only [Registration.step] at hs
    split at hs
    · rename_i hm
      cases hs
      refine ⟨hr, ?_, rfl⟩
      show (s.processed ++ [m]).filter _ = s.processed.filter _
      rw [List.filter_append, List.filter_singleton, h.inFlight m hm]
      exact List.append_nil _
    · cases hs
  | lose m =>
    simp only [Registration.step] at hs
    split at hs
    · cases hs
      exact ⟨hr, rfl, rfl⟩
    · cases hs

theorem Leaving.final (h : Leaving s) (hr : s.teardown = .removed) : s.Final n := by
  intro s' hs
  have hend : Leaving s' ∧ s'.teardown = .removed ∧ s'.registrations = s.registrations ∧
      s'.nextMsg = s.nextMsg := by
    induction hs with
    | refl => exact ⟨h, hr, rfl, rfl⟩
    | tail _ _ hst ih =>
      obtain ⟨hl, hrem, hreg, hmsg⟩ := ih
      obtain ⟨hrem', hreg', hmsg'⟩ := hl.quiet hrem hst
      exact ⟨hl.step hst, hrem', hreg'.trans hreg, hmsg'.trans hmsg⟩
  exact ⟨hend.1.removed hend.2.1, hend.2.2⟩

/-! ## The two together -/

def okAnswer : Answer := .ok ⟨200, .ok (.dict [(.str (py "code"), .int 200)]), .ok []⟩

/-- A registry request that is still in flight may be processed last. -/
theorem overtaken {m : Message} (hm : m ∈ s.inFlight) (hk : m.kind = .registry) :
    ∃ s', Steps (step n) Any s.tearDown s' ∧ s'.teardown = .removed ∧ ¬s'.Final n := by
  let r : Message := ⟨s.nextMsg, .registryRemove⟩
  have hne : m ≠ r := fun he => by rw [he] at hk; cases hk
  have hflight : s.tearDown.inFlight = s.inFlight ++ [r] := rfl
  have hr : r ∈ s.tearDown.inFlight := by rw [hflight]; simp
  let s₁ := s.tearDown.process r
  have h₁ : step n s.tearDown (.process r) = some s₁ := if_pos hr
  let s₂ : Registration := { s₁ with teardown := .removed }
  have h₂ : step n s₁ (.removeAnswer okAnswer) = some s₂ := by
    have hmem : r ∈ s₁.processed := List.mem_append_right _ (List.mem_singleton.mpr rfl)
    have hnext : Posting.next n 3 ⟨s.nextMsg, 1, 0, false⟩ okAnswer = .returned := rfl
    have htear : s₁.teardown = .posting ⟨s.nextMsg, 1, 0, false⟩ := rfl
    simp only [step, htear]
    rw [if_pos fun _ => hmem, hnext]
    rfl
  have hm₂ : m ∈ s₂.inFlight :=
    (List.mem_erase_of_ne hne).mpr (by rw [hflight]; exact List.mem_append_left _ hm)
  have h₃ : step n s₂ (.process m) = some (s₂.process m) := if_pos hm₂
  refine ⟨s₂, (Steps.single trivial h₁).tail (e := .removeAnswer okAnswer) trivial h₂, rfl, ?_⟩
  intro hfinal
  have hlisted := (hfinal _ (.single (e := .process m) trivial h₃)).1
  have hlisted : decide (m.kind = .registry) = false := hlisted
  rw [hk] at hlisted
  cases hlisted

/-- Whatever comes after the teardown has begun, a `registryRemove` that has returned is final
exactly if no registry request is in flight when it begins. -/
theorem deregistration_final (h : Steps (step n) Any start s) (hs : s.teardown = .serving) :
    (∀ s', Steps (step n) Any s.tearDown s' → s'.teardown = .removed → s'.Final n) ↔
      ∀ m ∈ s.inFlight, m.kind ≠ .registry := by
  have hserving : Serving s := h.invariant (P := fun s => s.teardown = .serving → Serving s)
    (fun _ _ _ hi _ hst => serving_step hi hst)
    (fun _ => ⟨rfl, fun m hm => (by cases hm), fun m hm => (by cases hm)⟩) hs
  constructor
  · intro hfinal m hm hk
    obtain ⟨s', hs', hr, hno⟩ := overtaken hm hk
    exact hno (hfinal s' hs' hr)
  · intro hf s' hs' hr
    have hl : Leaving s' :=
      hs'.invariant (fun _ _ _ hi _ hst => hi.step hst) (hserving.tearDown hf)
    exact hl.final hr

/-- The loop has registered the executor, and sleeps. -/
def registered : Registration :=
  (run (step 2) start [.registerStarts, .process ⟨0, .registry⟩, .registerAnswer okAnswer]).get rfl

/-- Its `registryRemove` has returned. -/
def removed : Registration :=
  (run (step 2) registered.tearDown
    [.registerCancelled, .process ⟨1, .registryRemove⟩, .removeAnswer okAnswer]).get rfl

theorem deregistration_final_registered : removed.Final 2 :=
  (deregistration_final (s := registered)
    (.of_run (fun _ _ _ => trivial) (Option.some_get (x := run _ _ _) rfl).symm) rfl).mpr
      (fun m hm => by cases hm) removed
      (.of_run (fun _ _ _ => trivial) (Option.some_get (x := run _ _ _) rfl).symm) rfl

/-- The registry request that is in flight when the teardown begins is processed after the
`registryRemove` that has returned. -/
theorem registered_again : ∃ s s', Steps (step 2) Any start s ∧ s.teardown = .removed ∧
    Steps (step 2) Any s s' ∧ s'.listed = true := by
  refine ⟨(run (step 2) start [.registerStarts, .tearDown, .registerCancelled,
      .process ⟨1, .registryRemove⟩, .removeAnswer okAnswer]).get rfl, _,
    .of_run (fun _ _ _ => trivial) (Option.some_get (x := run _ _ _) rfl).symm, rfl,
    .single (e := .process ⟨0, .registry⟩) trivial rfl, rfl⟩

end Registration
end Pyxxl
