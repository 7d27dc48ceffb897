import Pyxxl.Handlers.Process

/-!
# Pyxxl.Handlers.Waiting

`_wait_process_result` against the steps of the child, for as long as nobody cancels the wait.

* `Orderly`: the child exits with what it has put flushed, if that can be pickled.
* `Watching`: the invariant. What the parent has come to is what the way of the payload through the
  queue makes of it, or the child has exited and there is no payload to be had.
* `result_not_lost`: a payload that arrives decides the outcome, and the loop ends once the child is
  dead.
-/

namespace Pyxxl
namespace Process

open Transition

variable {s s' : Process} {e : Event} {p : Payload} {exc : Exc} {outcome : Except Exc PyVal}

/-- What the result queue and the child do: an item that was put is flushed, and so visible, before
the child stops being alive, unless it cannot be pickled. Nobody cancels the wait. -/
def Orderly (s : Process) : Event → Prop
  | .childExits _ => ∀ p, s.buffered = some p → p.transfer ≠ .dropped → s.payload = some p
  | .timeout | .cancel => False
  | _ => True

/-- What `_wait_process_result` has returned or raised. -/
def Phase.result : Phase → Option (Except Exc PyVal)
  | .stopping _ _ exc => some (.error exc)
  | .joining outcome | .ended outcome => some outcome
  | _ => none

/-- How many steps the parent takes yet when the child is dead. -/
def Phase.left : Phase → Nat
  | .sleeping => 4
  | .polling => 3
  | .checking => 2
  | .lastLook => 1
  | _ => 0

theorem Phase.left_pos {ph : Phase} (h : ph.result = none) : 0 < ph.left := by
  cases ph with
  | polling | checking | lastLook | sleeping => simp [left]
  | stopping _ _ _ | joining _ | ended _ => cases h

/-- The call returns the result of the payload, or raises its error text. -/
def Payload.Carried (p : Payload) (outcome : Except Exc PyVal) : Prop :=
  (p.ok = true → outcome = .ok p.result) ∧
    (p.ok = false → outcome = .error (.exception
      ((if p.error = [] then py "Process mode handler failed." else p.error) ++
        if p.traceback = [] then [] else py "\n" ++ p.traceback)))

/-- The text with which the call ends when there is no payload. -/
def unexpected (exitcode : Int) : PyStr :=
  py "Process mode handler exited unexpectedly with code " ++ pyInt exitcode ++ py "."

theorem Payload.carried (p : Payload) : p.Carried p.outcome := by
  unfold Carried outcome errorMessage
  constructor
  · intro h
    rw [if_pos h]
  · intro h
    rw [if_neg (by rw [h]; exact Bool.false_ne_true)]
    split
    · simp
    · simp [List.append_assoc]

@[simp] theorem enter_phase (s : Process) (ph : Phase) : (s.enter ph).phase = ph := rfl

/-! ## The parent stops the child -/

/-- The child and the queue are as they were. -/
structure Same (s s' : Process) : Prop where
  exitcode : s'.exitcode = s.exitcode
  buffered : s'.buffered = s.buffered
  payload : s'.payload = s.payload
  taken : s'.taken = s.taken

theorem stopSecond_same (s : Process) (exc : Exc) (left : Nat) :
    Same s (s.stopSecond exc left) ∧
      (s.stopSecond exc left).phase.result = some (.error exc) := by
  cases left with
  | zero => exact ⟨⟨rfl, rfl, rfl, rfl⟩, rfl⟩
  | succ left =>
    simp only [stopSecond]
    split
    · exact ⟨⟨rfl, rfl, rfl, rfl⟩, rfl⟩
    · exact ⟨⟨rfl, rfl, rfl, rfl⟩, rfl⟩

theorem stopFirst_same (s : Process) (exc : Exc) (left : Nat) :
    Same s (s.stopFirst exc left) ∧
      (s.stopFirst exc left).phase.result = some (.error exc) := by
  cases left with
  | zero =>
    obtain ⟨h, hr⟩ := stopSecond_same { s with terminated := s.terminated || s.isAlive } exc 20
    exact ⟨⟨h.exitcode, h.buffered, h.payload, h.taken⟩, hr⟩
  | succ left =>
    simp only [stopFirst]
    split
    · exact ⟨⟨rfl, rfl, rfl, rfl⟩, rfl⟩
    · exact ⟨⟨rfl, rfl, rfl, rfl⟩, rfl⟩

theorem raised_same (s : Process) (exc : Exc) :
    Same s (s.raised exc) ∧ (s.raised exc).phase.result = some (.error exc) := by
  have hstop : ∀ exc, Same s (s.stopProcess exc) ∧
      (s.stopProcess exc).phase.result = some (.error exc) := by
    intro exc
    obtain ⟨h, hr⟩ := stopFirst_same { s with cancelEvent := true } exc 10
    exact ⟨⟨h.exitcode, h.buffered, h.payload, h.taken⟩, hr⟩
  cases exc with
  | cancelled => exact hstop .cancelled
  | timeout => exact hstop .timeout
  | exception text => exact ⟨⟨rfl, rfl, rfl, rfl⟩, rfl⟩
  | unprintable raised => exact ⟨⟨rfl, rfl, rfl, rfl⟩, rfl⟩
  | base => exact ⟨⟨rfl, rfl, rfl, rfl⟩, rfl⟩

/-! ## The invariant -/

/-- What the call comes to once the child has put `p`, or nothing. -/
inductive Settled (s : Process) : Except Exc PyVal → Prop where
  | carried {p : Payload} (hp : s.payload = some p) (ht : p.transfer = .arrives) :
      Settled s p.outcome
  | raised {p : Payload} {exc : Exc} (hp : s.payload = some p) (ht : p.transfer = .raises exc) :
      Settled s (.error exc)
  | unexpected {c : Int} (hc : s.exitcode = some c)
      (hlost : ∀ p, s.buffered = some p → p.transfer = .dropped ∨ p.transfer = .empty) :
      Settled s (noPayload c)

structure Watching (s : Process) : Prop where
  visible : ∀ p, s.payload = some p → s.buffered = some p ∧ p.transfer ≠ .dropped
  flushed : s.exitcode.isSome = true → ∀ p, s.buffered = some p → p.transfer ≠ .dropped →
    s.payload = some p
  taken : s.taken = true → ∃ p, s.payload = some p ∧ p.transfer = .empty
  dead : s.phase = .lastLook → s.exitcode.isSome = true
  result : ∀ outcome, s.phase.result = some outcome → Settled s outcome

theorem watching_started : Watching started where
  visible p h := by cases h
  flushed h := by cases h
  taken h := by cases h
  dead h := by cases h
  result outcome h := by cases h

/-- The parent goes on to a phase of the loop. -/
theorem Watching.enter (h : Watching s) (ph : Phase) (hr : ph.result = none)
    (hd : ph = .lastLook → s.exitcode.isSome = true) : Watching (s.enter ph) where
  visible := h.visible
  flushed := h.flushed
  taken := h.taken
  dead := hd
  result outcome ho := by
    rw [show (s.enter ph).phase.result = none from hr] at ho
    cases ho

theorem Settled.same (h : Settled s outcome) (hx : s'.exitcode = s.exitcode)
    (hb : s'.buffered = s.buffered) (hp : s'.payload = s.payload) : Settled s' outcome := by
  cases h with
  | carried hq ht => exact .carried (hp.trans hq) ht
  | raised hq ht => exact .raised (hp.trans hq) ht
  | unexpected hc hlost =>
    refine .unexpected (hx.trans hc) fun p hq => hlost p ?_
    rwa [hb] at hq

/-- The parent leaves `_wait_process_result`, or has left it. -/
theorem Watching.leave (h : Watching s) (hs : Same s s') (hr : s'.phase.result = some outcome)
    (ho : Settled s outcome) : Watching s' where
  visible p hp := by
    rw [hs.payload] at hp
    rw [hs.buffered]
    exact h.visible p hp
  flushed hx p hb ht := by
    rw [hs.exitcode] at hx
    rw [hs.buffered] at hb
    rw [hs.payload]
    exact h.flushed hx p hb ht
  taken ht := by
    rw [hs.taken] at ht
    rw [hs.payload]
    exact h.taken ht
  dead hl := by
    rw [hl] at hr
    cases hr
  result outcome' ho' := by
    rw [hr] at ho'
    cases ho'
    exact ho.same hs.exitcode hs.buffered hs.payload

theorem Watching.join (h : Watching s) (ho : Settled s outcome) :
    Watching (s.enter (.joining outcome)) :=
  have hsame : Same s (s.enter (.joining outcome)) := ⟨rfl, rfl, rfl, rfl⟩
  h.leave hsame rfl ho

theorem Watching.of_visible (h : Watching s) (hv : s.visible = some p) :
    s.payload = some p ∧ s.buffered = some p ∧ p.transfer ≠ .dropped := by
  unfold Process.visible at hv
  split at hv
  · cases hv
  · exact ⟨hv, h.visible p hv⟩

/-- Nothing can be had from the queue of a dead child. -/
theorem Watching.of_empty (h : Watching s) (hx : s.exitcode.isSome = true)
    (hv : s.visible = none) :
    ∀ p, s.buffered = some p → p.transfer = .dropped ∨ p.transfer = .empty := by
  intro p hb
  by_cases hd : p.transfer = .dropped
  · exact .inl hd
  · have hp := h.flushed hx p hb hd
    unfold Process.visible at hv
    split at hv
    · rename_i ht
      obtain ⟨q, hq, he⟩ := h.taken ht
      rw [hp] at hq
      cases hq
      exact .inr he
    · rw [hp] at hv
      cases hv

/-- `get_nowait()` has found `p`. -/
theorem Watching.take (h : Watching s) (hv : s.visible = some p) {next : Process → Process}
    (hnext : Watching { s with taken := true } → p.transfer = .empty →
      Watching (next { s with taken := true })) : Watching (s.take p next) := by
  obtain ⟨hp, hb, hd⟩ := h.of_visible hv
  unfold Process.take
  split
  · rename_i exc ht
    obtain ⟨hs, hr⟩ := raised_same s exc
    exact h.leave hs hr (.raised hp ht)
  · rename_i ht
    exact hnext ⟨h.visible, h.flushed, fun _ => ⟨p, hp, ht⟩, h.dead,
      fun o ho => (h.result o ho).same rfl rfl rfl⟩ ht
  · rename_i hraises hempty
    refine h.join (.carried hp ?_)
    cases ht : p.transfer with
    | arrives => rfl
    | dropped => exact absurd ht hd
    | raises exc => exact absurd ht (hraises exc)
    | empty => exact absurd ht hempty

theorem Watching.step (h : Watching s) (hok : Orderly s e) (hs : step s e = some s') :
    Watching s' := by
  cases e with
  | childPuts p =>
    simp only [Process.step] at hs
    split at hs
    · rename_i hc
      cases hs
      -- nothing was visible, for nothing was put
      have hnone : s.payload = none := by
        cases hp : s.payload with
        | none => rfl
        | some q =>
          rw [(h.visible q hp).1] at hc
          exact absurd hc.2 (by simp)
      have halive : s.exitcode = none := by simpa [isAlive] using hc.1
      refine ⟨fun q hq => ?_, fun (hx : s.exitcode.isSome = true) => ?_, h.taken, h.dead,
        fun outcome ho => ?_⟩
      · rw [show s.payload = some q from hq] at hnone
        cases hnone
      · rw [halive] at hx
        cases hx
      · cases h.result outcome ho with
        | carried hp ht | raised hp ht =>
          rw [hp] at hnone
          cases hnone
        | unexpected hx _ =>
          rw [hx] at halive
          cases halive
    · cases hs
  | childFlushes =>
    simp only [Process.step] at hs
    split at hs
    · rename_i p hb
      split at hs
      · rename_i hc
        cases hs
        obtain ⟨halive, hnone, hd⟩ := hc
        have halive : s.exitcode = none := by simpa [isAlive] using halive
        have hnone : s.payload = none := by simpa using hnone
        refine ⟨fun q hq => ?_, fun (hx : s.exitcode.isSome = true) => ?_, fun ht => ?_, h.dead,
          fun outcome ho => ?_⟩
        · cases hq
          exact ⟨hb, hd⟩
        · rw [halive] at hx
          cases hx
        · obtain ⟨q, hq, -⟩ := h.taken ht
          rw [hq] at hnone
          cases hnone
        · cases h.result outcome ho with
          | carried hp ht | raised hp ht =>
            rw [hp] at hnone
            cases hnone
          | unexpected hx _ =>
            rw [hx] at halive
            cases halive
      · cases hs
    · cases hs
  | childExits c =>
    simp only [Process.step] at hs
    split at hs
    · rename_i halive
      cases hs
      have halive : s.exitcode = none := by simpa [isAlive] using halive
      refine ⟨h.visible, fun _ => hok, h.taken, fun _ => rfl, fun outcome ho => ?_⟩
      cases h.result outcome ho with
      | carried hp ht => exact .carried hp ht
      | raised hp ht => exact .raised hp ht
      | unexpected hx _ =>
        rw [hx] at halive
        cases halive
    · cases hs
  | look =>
    simp only [Process.step] at hs
    split at hs
    · split at hs
      · rename_i p hv
        cases hs
        exact h.take hv fun h' _ => h'.enter .checking rfl (by simp)
      · cases hs
        exact h.enter .checking rfl (by simp)
    · split at hs
      · cases hs
        exact h.enter .sleeping rfl (by simp)
      · rename_i hdead
        cases hs
        refine h.enter .lastLook rfl fun _ => ?_
        simpa [isAlive, Option.isSome_iff_ne_none] using hdead
    · split at hs
      · rename_i p c hv hc
        cases hs
        refine h.take hv fun h' he => ?_
        refine h'.join (.unexpected hc ?_)
        intro q hq
        have hb := (h.of_visible hv).2.1
        rw [show s.buffered = some q from hq] at hb
        cases hb
        exact .inr he
      · rename_i c hv hc
        cases hs
        refine h.join (.unexpected hc ?_)
        exact h.of_empty (by rw [hc]; rfl) hv
      · cases hs
    · cases hs
  | wake =>
    simp only [Process.step] at hs
    split at hs
    · cases hs
      exact h.enter .polling rfl (by simp)
    · rename_i left exc hp
      cases hs
      obtain ⟨hsame, hr⟩ := stopFirst_same s exc left
      exact h.leave hsame hr (h.result _ (by rw [hp]; rfl))
    · rename_i left exc hp
      cases hs
      obtain ⟨hsame, hr⟩ := stopSecond_same s exc left
      exact h.leave hsame hr (h.result _ (by rw [hp]; rfl))
    · cases hs
  | timeout => exact hok.elim
  | cancel => exact hok.elim
  | joined =>
    simp only [Process.step] at hs
    split at hs
    · rename_i outcome hp
      cases hs
      have hsame : Same s (s.closeAll.enter (.ended outcome)) := ⟨rfl, rfl, rfl, rfl⟩
      have hresult : s.phase.result = some outcome := by
        rw [hp]
        rfl
      exact h.leave hsame rfl (h.result outcome hresult)
    · cases hs

theorem watching (h : Steps step Orderly started s) : Watching s :=
  h.invariant (P := Watching) (fun _ _ _ hi hok hs => hi.step hok hs) watching_started

/-! ## The end of the loop -/

/-- The parent can take a step of the loop, whatever the child does. -/
theorem Watching.goes_on (h : Watching s) (hr : s.phase.result = none) :
    ∃ e s', (e = .look ∨ e = .wake) ∧ Process.step s e = some s' := by
  cases hp : s.phase with
  | polling =>
    refine ⟨.look, ?_⟩
    simp only [Process.step, hp]
    split
    · exact ⟨_, .inl trivial, rfl⟩
    · exact ⟨_, .inl trivial, rfl⟩
  | checking =>
    refine ⟨.look, ?_⟩
    simp only [Process.step, hp]
    split
    · exact ⟨_, .inl trivial, rfl⟩
    · exact ⟨_, .inl trivial, rfl⟩
  | lastLook =>
    obtain ⟨c, hc⟩ := Option.isSome_iff_exists.mp (h.dead hp)
    refine ⟨.look, ?_⟩
    cases hq : s.visible with
    | none => exact ⟨_, .inl rfl, by simp only [Process.step, hp, hq, hc]; rfl⟩
    | some p => exact ⟨_, .inl rfl, by simp only [Process.step, hp, hq, hc]; rfl⟩
  | sleeping => exact ⟨.wake, _, .inr rfl, by simp only [Process.step, hp]; rfl⟩
  | stopping _ _ _ | joining _ | ended _ =>
    rw [hp] at hr
    cases hr

/-- `get_nowait()` has found something: the call is over, or goes on with what follows. -/
theorem take_left (s : Process) (p : Payload) (next : Process → Process) {n : Nat}
    (hnext : ∀ s, (next s).phase.left < n ∧ (next s).exitcode = s.exitcode) :
    (s.take p next).phase.left < n ∧ (s.take p next).exitcode = s.exitcode := by
  have hover : ∀ {t : Process} {outcome : Except Exc PyVal}, t.phase.result = some outcome →
      t.phase.left < n := by
    intro t outcome ht
    have hpos := (hnext s).1
    cases hph : t.phase with
    | polling | checking | lastLook | sleeping => rw [hph] at ht; cases ht
    | stopping _ _ _ | joining _ | ended _ => exact Nat.lt_of_le_of_lt (Nat.zero_le _) hpos
  unfold take
  split
  · rename_i exc _
    obtain ⟨hs, hr⟩ := raised_same s exc
    exact ⟨hover hr, hs.exitcode⟩
  · exact hnext _
  · have hjoin : (s.enter (.joining p.outcome)).phase.result = some p.outcome := rfl
    exact ⟨hover hjoin, rfl⟩

/-- With the child dead every step is one of the parent's, and brings it closer to the end. -/
theorem nears {c : Int} (hc : s.exitcode = some c) (hr : s.phase.result = none)
    (hok : Orderly s e) (hs : step s e = some s') :
    s'.exitcode = some c ∧ s'.phase.left < s.phase.left := by
  have hdead : s.isAlive = false := by simp [isAlive, hc]
  cases e with
  | childPuts p => simp [step, hdead] at hs
  | childFlushes =>
    simp only [step] at hs
    split at hs
    · simp [hdead] at hs
    · cases hs
  | childExits c' => simp [step, hdead] at hs
  | look =>
    simp only [step] at hs
    split at hs
    · rename_i hp
      rw [hp]
      split at hs
      · rename_i p _
        cases hs
        obtain ⟨hlt, hx⟩ := take_left s p (fun s => s.enter .checking)
          (n := Phase.polling.left) fun _ => ⟨by simp [Phase.left], rfl⟩
        exact ⟨hx.trans hc, hlt⟩
      · cases hs; exact ⟨hc, by simp [Phase.left]⟩
    · rename_i hp
      rw [hp]
      rw [hdead] at hs
      cases hs
      exact ⟨hc, by simp [Phase.left]⟩
    · rename_i hp
      rw [hp]
      split at hs
      · rename_i p c' _ _
        cases hs
        obtain ⟨hlt, hx⟩ := take_left s p (fun s => s.enter (.joining (noPayload c')))
          (n := Phase.lastLook.left) fun _ => ⟨by simp [Phase.left], rfl⟩
        exact ⟨hx.trans hc, hlt⟩
      · cases hs; exact ⟨hc, by simp [Phase.left]⟩
      · cases hs
    · cases hs
  | wake =>
    simp only [step] at hs
    split at hs
    · rename_i hp
      rw [hp]
      cases hs
      exact ⟨hc, by simp [Phase.left]⟩
    · rename_i hp
      rw [hp] at hr
      cases hr
    · rename_i hp
      rw [hp] at hr
      cases hr
    · cases hs
  | timeout => exact hok.elim
  | cancel => exact hok.elim
  | joined =>
    simp only [step] at hs
    split at hs
    · rename_i outcome hp
      rw [hp] at hr
      cases hr
    · cases hs

/-- What the call has come to stays so. -/
theorem result_stays (hr : s.phase.result ≠ none) (hok : Orderly s e) (hs : step s e = some s') :
    s'.phase.result ≠ none := by
  have hphase : s'.phase = s.phase → s'.phase.result ≠ none := fun h => by rw [h]; exact hr
  cases e with
  | childPuts p =>
    simp only [step] at hs
    split at hs
    · cases hs; exact hphase rfl
    · cases hs
  | childFlushes =>
    simp only [step] at hs
    split at hs
    · split at hs
      · cases hs; exact hphase rfl
      · cases hs
    · cases hs
  | childExits c =>
    simp only [step] at hs
    split at hs
    · cases hs; exact hphase rfl
    · cases hs
  | timeout => exact hok.elim
  | cancel => exact hok.elim
  | joined =>
    simp only [step] at hs
    split at hs
    · cases hs; exact Option.some_ne_none _
    · cases hs
  | look =>
    cases hp : s.phase with
    | stopping _ _ _ | joining _ | ended _ => simp [step, hp] at hs
    | polling | checking | lastLook | sleeping => rw [hp] at hr; exact absurd rfl hr
  | wake =>
    simp only [step] at hs
    split at hs
    · rename_i hp
      rw [hp] at hr
      exact absurd rfl hr
    · rename_i left exc _
      cases hs
      rw [(stopFirst_same s exc left).2]
      exact Option.some_ne_none _
    · rename_i left exc _
      cases hs
      rw [(stopSecond_same s exc left).2]
      exact Option.some_ne_none _
    · cases hs

theorem bounded {es : List Event} {c : Int} (hc : s.exitcode = some c)
    (hr : s.phase.result = none) (hok : Allowed step Orderly s es)
    (hs : run step s es = some s') (hr' : s'.phase.result = none) :
    es.length + s'.phase.left ≤ s.phase.left := by
  induction es generalizing s with
  | nil => cases hs; simp
  | cons e es ih =>
    simp only [run] at hs
    split at hs
    · rename_i r hstep
      obtain ⟨hcr, hlt⟩ := nears hc hr hok.1 hstep
      have hnone : r.phase.result = none := by
        by_contra hne
        have hrest : Steps step Orderly r s' := .of_allowed (hok.2 r hstep) hs
        exact hrest.invariant (P := fun s => s.phase.result ≠ none)
          (fun _ _ _ hp ho hq => result_stays hp ho hq) hne hr'
      have := ih hcr hnone (hok.2 r hstep) hs
      rw [List.length_cons]
      omega
    · cases hs

/-! ## The result -/

/-- What the call comes to, whatever the child does: a payload that arrives decides it, and any
other one is lost. -/
theorem Watching.carries (h : Watching s) (ho : s.phase.result = some outcome)
    (hb : s.buffered = some p) :
    (p.transfer = .arrives → p.Carried outcome) ∧
      (p.transfer ≠ .arrives → ∃ exc, outcome = .error exc) := by
  cases h.result outcome ho with
  | @carried q hq ht =>
    rw [(h.visible q hq).1] at hb
    cases hb
    exact ⟨fun _ => Payload.carried _, fun hne => absurd ht hne⟩
  | @raised q exc hq ht =>
    rw [(h.visible q hq).1] at hb
    cases hb
    rw [ht]
    exact ⟨fun ha => (by cases ha), fun _ => ⟨exc, rfl⟩⟩
  | @unexpected c hc hlost =>
    refine ⟨fun ha => ?_, fun _ => ⟨_, rfl⟩⟩
    rcases hlost p hb with ht | ht
    · rw [ha] at ht
      cases ht
    · rw [ha] at ht
      cases ht

/-- The result of a process-mode handler, in any order of the steps of parent and child. What the
child has put decides what `_wait_process_result` comes to, if the payload can be pickled and
unpickled; a result that cannot is not returned, and the call raises instead. A child that dies
without a put is reported; and once the child is dead the loop goes on for three steps at most. -/
theorem result_not_lost (h : Steps step Orderly started s) :
    (∀ outcome, s.phase.result = some outcome →
      (∀ p, s.buffered = some p →
        (p.transfer = .arrives → p.Carried outcome) ∧
        (p.ok = true → (outcome = .ok p.result ↔ p.transfer = .arrives))) ∧
      (s.buffered = none → ∃ c, s.exitcode = some c ∧
        outcome = .error (.exception (unexpected c)))) ∧
    (s.phase.result = none → ∃ e s', (e = .look ∨ e = .wake) ∧ step s e = some s') ∧
    (∀ c es s', s.exitcode = some c → s.phase.result = none → Allowed step Orderly s es →
      run step s es = some s' → s'.phase.result = none → es.length ≤ 3) := by
  have hw := watching h
  refine ⟨fun outcome ho => ⟨fun p hp => ?_, fun hnone => ?_⟩, hw.goes_on, ?_⟩
  · obtain ⟨harrives, hlost⟩ := hw.carries ho hp
    refine ⟨harrives, fun hok => ⟨fun hout => ?_, fun ha => (harrives ha).1 hok⟩⟩
    by_contra hne
    obtain ⟨exc, he⟩ := hlost hne
    rw [he] at hout
    cases hout
  · cases hw.result outcome ho with
    | carried hq ht | raised hq ht =>
      rw [(hw.visible _ hq).1] at hnone
      cases hnone
    | unexpected hc hlost => exact ⟨_, hc, rfl⟩
  · intro c es s' hc hr hok hs hr'
    have hle := bounded hc hr hok hs hr'
    have hpos := Phase.left_pos hr'
    have hfour : s.phase.left ≤ 4 := by cases s.phase <;> simp [Phase.left]
    omega

/-- The child puts its result and exits between the two looks of the parent. -/
def justInTime : List Event :=
  [.look, .childPuts { ok := true, result := .int 7 }, .childFlushes, .childExits 0, .look, .look]

theorem result_not_lost_just_in_time :
    ∃ s, run step started justInTime = some s ∧ s.phase.result = some (.ok (.int 7)) ∧
      ∀ p, s.buffered = some p → p.transfer = .arrives → p.Carried (.ok (.int 7)) := by
  have hok : Allowed step Orderly started justInTime := by
    refine ⟨trivial, fun s₁ h₁ => ?_⟩
    cases h₁
    refine ⟨trivial, fun s₂ h₂ => ?_⟩
    cases h₂
    refine ⟨trivial, fun s₃ h₃ => ?_⟩
    cases h₃
    refine ⟨fun p hp _ => hp, fun s₄ h₄ => ?_⟩
    cases h₄
    exact ⟨trivial, fun _ _ => ⟨trivial, fun _ _ => trivial⟩⟩
  refine ⟨_, rfl, rfl, fun p hp => ?_⟩
  exact (((result_not_lost (.of_allowed hok rfl)).1 _ rfl).1 p hp).1

/-- The handler returns an object that the parent cannot unpickle. -/
def twoArguments : Payload where
  ok := true
  result := .object none none
  transfer := .raises (.exception (py "E.__init__() missing 1 required positional argument: 'b'"))

/-- The handler returns a lock. -/
def aLock : Payload where
  ok := true
  result := .object none none
  transfer := .dropped

/-- The child has put its result and exits, and the call raises the error of `get_nowait()`, or
reports that the child exited unexpectedly. -/
theorem result_lost :
    (∃ s text, Steps step Orderly started s ∧ s.payload = some twoArguments ∧
      s.phase.result = some (.error (.exception text)) ∧
      ¬twoArguments.Carried (.error (.exception text))) ∧
    ∃ s, Steps step Orderly started s ∧ s.buffered = some aLock ∧
      s.phase.result = some (.error (.exception (unexpected 0))) ∧
      ¬aLock.Carried (.error (.exception (unexpected 0))) := by
  have hput : Allowed step Orderly started
      [.childPuts twoArguments, .childFlushes, .childExits 0, .look] := by
    refine ⟨trivial, fun s₁ h₁ => ?_⟩
    cases h₁
    refine ⟨trivial, fun s₂ h₂ => ?_⟩
    cases h₂
    exact ⟨fun p hp _ => hp, fun _ _ => ⟨trivial, fun _ _ => trivial⟩⟩
  have hdrop : Allowed step Orderly started
      [.childPuts aLock, .childExits 0, .look, .look, .look] := by
    refine ⟨trivial, fun s₁ h₁ => ?_⟩
    cases h₁
    refine ⟨fun p hp hd => ?_, fun _ _ => ⟨trivial, fun _ _ => ⟨trivial, fun _ _ =>
      ⟨trivial, fun _ _ => trivial⟩⟩⟩⟩
    cases hp
    exact absurd rfl hd
  refine ⟨⟨_, _, .of_allowed hput rfl, rfl, rfl, fun h => ?_⟩,
    _, .of_allowed hdrop rfl, rfl, rfl, fun h => ?_⟩
  · cases h.1 rfl
  · cases h.1 rfl

end Process
end Pyxxl
