import Pyxxl.Callbacks.Lifetimes
import Pyxxl.Lib.Progress
import Pyxxl.Lib.Tally

/-!
# Pyxxl.Callbacks.Drained

A `CallbackManager` that is left to its worker and its retry tasks.

* `Turn`: what these do, with a file system that works. Only `fails` is up to the admin.
* `load s`: how many turns are to come, if no delivery fails. A failed delivery adds three.
* `manager_drains`: so the failures bound the turns, and when none is possible any more, every
  request has been delivered once and `store_dir` is empty.
-/

namespace Pyxxl
namespace CallbackManager

open Transition

variable {s s' : CallbackManager} {i : Nat}

inductive Turn where
  | takes
  | delivers
  | fails
  | fires (i : Nat)

def Turn.event : Turn → Event
  | .takes => .workerTakes
  | .delivers => .workerDelivers always
  | .fails => .workerFails always
  | .fires i => .retryFires i

def turn (s : CallbackManager) (t : Turn) : Option CallbackManager := s.step t.event

/-- All but the failures. -/
def Turn.own : Turn → Bool
  | .fails => false
  | _ => true

def Turn.cost : Turn → Nat
  | .fails => 3
  | _ => 0

def Worker.due : Worker → Nat
  | .scheduled | .delivering _ => 1
  | _ => 0

/-- A retry task is woken, and what it puts into the queue is taken and delivered. -/
def load (s : CallbackManager) : Nat :=
  4 * tally Retry.tasks s.nextRequest s.retry + 2 * s.queue.length + s.worker.due

/-! ## One turn -/

theorem next_load (h : 0 < s.worker.due ∨ s.queue ≠ []) : s.next.load + 1 ≤ s.load := by
  cases hq : s.queue with
  | nil =>
    have hdue : 0 < s.worker.due := h.resolve_right fun hne => hne hq
    simp only [load, next, hq, Worker.due, List.length_nil] at hdue ⊢
    omega
  | cons i rest =>
    simp only [load, next, hq, Worker.due, List.length_cons]
    omega

theorem load_markCompleted (s : CallbackManager) : s.markCompleted.load = s.load := by
  obtain ⟨-, hn, hq, hr, -, -, -, hw, -⟩ := markCompleted_same s
  simp only [load, hn, hq, hr, hw]

theorem due_put (s : CallbackManager) (i : Nat) : (s.put i).worker.due ≤ s.worker.due + 1 := by
  simp only [put]
  split
  · omega
  · simp only [Worker.due]
    omega

theorem delivered_load (hw : s.worker = .delivering i) (st : Store) :
    (markCompleted { s with store := st, delivered := s.delivered ++ [i] }).next.load + 1 ≤
      s.load := by
  obtain ⟨-, -, -, -, -, -, -, hworker, -⟩ :=
    markCompleted_same { s with store := st, delivered := s.delivered ++ [i] }
  have hdue : 0 < (markCompleted { s with
      store := st, delivered := s.delivered ++ [i] }).worker.due := by
    rw [hworker, hw]
    exact Nat.one_pos
  have hnext := next_load (.inl hdue)
  rw [load_markCompleted] at hnext
  exact hnext

/-- The retry task of a request comes or goes. -/
theorem load_setRetry (hi : i < s.nextRequest) (c : Retry) :
    (s.setRetry i c).load + 4 * (s.retry i).tasks = s.load + 4 * c.tasks := by
  have htally := tally_update Retry.tasks hi s.retry c
  simp only [load, setRetry]
  omega

theorem Turn.filesOk (t : Turn) (s : CallbackManager) : FilesOk s t.event := by
  cases t with
  | delivers => exact fun _ => rfl
  | fails => exact fun _ => rfl
  | _ => exact trivial

theorem Opened.after_turn (h : Opened s) {t : Turn} (hs : turn s t = some s') :
    Opened s' ∧ s'.messages = s.messages ∧ (s.started = true → s'.started = true) := by
  have hfree : EnqueueFree s t.event ∧ StopFree s t.event := by
    cases t <;> exact ⟨trivial, trivial⟩
  exact h.step (t.filesOk s) hfree.1 hfree.2 hs

theorem turn_load (h : Opened s) {t : Turn} (hs : turn s t = some s') :
    s'.load + t.own.toNat ≤ s.load + t.cost := by
  have hopen := (h.after_turn hs).1
  cases t with
  | takes =>
    simp only [turn, Turn.event, step, h.notCancelled, Bool.false_eq_true, if_false] at hs
    split at hs
    · rename_i hw
      cases hs
      exact next_load (.inl (by rw [hw]; exact Nat.one_pos))
    · rename_i hq
      cases hs
      exact next_load (.inr (by rw [hq]; simp))
    · cases hs
  | delivers =>
    simp only [turn, Turn.event, step] at hs
    split at hs
    · rename_i i hw
      split at hs
      · cases hs
      · cases hs
        exact delivered_load hw (s.store.delete i always)
    · cases hs
  | fails =>
    simp only [turn, Turn.event, step] at hs
    split at hs
    · rename_i i hw
      split at hs
      · cases hs
      · split at hs
        · rename_i st _
          cases hs
          have hlt : i < s.nextRequest := h.kept.lt (places_held (held_some hw))
          have hset := load_setRetry (s := { s with store := st }) hlt .sleeping
          have hnext := next_load (s := setRetry { s with store := st } i .sleeping)
            (.inl (by simp only [setRetry, hw]; exact Nat.one_pos))
          have hload : load { s with store := st } = s.load := rfl
          simp only [Retry.tasks, Turn.own, Turn.cost, Bool.toNat_false] at hset ⊢
          omega
        · cases hs
          exact absurd rfl (hopen.running true)
    · cases hs
  | fires i =>
    simp only [turn, Turn.event, step] at hs
    split at hs
    · rename_i hr
      cases hs
      have hlt : i < s.nextRequest := h.kept.lt (places_retry (by rw [hr]; simp))
      have heq : s.retryFires i = (s.put i).setRetry i .none := by
        simp only [retryFires, h.opened, h.lock, Bool.false_eq_true, if_false, if_true]
      have hset := load_setRetry (s := s.put i) hlt .none
      have hput : (s.put i).load + s.worker.due = s.load + 2 + (s.put i).worker.due := by
        simp only [load, put, List.length_append, List.length_singleton]
        omega
      have hdue := due_put s i
      have hold : (s.put i).retry i = .sleeping := hr
      rw [heq]
      simp only [hold, Retry.tasks, Turn.own, Turn.cost, Bool.toNat_true] at hset ⊢
      omega
    · cases hs

theorem Opened.turns {ts : List Turn} (h : Opened s) (hst : s.started = true)
    (hr : run turn s ts = some s') : (Opened s' ∧ s'.started = true) ∧
      ts.countP Turn.own + s'.load ≤ s.load + (ts.map Turn.cost).sum := by
  refine paid (P := fun s => Opened s ∧ s.started = true) Turn.cost (fun s t s' hi _ hs => ?_)
    (fun s t s' hi _ hs => turn_load hi.1 hs) ⟨h, hst⟩ (fun _ _ => trivial) hr
  obtain ⟨hopen, -, hstart⟩ := hi.1.after_turn hs
  exact ⟨hopen, hstart hi.2⟩

/-- The manager goes on as long as deliveries succeed. -/
theorem descends : Descends turn (fun t => t.own = true) Turn.own Opened load where
  kept _ _ _ h _ hs := (h.after_turn hs).1
  falls s t s' h ht hs := by
    have hle := turn_load h hs
    cases t with
    | fails => cases ht
    | _ => exact hle

/-! ## At rest -/

/-- The worker waits for an element, or was never started. -/
theorem Opened.nothing_due (h : Opened s) (hm : EachMsg (fun v => v.plain = true) s)
    (hr : AtRest turn Turn.own s) :
    s.queue = [] ∧ s.held = none ∧ ∀ i, s.retry i = .none := by
  have htakes := hr .takes rfl
  simp only [turn, Turn.event, CallbackManager.step, h.notCancelled,
    Bool.false_eq_true, if_false] at htakes
  have hheld : s.held = none := by
    cases hw : s.worker with
    | delivering i =>
      have hmsg : (s.request i).msg.dumpable = true :=
        PyVal.storable_plain (h.kept.msg_storable (.inr (held_some hw)))
          (hm i (h.kept.lt (places_held (held_some hw))))
      have hdelivers := hr .delivers rfl
      simp [turn, Turn.event, CallbackManager.step, hw, h.notCancelled,
        hmsg] at hdelivers
    | _ => simp only [held, hw]
  refine ⟨?_, hheld, fun i => ?_⟩
  · by_contra hne
    have halive := h.busy hne
    cases hw : s.worker with
    | none => rw [hw] at halive; cases halive
    | done crashed => rw [hw] at halive; cases halive
    | delivering i => rw [held, hw] at hheld; cases hheld
    | scheduled => simp only [hw] at htakes; cases htakes
    | idle =>
      obtain ⟨j, rest, hq⟩ := List.exists_cons_of_ne_nil hne
      simp only [hw, hq] at htakes
      cases htakes
  · refine (h.awake i).resolve_right fun hsleep => ?_
    have hfires := hr (.fires i) rfl
    simp [turn, Turn.event, CallbackManager.step, hsleep] at hfires

theorem Kept.delivered_nodup (h : Kept s) : s.delivered.Nodup := by
  rw [List.nodup_iff_count_le_one]
  intro i
  have hone := h.once i
  simp only [places] at hone
  omega

/-- At rest, each request has been delivered once. -/
theorem Opened.delivered_all (h : Opened s) (hm : EachMsg (fun v => v.plain = true) s)
    (hr : AtRest turn Turn.own s) :
    s.delivered.Perm (List.range s.nextRequest) ∧ s.pending = 0 := by
  obtain ⟨hq, hheld, hretry⟩ := h.nothing_due hm hr
  have hall : ∀ i, i < s.nextRequest → i ∈ s.delivered := by
    intro i hi
    rcases h.scheduled i hi with hd | hm | hw | hs
    · exact hd
    · rw [hq] at hm; cases hm
    · rw [hheld] at hw; cases hw
    · rw [hretry i] at hs; cases hs
  constructor
  · refine (List.perm_ext_iff_of_nodup h.kept.delivered_nodup List.nodup_range).mpr fun i => ?_
    rw [List.mem_range]
    exact ⟨h.kept.delivered_lt, hall i⟩
  · rw [h.counted, undelivered, Nat.count_eq_card_filter_range, Finset.card_eq_zero,
      Finset.filter_eq_empty_iff]
    intro i hi hnot
    exact hnot (hall i (Finset.mem_range.mp hi))

/-- What is delivered has no file, and each file is that of a request. -/
theorem Loaded.no_files (h : Loaded [] s) (hk : Kept s)
    (hall : s.delivered.Perm (List.range s.nextRequest)) (p : CallbackPath) :
    s.store.files p = none := by
  cases hf : s.store.files p with
  | none => rfl
  | some f =>
    obtain ⟨i, hi, hp⟩ := h.homed hf
    have hd : i ∈ s.delivered := hall.mem_iff.mpr (List.mem_range.mpr hi)
    rw [hk.gone i hd p hp] at hf
    cases hf

end CallbackManager

/-! ## Over all processes -/

namespace Lifetimes

open Transition CallbackManager

variable {s : Lifetimes}

/-- What the manager does is what the present process does. -/
theorem run_turns : ∀ {ts : List Turn} {s : Lifetimes} {m : CallbackManager},
    run turn s.manager ts = some m → Steps step Sheltered s { s with manager := m } := by
  intro ts
  induction ts with
  | nil => intro s m hr; cases hr; exact .refl
  | cons t ts ih =>
    intro s m hr
    simp only [run] at hr
    split at hr
    · rename_i m₁ h₁
      have hstep : step s (.manager t.event) = some { s with manager := m₁ } := by
        have hm : s.manager.step t.event = some m₁ := h₁
        simp only [step, hm, Option.map_some]
        cases t <;> simp [isStop, Turn.event]
      have hok : CallbackManager.Steady s.manager t.event := by
        refine ⟨t.filesOk s.manager, ?_⟩
        cases t <;> trivial
      have hsheltered : Sheltered s (.manager t.event) := by
        refine ⟨⟨hok, ?_⟩, fun p => ⟨hok, fun within he => (by cases he)⟩⟩
        cases t <;> trivial
      exact (Steps.single hsheltered hstep).trans (ih (s := { s with manager := m₁ }) hr)
    · cases hr

theorem Holding.opened (h : Holding s) (hns : s.stopped = false) : Opened s.manager where
  toUnstopped := h.unstopped hns
  kept := h.attended.kept
  plain := h.attended.plain

end Lifetimes
end Pyxxl
