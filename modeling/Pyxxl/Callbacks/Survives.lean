import Mathlib.Data.Nat.Count
import Pyxxl.Callbacks.Kept

/-!
# Pyxxl.Callbacks.Survives

The worker of a `CallbackManager` that nobody stops, whatever the messages are and whatever the
file system does.

* `Serving s`: the worker has not ended, `_pending` is the number of requests that are not
  delivered, each of those is queued, with the worker or has a sleeping retry task, and where
  something is queued the worker is there.
* `worker_survives`: a failed delivery whose request can be written to its file, or meets an
  `OSError` first, keeps this; any other ends the worker.
-/

namespace Pyxxl
namespace CallbackManager

open Transition

variable {s s' : CallbackManager} {e : Event} {i j n : Nat}

def StopFree (_ : CallbackManager) : Event → Prop
  | .stop _ _ _ => False
  | _ => True

/-- `_persist_request` will not raise in the `except` branch of the worker: `asdict` returns,
`json.dumps` accepts what it makes, and its text can be encoded if the file can be opened. -/
def Writable (writes : Nat → Bool) (s : CallbackManager) (i : Nat) : Prop :=
  ∃ w, (s.request i).msg.asdict = some w ∧ w.dumpable = true ∧ (writes i = true → w.utf8 = true)

/-- Nobody calls `stop`, and a request whose delivery fails can be written. -/
def Survivable (s : CallbackManager) : Event → Prop
  | .stop _ _ _ => False
  | .workerFails writes => ∀ i, s.worker = .delivering i → Writable writes s i
  | _ => True

def undelivered (s : CallbackManager) : Nat := Nat.count (fun i => i ∉ s.delivered) s.nextRequest

structure Serving (s : CallbackManager) : Prop where
  running : ∀ crashed, s.worker ≠ .done crashed
  counted : s.pending = s.undelivered
  known : ∀ i ∈ s.enqueued, i < s.nextRequest
  scheduled : ∀ i, i < s.nextRequest →
    i ∈ s.delivered ∨ i ∈ s.queue ∨ s.held = some i ∨ s.retry i = .sleeping
  busy : s.queue ≠ [] → s.worker.alive = true

/-- What holds besides as long as nobody calls `stop`. -/
structure Unstopped (s : CallbackManager) : Prop extends Serving s where
  lock : s.workerLock = []
  opened : s.closed = false
  stops : ∀ n, s.stop n = .none
  awake : ∀ i, s.retry i = .none ∨ s.retry i = .sleeping
  once : ∀ i, s.places i ≤ 1
  fresh : ∀ i, s.nextRequest ≤ i → s.places i = 0

theorem unstopped_init (files : CallbackPath → Option StoredFile) (n : Nat) :
    Unstopped (init files n) where
  running _ h := by cases h
  counted := by simp [undelivered, init]
  known i h := by cases h
  scheduled i h := absurd h (Nat.not_lt_zero i)
  busy h := absurd rfl h
  lock := rfl
  opened := rfl
  stops _ := rfl
  awake _ := .inl rfl
  once i := by simp [places, init, held, Retry.tasks]
  fresh i _ := by simp [places, init, held, Retry.tasks]

/-! ## Requests that only move -/

/-- The queue is served, no request is in more places than before, and none gets lost. -/
theorem Unstopped.move (h : Unstopped s) (hm : Moves s s')
    (hw : ∀ crashed, s'.worker ≠ .done crashed) (hp : s'.pending = s.pending)
    (he : s'.enqueued = s.enqueued) (hb : s'.queue ≠ [] → s'.worker.alive = true)
    (hl : s'.workerLock = s.workerLock) (hc : s'.closed = s.closed) (hst : s'.stop = s.stop)
    (hr : ∀ i, s'.retry i = s.retry i ∨ s'.retry i = .none ∧ i ∈ s'.queue) : Unstopped s' where
  running := hw
  counted := by
    rw [hp, undelivered, hm.delivered, hm.next]
    exact h.counted
  known i hi := by
    rw [he] at hi
    rw [hm.next]
    exact h.known i hi
  scheduled i hi := by
    rw [hm.next] at hi
    rw [hm.delivered]
    rcases h.scheduled i hi with hd | hq | hh | hs
    · exact .inl hd
    · exact .inr ((hm.kept i (.inl hq)).imp_right .inl)
    · exact .inr ((hm.kept i (.inr hh)).imp_right .inl)
    · rcases hr i with hi | ⟨-, hi⟩
      · exact .inr (.inr (.inr (hi.trans hs)))
      · exact .inr (.inl hi)
  busy := hb
  lock := hl.trans h.lock
  opened := hc.trans h.opened
  stops n := by rw [hst]; exact h.stops n
  awake i := by
    rcases hr i with hi | ⟨hi, -⟩
    · rw [hi]; exact h.awake i
    · exact .inl hi
  once i := Nat.le_trans (hm.places i) (h.once i)
  fresh i hi := by
    rw [hm.next] at hi
    exact Nat.le_zero.mp (h.fresh i hi ▸ hm.places i)

theorem alive_put (s : CallbackManager) (i : Nat) : (s.put i).worker.alive = true := by
  simp only [put]
  split
  · assumption
  · rfl

theorem running_of_alive (h : s.worker.alive = true) (crashed : Bool) :
    s.worker ≠ .done crashed := by
  intro hc
  rw [hc] at h
  cases h

/-- The worker, which held nothing, takes the first of the queue. -/
theorem Unstopped.take (h : Unstopped s) (hh : s.held = none) : Unstopped s.next := by
  obtain ⟨-, -, -, hr, he, hl, hc, hp, -, hst⟩ := next_same (s := s)
  have halive : s.next.worker.alive = true := by
    simp only [next]
    split <;> rfl
  exact h.move (.take hh) (running_of_alive halive) hp he (fun _ => halive) hl hc hst
    fun i => .inl (by rw [hr])

theorem Unstopped.requeue (h : Unstopped s) (hr : s.retry i ≠ .none) :
    Unstopped ((s.put i).setRetry i .none) := by
  refine h.move (.requeue hr) (running_of_alive (alive_put s i)) rfl rfl (fun _ => alive_put s i)
    rfl rfl rfl
    fun j => ?_
  by_cases hj : j = i
  · subst hj
    exact .inr ⟨by simp [setRetry], mem_put.mpr (.inr rfl)⟩
  · exact .inl (by simp [setRetry, put, hj])

/-- The store does not matter. -/
theorem Unstopped.setStore (h : Unstopped s) (st : Store) : Unstopped { s with store := st } :=
  { h with }

/-! ## Requests that come, fail and are delivered -/

theorem Unstopped.unplaced (h : Unstopped s) :
    s.nextRequest ∉ s.delivered ∧ s.retry s.nextRequest = .none := by
  have hz := h.fresh s.nextRequest (Nat.le_refl _)
  refine ⟨fun hd => ?_, by_contra fun hr => ?_⟩
  · have := List.count_pos_iff.mpr hd
    simp only [places] at hz
    omega
  · have := places_retry hr
    omega

/-- A request is new, and queued. -/
theorem Unstopped.added (h : Unstopped s) (r : CallbackRequest) :
    Unstopped ((s.count r).put s.nextRequest) := by
  have halive := alive_put (s.count r) s.nextRequest
  have hplaces := places_put (s.count r) s.nextRequest
  have hsame : ∀ i, (s.count r).places i = s.places i := fun _ => rfl
  refine ⟨⟨running_of_alive halive, ?_, fun i hi => ?_, fun i hi => ?_, fun _ => halive⟩, h.lock,
    h.opened, h.stops, h.awake, fun i => ?_, fun i hi => ?_⟩
  · show s.pending + 1 = Nat.count (fun i => i ∉ s.delivered) (s.nextRequest + 1)
    rw [Nat.count_succ, if_pos h.unplaced.1, h.counted, undelivered]
  · exact Nat.lt_succ_of_lt (h.known i hi)
  · have hi : i < s.nextRequest + 1 := hi
    rw [held_put, mem_put]
    by_cases he : i = s.nextRequest
    · exact .inr (.inl (.inr he))
    · rcases h.scheduled i (by omega) with hd | hq | hh | hs
      · exact .inl hd
      · exact .inr (.inl (.inl hq))
      · exact .inr (.inr (.inl hh))
      · exact .inr (.inr (.inr hs))
  · rw [hplaces, hsame]
    by_cases he : i = s.nextRequest
    · rw [he, if_pos rfl, h.fresh _ (Nat.le_refl _)]
    · rw [if_neg he]
      exact h.once i
  · have hi : s.nextRequest + 1 ≤ i := hi
    rw [hplaces, hsame, if_neg (by omega)]
    exact h.fresh i (by omega)

/-- The worker's request is nowhere else. -/
theorem Unstopped.only_held (h : Unstopped s) (hd : s.worker = .delivering i) :
    i ∉ s.queue ∧ s.retry i = .none ∧ i ∉ s.delivered ∧ i < s.nextRequest := by
  have hh := held_some hd
  have ho := h.once i
  have hpos := places_held hh
  simp only [places, count_held hh] at ho
  refine ⟨fun hq => ?_, by_contra fun hr => ?_, fun hm => ?_, by_contra fun hn => ?_⟩
  · have := List.count_pos_iff.mpr hq; omega
  · have := Retry.tasks_pos hr; omega
  · have := List.count_pos_iff.mpr hm; omega
  · have := h.fresh i (Nat.le_of_not_lt hn); omega

/-- A delivery has failed, and the request waits for its next attempt. -/
theorem Unstopped.failed (h : Unstopped s) (hd : s.worker = .delivering i) (st : Store) :
    Unstopped ({ s with store := st, worker := .idle }.setRetry i .sleeping) := by
  have hplaces : ∀ j, places ({ s with store := st, worker := .idle }.setRetry i .sleeping) j =
      s.places j := by
    intro j
    have hr := (h.only_held hd).2.1
    simp only [places, setRetry, held, hd, Option.toList_none, Option.toList_some, List.count_nil]
    by_cases hj : j = i
    · subst hj
      simp only [Function.update_self, Retry.tasks, hr, List.count_singleton_self]
    · simp [Function.update_of_ne hj, Ne.symm hj]
  refine ⟨⟨(fun _ hc => by cases hc), h.counted, h.known, fun j hj => ?_, fun _ => rfl⟩, h.lock,
    h.opened, h.stops, fun j => ?_, fun j => ?_, fun j hj => ?_⟩
  · by_cases he : j = i
    · exact .inr (.inr (.inr (by simp [he, setRetry])))
    · rcases h.scheduled j hj with hdl | hq | hh | hs
      · exact .inl hdl
      · exact .inr (.inl hq)
      · rw [held_some hd] at hh
        exact absurd (Option.some.inj hh).symm he
      · exact .inr (.inr (.inr (by simpa [setRetry, he] using hs)))
  · by_cases he : j = i
    · exact .inr (by simp [he, setRetry])
    · simpa [setRetry, he] using h.awake j
  · rw [hplaces]; exact h.once j
  · rw [hplaces]; exact h.fresh j hj

/-- One more is delivered. -/
theorem undelivered_append (hi : i ∉ s.delivered) (hlt : i < s.nextRequest)
    (hd : s'.delivered = s.delivered ++ [i]) (hn : s'.nextRequest = s.nextRequest) :
    s'.undelivered + 1 = s.undelivered := by
  have hfilter : (Finset.range s.nextRequest).filter (fun k => k ∉ s'.delivered) =
      ((Finset.range s.nextRequest).filter fun k => k ∉ s.delivered).erase i := by
    ext k
    simp only [hd, Finset.mem_filter, Finset.mem_erase, List.mem_append, List.mem_singleton]
    tauto
  rw [undelivered, undelivered, Nat.count_eq_card_filter_range, Nat.count_eq_card_filter_range, hn,
    hfilter]
  refine Finset.card_erase_add_one ?_
  exact Finset.mem_filter.mpr ⟨Finset.mem_range.mpr hlt, hi⟩

theorem Unstopped.delivered (h : Unstopped s) (hd : s.worker = .delivering i) (st : Store) :
    Unstopped (markCompleted { s with
      store := st
      delivered := s.delivered ++ [i]
      worker := .idle }) := by
  obtain ⟨-, -, hnd, hlt⟩ := h.only_held hd
  obtain ⟨hp, hn, hq, hr, hl, hdl, he, hw, hc⟩ := markCompleted_same { s with
    store := st
    delivered := s.delivered ++ [i]
    worker := .idle }
  have hheld : held (markCompleted { s with
      store := st
      delivered := s.delivered ++ [i]
      worker := .idle }) = none := by
    rw [held, hw]
  have hplaces : ∀ j, places (markCompleted { s with
      store := st
      delivered := s.delivered ++ [i]
      worker := .idle }) j = s.places j := by
    intro j
    rw [← places_delivered hd st, places, places, hq, hr, hl, hdl, held_markCompleted]
  have hcount := undelivered_append hnd hlt hdl hn
  refine ⟨⟨fun c hcr => ?_, ?_, fun j hj => ?_, fun j hj => ?_, fun _ => by rw [hw]; rfl⟩,
    hl.trans h.lock, hc.trans h.opened, fun n => ?_, fun j => ?_, fun j => ?_, fun j hj => ?_⟩
  · rw [hw] at hcr; cases hcr
  · have hpend := h.counted
    rw [hp]
    show s.pending - 1 = _
    omega
  · rw [he] at hj
    rw [hn]
    exact h.known j hj
  · rw [hn] at hj
    rw [hdl, hq, hheld, hr, List.mem_append, List.mem_singleton]
    rcases h.scheduled j hj with hj | hj | hj | hj
    · exact .inl (.inl hj)
    · exact .inr (.inl hj)
    · rw [held_some hd] at hj
      exact .inl (.inr (Option.some.inj hj).symm)
    · exact .inr (.inr (.inr hj))
  · rw [markCompleted_eq]
    split
    · show (s.stop n).wake = .none
      rw [h.stops n]
      rfl
    · exact h.stops n
  · rw [hr]; exact h.awake j
  · rw [hplaces]; exact h.once j
  · rw [hn] at hj
    rw [hplaces]
    exact h.fresh j hj

/-! ## The steps -/

theorem Unstopped.replays (h : Unstopped s) (paths : List CallbackPath) :
    Unstopped (paths.foldl replay s) := by
  induction paths generalizing s with
  | nil => exact h
  | cons p paths ih =>
    refine ih ?_
    simp only [replay]
    split
    · exact h.added _
    · exact h.setStore _

theorem Unstopped.notCancelled (h : Unstopped s) : s.workerCancelled = false := by
  rw [workerCancelled, h.lock]

theorem Unstopped.step (h : Unstopped s) (hok : Survivable s e) (hs : step s e = some s') :
    Unstopped s' := by
  cases e with
  | start paths =>
    simp only [CallbackManager.step] at hs
    split at hs
    · cases hs; exact h
    · split at hs
      · cases hs; exact { h.replays paths with }
      · cases hs
  | enqueue r =>
    simp only [CallbackManager.step, CallbackManager.enqueue, h.opened, h.lock] at hs
    split at hs
    · simp only [Bool.false_eq_true, if_false, if_true] at hs
      cases hs
      refine { h.added r with known := fun i hi => ?_ }
      rcases List.mem_append.mp hi with hi | hi
      · exact (h.added r).known i hi
      · rw [List.mem_singleton.mp hi]
        exact Nat.lt_succ_self _
    · cases hs
  | resumeEnqueue i => simp [CallbackManager.step, h.lock] at hs
  | cancelEnqueue i => simp [CallbackManager.step, h.lock] at hs
  | workerTakes =>
    simp only [CallbackManager.step, h.notCancelled, Bool.false_eq_true, if_false] at hs
    split at hs
    · rename_i hw; cases hs; exact h.take (by rw [held, hw])
    · rename_i hw _; cases hs; exact h.take (by rw [held, hw])
    · cases hs
  | workerDelivers unlinks =>
    simp only [CallbackManager.step] at hs
    split at hs
    · rename_i i hw
      split at hs
      · cases hs
      · cases hs
        rw [← markCompleted_next]
        exact (h.delivered hw _).take (by rw [held_markCompleted]; rfl)
    · cases hs
  | workerFails writes =>
    simp only [CallbackManager.step, h.notCancelled, Bool.false_eq_true, if_false] at hs
    split at hs
    · rename_i i hw
      split at hs
      · cases hs
        rw [← next_worker _ .idle]
        exact (h.failed hw _).take rfl
      · -- the message was writable
        rename_i st hst
        have hraised := (Store.persist_raises (s.store.attempt i) i writes).mp (by rw [hst])
        simp only [Store.attempt, Store.setRequest, Function.update_self] at hraised
        obtain ⟨w, hdict, hdump, hutf⟩ := hok i hw
        rcases hraised w hdict with hc | ⟨hwr, hc⟩
        · rw [hc] at hdump; cases hdump
        · rw [hutf hwr] at hc; cases hc
    · cases hs
  | workerEnds writes => simp [CallbackManager.step, h.notCancelled] at hs
  | retryFires i =>
    simp only [CallbackManager.step, CallbackManager.retryFires, h.opened, h.lock] at hs
    split at hs
    · rename_i hr
      cases hs
      exact h.requeue (by rw [hr]; simp)
    · cases hs
  | retryResumes i => simp [CallbackManager.step, h.lock] at hs
  | retryEnds i =>
    simp only [CallbackManager.step] at hs
    split at hs
    · rename_i hr
      rcases h.awake i with hn | hn
      · rw [hn] at hr; cases hr
      · rw [hn] at hr; cases hr
    · cases hs
  | stop timed close writes => exact hok.elim
  | stopDrained n writes => simp [CallbackManager.step, h.stops] at hs
  | stopTimeout n writes => simp [CallbackManager.step, h.stops] at hs
  | stopRetriesOver n writes => simp [CallbackManager.step, h.stops] at hs
  | stopLocked n => simp [CallbackManager.step, h.stops] at hs
  | stopJoined n => simp [CallbackManager.step, h.stops] at hs

/-- The second error of the `except` branch ends the loop. -/
theorem fails_unwritable {writes : Nat → Bool} (hw : s.worker = .delivering i)
    (hno : ¬Writable writes s i) (hs : step s (.workerFails writes) = some s') :
    s'.worker = .done true := by
  have hraised : ((s.store.attempt i).persist i writes).2 = false := by
    rw [Store.persist_raises]
    simp only [Store.attempt, Store.setRequest, Function.update_self]
    intro w hdict
    by_contra hc
    simp only [not_or, not_and, Bool.not_eq_false] at hc
    exact hno ⟨w, hdict, hc.1, hc.2⟩
  simp only [CallbackManager.step, hw] at hs
  split at hs
  · cases hs
  · split at hs
    · rename_i st hst
      rw [hst] at hraised
      cases hraised
    · cases hs; rfl

/-- In every run without `stop` in which each request whose delivery fails can be written, if the
file system lets it, the worker goes on and no request gets lost or stuck. A failed delivery of any
other request ends the worker. -/
theorem worker_survives (s : CallbackManager) :
    (Reachable Survivable s → Serving s) ∧
    ∀ i writes s', s.worker = .delivering i → ¬Writable writes s i →
      step s (.workerFails writes) = some s' → ¬Serving s' := by
  refine ⟨fun ⟨files, nextUuid, hs⟩ => ?_, fun i writes s' hw hno hs h => ?_⟩
  · have h : Unstopped s := hs.invariant (fun _ _ _ hi hok hst => hi.step hok hst)
      (unstopped_init files nextUuid)
    exact h.toServing
  · exact h.running true (fails_unwritable hw hno hs)

def surrogate : CallbackRequest := { logId := 1, timestamp := 0, code := 200, msg := .str [0xD800] }

/-- A message no file can hold is delivered at once, the next one at the second attempt. -/
def oddFirst : CallbackManager :=
  (run step (init (fun _ => none) 0) [.start [], .enqueue surrogate,
    .enqueue { surrogate with logId := 2, msg := .none }, .workerTakes,
    .workerDelivers fun _ => true]).get rfl

def oddState : CallbackManager :=
  (run step oddFirst [.workerFails fun _ => true, .retryFires 1, .workerTakes,
    .workerDelivers fun _ => true]).get rfl

theorem worker_survives_odd : Serving oddState := by
  have hquiet : ∀ e : Event, (∀ t c w, e ≠ .stop t c w) → (∀ w, e ≠ .workerFails w) →
      ∀ s, Survivable s e := by
    intro e hstop hfails s
    cases e with
    | stop t c w => exact absurd rfl (hstop t c w)
    | workerFails w => exact absurd rfl (hfails w)
    | _ => trivial
  have hfirst : Steps step Survivable (init (fun _ => none) 0) oddFirst := by
    refine .of_run (fun e he => hquiet e ?_ ?_) (Option.some_get (x := run _ _ _) rfl).symm
    · rintro t c w rfl; simp at he
    · rintro w rfl; simp at he
  have hfails : Survivable oddFirst (.workerFails fun _ => true) := by
    intro i hi
    have hi : Worker.delivering 1 = .delivering i := hi
    cases hi
    exact ⟨.none, rfl, rfl, fun _ => rfl⟩
  refine (worker_survives oddState).1 ⟨fun _ => none, 0, hfirst.trans ?_⟩
  refine (Steps.single hfails rfl).trans (.of_run (fun e he => hquiet e ?_ ?_)
    (show run step _ [.retryFires 1, .workerTakes, .workerDelivers fun _ => true] = _ from rfl))
  · rintro t c w rfl; simp at he
  · rintro w rfl; simp at he

/-- `asdict` copies a set, and `json.dumps` rejects it. -/
def aSet : PyVal := .object none (some (.object none none))

/-- A result `json.dumps` rejects ends the worker while another request is queued. -/
def poisoned : List Event :=
  [.start [], .enqueue { surrogate with msg := aSet }, .enqueue surrogate, .workerTakes,
    .workerFails fun _ => true]

theorem worker_ended : ∃ s, Reachable StopFree s ∧ s.worker = .done true ∧ s.queue = [1] ∧
    s.pending = 2 ∧ s.delivered = [] ∧ s.enqueued = [0, 1] ∧ s.retry 0 = .none := by
  have hfree : ∀ e ∈ poisoned, ∀ s, StopFree s e := by
    intro e he s
    cases e with
    | stop t c w => simp [poisoned] at he
    | _ => trivial
  exact ⟨(run step (init (fun _ => none) 0) poisoned).get rfl, ⟨fun _ => none, 0, .of_run hfree rfl⟩,
    rfl, rfl, rfl, rfl, rfl, rfl⟩

end CallbackManager
end Pyxxl
