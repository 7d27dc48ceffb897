import Pyxxl.Callbacks.Durable

/-!
# Pyxxl.Callbacks.Accounts

`_pending` against the requests that are still to be delivered (`pending_counts`).

* `Balanced s`: `_pending` is the number of live requests, or a `stop` that has timed out is still
  to set it to 0.
* `Accounted s e`: the event takes no live request off without `_mark_completed`, and no live
  request is left when `_pending` is set to 0, as long as nobody is to set it to 0 later.
* Where that fails `_pending` stays above the number of live requests, and a `stop` may wait for
  nothing (`stop_waits_for_nothing`).
-/

namespace Pyxxl
namespace CallbackManager

open Transition

variable {s s' : CallbackManager} {e : Event} {i j m n : Nat} {close drained : Bool}

/-- It has got past its wait, and has not returned. -/
def Stop.past : Stop → Bool
  | .retries _ _ _ | .locking _ _ | .joining _ _ => true
  | _ => false

/-- It has timed out, and will set `_pending` to 0. -/
def Stop.undrained : Stop → Bool
  | .retries _ drained _ | .locking _ drained | .joining _ drained => !drained
  | _ => false

/-- It waits for `_pending_empty`, which was not set since. -/
def Stop.unwoken : Stop → Bool
  | .waiting _ _ woken => !woken
  | _ => false

def Undrained (s : CallbackManager) : Prop := ∃ n, (s.stop n).undrained = true

/-- Another `stop` than `n` will set `_pending` to 0. -/
def OtherUndrained (s : CallbackManager) (n : Nat) : Prop :=
  ∃ m, m ≠ n ∧ (s.stop m).undrained = true

/-- No live request is dropped in the event, and none is left when `_pending` is set to 0, unless
it will be set to 0 afterwards. -/
def Accounted (s : CallbackManager) : Event → Prop
  | .cancelEnqueue _ => s.Undrained
  | .workerEnds _ => s.held = none ∨ s.Undrained
  | .retryFires _ => s.closed = false ∨ s.Undrained
  | .stopDrained _ _ => (∀ i, (s.retry i).active = false) ∨ s.Undrained
  | .stopRetriesOver n _ => (s.stop n).undrained = true → s.workerLock = [] →
      s.worker.alive = false → (∀ i, (s.retry i).active = false) ∨ s.OtherUndrained n
  | .stopLocked n => (s.stop n).undrained = true → s.worker.alive = false →
      s.live = 0 ∨ s.OtherUndrained n
  | .stopJoined n => (s.stop n).undrained = true → s.live = 0 ∨ s.OtherUndrained n
  | _ => True

structure Balanced (s : CallbackManager) : Prop where
  counted : s.live = s.pending ∨ s.Undrained
  empty : s.pending = 0 → s.pendingEmpty = true
  unwoken : ∀ n, (s.stop n).unwoken = true → s.pendingEmpty = false
  cancelled : ∀ i, s.retry i = .cancelling →
    ∃ n close drained todo, s.stop n = .retries close drained todo ∧ i ∈ todo

theorem balanced_init (files : CallbackPath → Option StoredFile) (n : Nat) :
    Balanced (init files n) where
  counted := .inl rfl
  empty _ := rfl
  unwoken n h := by cases h
  cancelled i h := by cases h

/-! ## The number of live requests -/

theorem live_congr (hn : s'.nextRequest = s.nextRequest) (h : ∀ i, s'.Live i ↔ s.Live i) :
    s'.live = s.live :=
  Nat.le_antisymm (live_le hn fun i => (h i).mp) (live_le hn.symm fun i => (h i).mpr)

theorem live_zero (h : ∀ i, ¬s.Live i) : s.live = 0 :=
  Nat.count_iff_forall_not.mpr fun i _ => h i

/-- One request is new, and live. -/
theorem live_new (hn : s'.nextRequest = s.nextRequest + 1)
    (h : ∀ i, s'.Live i ↔ s.Live i ∨ i = s.nextRequest) : s'.live = s.live + 1 := by
  have hold : Nat.count s'.Live s.nextRequest = Nat.count s.Live s.nextRequest :=
    Nat.le_antisymm
      (Nat.count_mono_left fun i hi hl => ((h i).mp hl).resolve_right (Nat.ne_of_lt hi))
      (Nat.count_mono_left fun i _ hl => (h i).mpr (.inl hl))
  rw [live, live, hn, Nat.count_succ, hold, if_pos ((h _).mpr (.inr rfl))]

/-- One request is no longer live. -/
theorem live_gone (hn : s'.nextRequest = s.nextRequest) (h : ∀ i, s'.Live i ↔ s.Live i ∧ i ≠ j)
    (hlt : j < s.nextRequest) (hj : s.Live j) : s'.live = s.live - 1 := by
  rw [live, live, hn, Nat.count_eq_card_filter_range, Nat.count_eq_card_filter_range]
  have hmem : j ∈ (Finset.range s.nextRequest).filter s.Live :=
    Finset.mem_filter.mpr ⟨Finset.mem_range.mpr hlt, hj⟩
  rw [← Finset.card_erase_of_mem hmem]
  congr 1
  ext i
  simp only [Finset.mem_filter, Finset.mem_erase, h]
  constructor
  · rintro ⟨hr, hl, hne⟩
    exact ⟨hne, hr, hl⟩
  · rintro ⟨hne, hr, hl⟩
    exact ⟨hr, hl, hne⟩

/-! ## Requests that come, move and go -/

theorem Balanced.same (h : Balanced s) (hn : s'.nextRequest = s.nextRequest)
    (hp : s'.pending = s.pending) (he : s'.pendingEmpty = s.pendingEmpty)
    (hst : s'.stop = s.stop) (hl : ∀ i, s'.Live i ↔ s.Live i)
    (hc : ∀ i, s'.retry i = .cancelling → s.retry i = .cancelling) : Balanced s' where
  counted := by
    rw [live_congr hn hl, hp, Undrained, hst]
    exact h.counted
  empty hz := by rw [he]; exact h.empty (hp ▸ hz)
  unwoken n hu := by rw [he]; exact h.unwoken n (by rw [← hst]; exact hu)
  cancelled i hi := by rw [hst]; exact h.cancelled i (hc i hi)

/-- `_queue_request` has counted a request, which is now queued or waits for the lock. -/
theorem Balanced.new (h : Balanced s) (hn : s'.nextRequest = s.nextRequest + 1)
    (hp : s'.pending = s.pending + 1) (he : s'.pendingEmpty = false) (hst : s'.stop = s.stop)
    (hl : ∀ i, s'.Live i ↔ s.Live i ∨ i = s.nextRequest) (hr : s'.retry = s.retry) :
    Balanced s' where
  counted := by
    rw [live_new hn hl, hp, Undrained, hst]
    exact h.counted.imp_left (congrArg (· + 1))
  empty hz := by rw [hp] at hz; cases hz
  unwoken _ _ := he
  cancelled i hi := by rw [hst]; exact h.cancelled i (by rw [← hr]; exact hi)

theorem live_put : (s.put i).Live j ↔ s.Live j ∨ j = i := by
  rw [Live, mem_put, held_put, or_assoc, or_left_comm]
  exact or_comm

theorem Balanced.queued (h : Balanced s) (r : CallbackRequest) :
    Balanced ((s.count r).put s.nextRequest) :=
  h.new rfl rfl rfl rfl (fun _ => live_put (s := s.count r)) rfl

theorem live_lock : (s.lock (.enqueue i)).Live j ↔ s.Live j ∨ j = i := by
  simp only [Live, lock, held, List.mem_append, List.mem_singleton, Waiter.enqueue.injEq]
  rw [← or_assoc, ← or_assoc, ← or_assoc, ← or_assoc, or_assoc (c := j = i)]
  grind

theorem Balanced.waits (h : Balanced s) (r : CallbackRequest) :
    Balanced ((s.count r).lock (.enqueue s.nextRequest)) :=
  h.new rfl rfl rfl rfl (fun _ => live_lock (s := s.count r)) rfl

theorem Balanced.replay (h : Balanced s) (p : CallbackPath) : Balanced (s.replay p) := by
  simp only [CallbackManager.replay]
  split
  · exact h.queued _
  · exact h.same rfl rfl rfl rfl (fun _ => Iff.rfl) fun _ hi => hi

theorem Balanced.replays (h : Balanced s) (paths : List CallbackPath) :
    Balanced (paths.foldl CallbackManager.replay s) := by
  induction paths generalizing s with
  | nil => exact h
  | cons p paths ih => exact ih (h.replay p)

theorem Balanced.enqueue (h : Balanced s) (r : CallbackRequest) : Balanced (s.enqueue r) := by
  simp only [CallbackManager.enqueue]
  split
  · exact h
  · split
    · exact (h.queued r).same rfl rfl rfl rfl (fun _ => Iff.rfl) fun _ hi => hi
    · exact h.waits r

/-- A waiting `enqueue` leaves the lock. -/
theorem live_unlock (hl : s.workerLock.head? = some (.enqueue i)) (j : Nat) :
    s.unlock.Live j ∨ j = i ↔ s.Live j := by
  obtain ⟨l, hl⟩ : ∃ l, s.workerLock = .enqueue i :: l := by
    cases hw : s.workerLock with
    | nil => rw [hw] at hl; cases hl
    | cons w l => rw [hw] at hl; cases hl; exact ⟨l, rfl⟩
  simp only [Live, unlock, held, hl, List.tail_cons, List.mem_cons, Waiter.enqueue.injEq]
  grind

theorem Balanced.resume (h : Balanced s) (hl : s.workerLock.head? = some (.enqueue i)) :
    Balanced (s.resumeEnqueue i) :=
  h.same rfl rfl rfl rfl
    (fun j => (live_put (s := s.unlock) (j := j)).trans (live_unlock hl j)) fun _ hi => hi

/-- A retry task puts its request back into the queue. -/
theorem Balanced.requeue (h : Balanced s) (hr : (s.retry i).active = true) :
    Balanced ((s.put i).setRetry i .none) := by
  refine h.same rfl rfl rfl rfl (fun j => ?_) fun j hj => ?_
  · have hi : j = i → (s.retry j).active = true := fun he => he ▸ hr
    have hset : (Function.update s.retry i .none j).active = true ↔
        (s.retry j).active = true ∧ j ≠ i := by
      by_cases hji : j = i
      · subst hji; simp [Retry.active]
      · simp [hji]
    have hheld : ((s.put i).setRetry i .none).held = s.held := held_put s i
    have hqueue : j ∈ ((s.put i).setRetry i .none).queue ↔ j ∈ s.queue ∨ j = i := mem_put
    rw [Live, Live, hheld, hqueue]
    show _ ∨ _ ∨ (Function.update s.retry i .none j).active = true ∨ _ ↔ _
    rw [hset]
    show _ ∨ _ ∨ _ ∨ Waiter.enqueue j ∈ s.workerLock ↔ _
    grind
  · by_cases hji : j = i
    · subst hji
      simp [setRetry] at hj
    · simpa [setRetry, put, hji] using hj

/-! ## The worker -/

theorem mem_queue_next : (i ∈ s.next.queue ∨ s.next.held = some i) ↔ i ∈ s.queue := by
  rw [queue_next, held_next]
  cases s.queue with
  | nil => simp
  | cons j rest => simp [or_comm, eq_comm]

/-- The worker, which held nothing, takes the first of the queue. -/
theorem live_take (hh : s.held = none) : s.next.Live i ↔ s.Live i := by
  obtain ⟨-, -, -, hr, -, hl, -⟩ := next_same (s := s)
  rw [Live, Live, ← or_assoc, mem_queue_next, hr, hl, hh]
  simp

theorem Balanced.take (h : Balanced s) (hh : s.held = none) : Balanced s.next := by
  obtain ⟨-, hn, -, hr, -, -, -, hp, he, hst⟩ := next_same (s := s)
  exact h.same hn hp he hst (fun _ => live_take hh) fun i hi => by rwa [hr] at hi

theorem Balanced.fail (h : Balanced s) (hk : Kept s) (hw : s.worker = .delivering i) (st : Store) :
    Balanced ({ s with store := st, worker := .idle }.setRetry i .sleeping) := by
  refine h.same rfl rfl rfl rfl (fun j => ?_) fun j hj => ?_
  · have hheld : s.held = some i := held_some hw
    have hretry : (s.retry i).active = false := by
      have ho := hk.once i
      simp only [places, count_held hheld] at ho
      cases hc : s.retry i with
      | none => rfl
      | _ => simp only [hc, Retry.tasks] at ho; omega
    have hset : (Function.update s.retry i .sleeping j).active = true ↔
        (s.retry j).active = true ∨ j = i := by
      by_cases hji : j = i
      · subst hji; simp [Retry.active]
      · simp [hji]
    have hsome : s.held = some j ↔ j = i := by
      rw [hheld, Option.some.injEq, eq_comm]
    rw [Live, Live, hsome]
    show _ ∨ none = some j ∨ (Function.update s.retry i .sleeping j).active = true ∨ _ ↔ _
    rw [hset]
    simp only [setRetry, reduceCtorEq, false_or]
    grind
  · by_cases hji : j = i
    · subst hji
      simp [setRetry] at hj
    · simpa [setRetry, hji] using hj

/-- `_mark_completed`, once the request is no longer live. -/
theorem Balanced.complete (h : Balanced s) (hn : s'.nextRequest = s.nextRequest)
    (hp : s'.pending = s.pending) (hst : s'.stop = s.stop)
    (hl : ∀ i, s'.Live i ↔ s.Live i ∧ i ≠ j) (hlt : j < s.nextRequest) (hj : s.Live j)
    (he : s'.pendingEmpty = s.pendingEmpty) (hr : s'.retry = s.retry) :
    Balanced s'.markCompleted := by
  have hcount : s'.live = s'.pending - 1 ∨ s'.Undrained := by
    rw [live_gone hn hl hlt hj, hp, Undrained, hst]
    exact h.counted.imp_left (congrArg (· - 1))
  have hcancelled : ∀ i, s'.retry i = .cancelling →
      ∃ n close drained todo, s'.stop n = .retries close drained todo ∧ i ∈ todo := by
    rw [hr, hst]
    exact h.cancelled
  rw [markCompleted_eq]
  split
  · rename_i hz
    refine ⟨?_, fun _ => rfl, fun n hu => ?_, fun i hi => ?_⟩
    · rw [hz] at hcount
      refine hcount.imp_right fun ⟨n, hn⟩ => ⟨n, ?_⟩
      show (s'.stop n).wake.undrained = true
      cases hc : s'.stop n with
      | waiting timed close woken => rw [hc] at hn; cases hn
      | _ => rw [hc] at hn; exact hn
    · have hu : (s'.stop n).wake.unwoken = true := hu
      cases hc : s'.stop n <;> rw [hc] at hu <;> cases hu
    · obtain ⟨n, close, drained, todo, hn, hi⟩ := hcancelled i hi
      refine ⟨n, close, drained, todo, ?_, hi⟩
      show (s'.stop n).wake = _
      rw [hn]
      rfl
  · rename_i hz
    exact ⟨hcount, fun hzero => absurd hzero hz,
      fun n hu => he.trans (h.unwoken n (by rw [← hst]; exact hu)), hcancelled⟩

theorem Balanced.deliver (h : Balanced s) (hk : Kept s) (hw : s.worker = .delivering i)
    (unlinks : Nat → Bool) :
    Balanced ({ s with
      store := s.store.delete i unlinks
      delivered := s.delivered ++ [i]
      worker := .idle }.markCompleted) := by
  have hheld := held_some hw
  have hlive : s.Live i := .inr (.inl hheld)
  refine h.complete rfl rfl rfl (fun j => ?_) (hk.live_lt hlive) hlive rfl rfl
  obtain ⟨hqueue, hretry, hlock⟩ := hk.held_only hheld
  rw [Live, Live, hheld]
  by_cases hji : j = i
  · subst hji
    simp [held, hqueue, hretry, hlock]
  · simp [held, hji, Ne.symm hji]

/-! ## What a `stop` does -/

/-- The call `n` goes on, or returns, with the counter as it is. -/
structure Goes (s : CallbackManager) (n : Nat) (s' : CallbackManager) : Prop where
  pending : s'.pending = s.pending
  pendingEmpty : s'.pendingEmpty = s.pendingEmpty
  others : ∀ m, m ≠ n → s'.stop m = s.stop m
  unwoken : (s'.stop n).unwoken = false
  cancelled : ∀ i, s'.retry i = .cancelling → s.retry i = .cancelling ∨
    ∃ close drained todo, s'.stop n = .retries close drained todo ∧ i ∈ todo

/-- The call `n` sets `_pending` to 0 and returns. -/
def Resets (s : CallbackManager) (n : Nat) (s' : CallbackManager) : Prop :=
  ∃ (t : CallbackManager) (close : Bool), (t.live = 0 ∨ s.OtherUndrained n) ∧
    (∀ m, m ≠ n → t.stop m = s.stop m) ∧
    (∀ i, t.retry i = .cancelling → s.retry i = .cancelling) ∧
    s' = ({ t with pending := 0 }.setPendingEmpty).setStop n (.returned close false)

/-- The cancelled retry tasks which `n` has waited for are over. -/
def Over (s : CallbackManager) (n : Nat) : Prop :=
  ∀ close drained todo, s.stop n = .retries close drained todo →
    ∀ i ∈ todo, s.retry i ≠ .cancelling

theorem Balanced.cancelledBy (h : Balanced s) (ho : s.Over n) (hi : s.retry i = .cancelling) :
    ∃ m close drained todo, m ≠ n ∧ s.stop m = .retries close drained todo ∧ i ∈ todo := by
  obtain ⟨m, close, drained, todo, hm, ht⟩ := h.cancelled i hi
  refine ⟨m, close, drained, todo, fun he => ?_, hm, ht⟩
  subst he
  exact ho close drained todo hm i ht hi

theorem Balanced.goes (h : Balanced s) (ho : s.Over n) (hg : Goes s n s')
    (hc : s'.live = s'.pending ∨ s'.Undrained) : Balanced s' where
  counted := hc
  empty hz := by rw [hg.pendingEmpty]; exact h.empty (hg.pending ▸ hz)
  unwoken m hu := by
    by_cases hmn : m = n
    · rw [hmn, hg.unwoken] at hu; cases hu
    · rw [hg.pendingEmpty]
      exact h.unwoken m (by rw [← hg.others m hmn]; exact hu)
  cancelled i hi := by
    rcases hg.cancelled i hi with hi | ⟨close, drained, todo, hn, ht⟩
    · obtain ⟨m, close, drained, todo, hmn, hm, ht⟩ := h.cancelledBy ho hi
      exact ⟨m, close, drained, todo, (hg.others m hmn).trans hm, ht⟩
    · exact ⟨n, close, drained, todo, hn, ht⟩

/-- A drained `stop` that takes no live request off. -/
theorem Balanced.goesDrained (h : Balanced s) (ho : s.Over n) (hg : Goes s n s')
    (hu : (s.stop n).undrained = false) (hl : s'.live = s.live ∨ s.Undrained) : Balanced s' := by
  have hund : s.Undrained → s'.Undrained := fun ⟨m, hm⟩ => by
    refine ⟨m, ?_⟩
    rw [hg.others m fun he => by rw [he, hu] at hm; cases hm]
    exact hm
  refine h.goes ho hg ?_
  rcases hl with hl | hl
  · rw [hl, hg.pending]
    exact h.counted.imp_right hund
  · exact .inr (hund hl)

theorem Balanced.reset (h : Balanced s) (ho : s.Over n) (hr : Resets s n s') : Balanced s' := by
  obtain ⟨t, close, hz, hothers, hretry, rfl⟩ := hr
  refine ⟨?_, fun _ => rfl, fun m hu => ?_, fun i hi => ?_⟩
  · refine hz.imp id fun ⟨m, hmn, hm⟩ => ⟨m, ?_⟩
    have hw : (s.stop m).wake.undrained = true := by
      cases hc : s.stop m with
      | waiting timed close woken => rw [hc] at hm; cases hm
      | _ => rw [hc] at hm; exact hm
    simpa [setStop, setPendingEmpty, hmn, hothers m hmn] using hw
  · by_cases hmn : m = n
    · subst hmn
      simp [setStop, Stop.unwoken] at hu
    · simp only [setStop, setPendingEmpty, Function.update_of_ne hmn] at hu
      cases hc : t.stop m <;> rw [hc] at hu <;> cases hu
  · obtain ⟨m, close, drained, todo, hmn, hm, ht⟩ := h.cancelledBy ho (hretry i hi)
    refine ⟨m, close, drained, todo, ?_, ht⟩
    simp only [setStop, setPendingEmpty, Function.update_of_ne hmn, hothers m hmn, hm]
    rfl

theorem Goes.of_same {t : CallbackManager} (h : Goes t n s') (hp : t.pending = s.pending)
    (he : t.pendingEmpty = s.pendingEmpty) (hst : t.stop = s.stop) (hr : t.retry = s.retry) :
    Goes s n s' where
  pending := h.pending.trans hp
  pendingEmpty := h.pendingEmpty.trans he
  others m hm := by rw [h.others m hm, hst]
  unwoken := h.unwoken
  cancelled i hi := by rw [← hr]; exact h.cancelled i hi

theorem setStop_self (s : CallbackManager) (n : Nat) (c : Stop) : (s.setStop n c).stop n = c :=
  Function.update_self ..

theorem goes_setStop {c : Stop} (hc : c.unwoken = false) : Goes s n (s.setStop n c) where
  pending := rfl
  pendingEmpty := rfl
  others m hm := Function.update_of_ne hm ..
  unwoken := by rw [setStop_self]; exact hc
  cancelled _ hi := .inl hi

/-! A `stop` that has drained the queue. -/

/-- Who is no new request and lets go of the lock takes nothing with it. -/
theorem live_unlockOther {w : Waiter} (hl : s.workerLock.head? = some w) (hne : w ≠ .enqueue j) :
    s.unlock.Live j ↔ s.Live j := by
  have hmem : .enqueue j ∈ s.workerLock.tail ↔ .enqueue j ∈ s.workerLock := by
    cases hw : s.workerLock with
    | nil => rfl
    | cons v l =>
      rw [hw] at hl
      cases hl
      rw [List.tail_cons, List.mem_cons]
      exact (or_iff_right hne.symm).symm
  simp only [Live, unlock, held, hmem]

theorem live_unlockStop (hl : s.workerLock.head? = some (.stop n)) :
    s.unlock.live = s.live := live_congr rfl fun _ => live_unlockOther hl nofun

/-- The worker that is not there any more held nothing. -/
theorem live_workerless (hh : s.held = none) :
    live (unlock { s with worker := .none }) = s.unlock.live := by
  refine live_congr rfl fun j => ?_
  show _ ∨ none = some j ∨ _ ↔ _ ∨ s.held = some j ∨ _
  rw [hh]
  rfl

theorem goes_stopLocked (close : Bool) (hk : Kept s) (hl : s.workerLock.head? = some (.stop n)) :
    Goes s n (s.stopLocked n close true) ∧ (s.stopLocked n close true).live = s.live := by
  have hlive : s.unlock.live = s.live := live_unlockStop hl
  simp only [stopLocked]
  split
  · exact ⟨(goes_setStop rfl).of_same (t := s.unlock) rfl rfl rfl rfl, hlive⟩
  · rename_i hw
    exact ⟨(goes_setStop rfl).of_same (t := unlock { s with worker := .none }) rfl rfl rfl rfl,
      (live_workerless (s := s) (by rw [held, hw])).trans hlive⟩
  · rename_i hw
    exact absurd hw hk.uncrashed
  · exact ⟨goes_setStop rfl, rfl⟩

theorem live_lockStop (n j : Nat) : (s.lock (.stop n)).Live j ↔ s.Live j := by
  simp only [Live, lock, held, List.mem_append, List.mem_singleton, reduceCtorEq, or_false]

theorem goes_stopAcquire (close : Bool) (hk : Kept s) :
    Goes s n (s.stopAcquire n close true) ∧ (s.stopAcquire n close true).live = s.live := by
  have hlive : (s.lock (.stop n)).live = s.live := live_congr rfl (live_lockStop n)
  simp only [stopAcquire]
  split
  · rename_i hn
    have ha : Act False False s (s.lock (.stop n)) := .lockStop n
    obtain ⟨hg, hl⟩ := goes_stopLocked close (hk.act ha)
      (show (s.workerLock ++ [Waiter.stop n]).head? = _ by rw [hn]; rfl)
    exact ⟨hg.of_same rfl rfl rfl rfl, hl.trans hlive⟩
  · exact ⟨(goes_setStop rfl).of_same (t := s.lock (.stop n)) rfl rfl rfl rfl, hlive⟩

/-- The retry tasks are cancelled, and waited for by `n`. -/
theorem goes_cancelRetries (hk : Kept s) :
    Goes s n (s.cancelRetries.setStop n (.retries close drained s.retryTasks)) where
  pending := rfl
  pendingEmpty := rfl
  others m hm := Function.update_of_ne hm ..
  unwoken := by rw [setStop_self]; rfl
  cancelled i hi := by
    have hne : s.retry i ≠ .none := fun hn => by
      have hi : (s.retry i).cancel = .cancelling := hi
      rw [hn] at hi
      cases hi
    refine .inr ⟨close, drained, s.retryTasks, Function.update_self .., ?_⟩
    simp only [retryTasks, List.mem_filter, List.mem_range, decide_eq_true_eq]
    exact ⟨hk.lt (places_retry hne), hne⟩

theorem live_cancelRetries (hr : ∀ i, (s.retry i).active = false) (j : Nat) :
    s.cancelRetries.Live j ↔ s.Live j := by
  have hcancel : ((s.retry j).cancel).active = false := by cases s.retry j <;> rfl
  simp only [Live, cancelRetries, held, hr, hcancel, List.mem_filter, Waiter.isRetry,
    Bool.not_false, and_true]

theorem goes_stopWaited (close : Bool) (writes : Nat → Bool) (hk : Kept s) :
    Goes s n (s.stopWaited n close true writes) ∧
      ((∀ i, (s.retry i).active = false) → (s.stopWaited n close true writes).live = s.live) := by
  simp only [stopWaited, stopFlush, if_true]
  split
  · obtain ⟨hg, hl⟩ := goes_stopAcquire (n := n) close hk
    exact ⟨hg, fun _ => hl⟩
  · exact ⟨goes_cancelRetries hk, fun hr => live_congr rfl (live_cancelRetries hr)⟩

/-! A `stop` that has timed out. -/

/-- It goes on, or it has set `_pending` to 0. -/
def TimedOut (s : CallbackManager) (n : Nat) (s' : CallbackManager) : Prop :=
  Goes s n s' ∧ (s'.stop n).undrained = true ∨ Resets s n s'

theorem TimedOut.of_same {t : CallbackManager} (h : TimedOut t n s') (hp : t.pending = s.pending)
    (he : t.pendingEmpty = s.pendingEmpty) (hst : t.stop = s.stop) (hr : t.retry = s.retry) :
    TimedOut s n s' := by
  rcases h with ⟨hg, hu⟩ | ⟨t', close, hz, ho, hc, he'⟩
  · exact .inl ⟨hg.of_same hp he hst hr, hu⟩
  · refine .inr ⟨t', close, ?_, ?_, ?_, he'⟩
    · rw [OtherUndrained, ← hst]; exact hz
    · rw [← hst]; exact ho
    · rw [← hr]; exact hc

theorem timedOut_setStop {c : Stop} (hc : c.unwoken = false) (hu : c.undrained = true) :
    TimedOut s n (s.setStop n c) :=
  .inl ⟨goes_setStop hc, by rw [setStop_self]; exact hu⟩

theorem timedOut_stopEnd (hz : s.live = 0 ∨ s.OtherUndrained n) :
    TimedOut s n (s.stopEnd n close false) :=
  .inr ⟨s, close, hz, fun _ _ => rfl, fun _ hi => hi, rfl⟩

theorem timedOut_stopLocked (hk : Kept s) (hl : s.workerLock.head? = some (.stop n))
    (hz : s.worker.alive = false → s.live = 0 ∨ s.OtherUndrained n) :
    TimedOut s n (s.stopLocked n close false) := by
  have hlive : s.unlock.live = s.live := live_unlockStop hl
  simp only [stopLocked]
  split
  · rename_i hw
    refine (timedOut_stopEnd (s := s.unlock) ?_).of_same rfl rfl rfl rfl
    rw [hlive]
    exact hz (by rw [hw]; rfl)
  · rename_i hw
    refine (timedOut_stopEnd (s := unlock { s with worker := .none }) ?_).of_same rfl rfl rfl rfl
    rw [live_workerless (by rw [held, hw]), hlive]
    exact hz (by rw [hw]; rfl)
  · rename_i hw
    exact absurd hw hk.uncrashed
  · exact timedOut_setStop rfl rfl

theorem timedOut_stopAcquire (hk : Kept s)
    (hz : s.workerLock = [] → s.worker.alive = false → s.live = 0 ∨ s.OtherUndrained n) :
    TimedOut s n (s.stopAcquire n close false) := by
  have hlive : (s.lock (.stop n)).live = s.live := live_congr rfl (live_lockStop n)
  simp only [stopAcquire]
  split
  · rename_i hn
    have ha : Act False False s (s.lock (.stop n)) := .lockStop n
    refine (timedOut_stopLocked (hk.act ha)
      (show (s.workerLock ++ [Waiter.stop n]).head? = _ by rw [hn]; rfl) fun hw => ?_).of_same
      rfl rfl rfl rfl
    rw [hlive]
    exact hz hn hw
  · exact (timedOut_setStop (s := s.lock (.stop n)) rfl rfl).of_same rfl rfl rfl rfl

theorem held_dead (h : s.worker.alive = false) : s.held = none := by
  cases hc : s.worker with
  | delivering i => rw [hc] at h; cases h
  | _ => rw [held, hc]

/-- What was queued is written; the worker that is not there holds nothing. -/
theorem timedOut_stopFlush {writes : Nat → Bool} (hk : Kept s) (hw : ∀ i, writes i = true)
    (hz : s.workerLock = [] → s.worker.alive = false →
      (∀ i, (s.retry i).active = false) ∨ s.OtherUndrained n) :
    TimedOut s n (s.stopFlush n close false writes) := by
  obtain ⟨t, he, (ha : Acts False False s t), hq, hl, hwk, hr, -, hp, hst, -⟩ :=
    acts_persistBuffered hw hk rfl
  have hpe : t.pendingEmpty = s.pendingEmpty := by
    have hflag : ∀ (l : List Nat) (s : CallbackManager),
        (persistBuffered writes l s).1.pendingEmpty = s.pendingEmpty := by
      intro l
      induction l with
      | nil => exact fun _ => rfl
      | cons i rest ih =>
        intro s
        simp only [persistBuffered]
        split
        · exact ih _
        · rfl
    rw [← hflag s.queue s, he]
  simp only [stopFlush, Bool.false_eq_true, if_false, he]
  refine (timedOut_stopAcquire (ha.kept hk) fun hlock halive => ?_).of_same hp hpe hst hr
  rw [OtherUndrained, hst]
  refine (hz (hl ▸ hlock) (hwk ▸ halive)).imp_left fun hno => live_zero fun i hi => ?_
  rcases hi with hi | hi | hi | hi
  · rw [hq] at hi; cases hi
  · rw [held_dead halive] at hi; cases hi
  · rw [hr, hno] at hi; cases hi
  · rw [hlock] at hi; cases hi

theorem timedOut_stopWaited {writes : Nat → Bool} (hk : Kept s) (hw : ∀ i, writes i = true) :
    TimedOut s n (s.stopWaited n close false writes) := by
  simp only [stopWaited]
  split
  · rename_i hr
    exact timedOut_stopFlush hk hw fun _ _ => .inl (inactive_of_retryTasks hk hr)
  · exact .inl ⟨goes_cancelRetries hk, by rw [setStop_self]; rfl⟩

theorem Balanced.timedOut (h : Balanced s) (ho : s.Over n) (ht : TimedOut s n s') :
    Balanced s' := by
  rcases ht with ⟨hg, hu⟩ | hr
  · exact h.goes ho hg (.inr ⟨n, hu⟩)
  · exact h.reset ho hr

/-! ## The steps -/

theorem Retry.active_update {f : Nat → Retry} {c : Retry} (hc : c.active = (f i).active) (j : Nat) :
    (Function.update f i c j).active = (f j).active := by
  by_cases hji : j = i
  · rw [hji, Function.update_self, hc]
  · rw [Function.update_of_ne hji]

theorem Retry.cancelling_update {f : Nat → Retry} {c : Retry} (hc : c ≠ .cancelling)
    (hi : Function.update f i c j = .cancelling) : f j = .cancelling := by
  by_cases hji : j = i
  · subst hji
    rw [Function.update_self] at hi
    exact absurd hi hc
  · rwa [Function.update_of_ne hji] at hi

/-- A retry task that finds the manager open puts its request into the queue, or waits. -/
theorem Balanced.retryFires (h : Balanced s) (hr : s.retry i = .sleeping)
    (hc : s.closed = false ∨ s.Undrained) : Balanced (s.retryFires i) := by
  have hactive : (s.retry i).active = true := by rw [hr]; rfl
  simp only [CallbackManager.retryFires]
  split
  · rename_i hclosed
    have hund : s.Undrained := hc.resolve_left (by rw [hclosed]; simp)
    exact ⟨.inr hund, h.empty, h.unwoken,
      fun j hj => h.cancelled j (Retry.cancelling_update (by simp) hj)⟩
  · split
    · exact h.requeue hactive
    · refine h.same rfl rfl rfl rfl (fun j => ?_)
        fun j hj => Retry.cancelling_update (i := i) (c := .parked) (by simp) hj
      have hset : (Function.update s.retry i .parked j).active = (s.retry j).active :=
        Retry.active_update (by rw [hactive]; rfl) j
      simp only [Live, setRetry, lock, held, hset, List.mem_append, List.mem_singleton,
        reduceCtorEq, or_false]

theorem over_notRetries (hn : ∀ close drained todo, s.stop n ≠ .retries close drained todo) :
    s.Over n := fun close drained todo h => absurd h (hn close drained todo)

/-- A call that waits for `_pending_empty` waits for no retry task. -/
theorem over_waiting {timed close woken : Bool} (h : s.stop n = .waiting timed close woken) :
    s.Over n := over_notRetries fun _ _ _ => by rw [h]; exact nofun

theorem Balanced.stopCall {writes : Nat → Bool} (h : Balanced s) (hk : Kept s) (hp : Plain s)
    (timed close : Bool) : Balanced (s.stopCall timed close writes) := by
  have hfresh : s.stop s.nextStop = .none := hp.fresh _ (Nat.le_refl _)
  have h₁ : Balanced { s with closed := s.closed || close, nextStop := s.nextStop + 1 } :=
    h.same rfl rfl rfl rfl (fun _ => Iff.rfl) fun _ hi => hi
  have hk₁ : Kept { s with closed := s.closed || close, nextStop := s.nextStop + 1 } :=
    hk.move (.same rfl rfl rfl rfl (fun _ h => h) (fun _ => Nat.le_refl _) rfl rfl)
  simp only [CallbackManager.stopCall]
  split
  · rename_i hw
    simp only [Bool.and_eq_true, decide_eq_true_eq, Bool.not_eq_true'] at hw
    refine ⟨h.counted.imp_right ?_, h.empty, fun _ _ => hw.2, fun i hi => ?_⟩
    · rintro ⟨m, hm⟩
      have hmn : m ≠ s.nextStop := fun he => by rw [he, hfresh] at hm; cases hm
      exact ⟨m, by simpa [setStop, hmn] using hm⟩
    · obtain ⟨m, close, drained, todo, hm, ht⟩ := h.cancelled i hi
      have hmn : m ≠ s.nextStop := fun he => by rw [he, hfresh] at hm; cases hm
      exact ⟨m, close, drained, todo, by simpa [setStop, hmn] using hm, ht⟩
  · rename_i hw
    -- nobody is counted, so that no request waits for its next attempt
    have hzero : s.pending = 0 := by
      simp only [Bool.and_eq_true, decide_eq_true_eq, Bool.not_eq_true', not_and,
        Bool.not_eq_false] at hw
      by_contra hz
      exact hz (hp.empty (hw (Nat.pos_of_ne_zero hz)))
    obtain ⟨hg, hl⟩ := goes_stopWaited (n := s.nextStop) close writes hk₁
    have hund : (s.stop s.nextStop).undrained = false := by rw [hfresh]; rfl
    refine h₁.goesDrained (fun _ _ _ hn => ?_) hg hund ?_
    · rw [show s.stop s.nextStop = _ from hn] at hfresh
      cases hfresh
    · refine h.counted.imp_left fun hc => hl fun i => ?_
      by_contra hi
      have hlive : s.Live i := .inr (.inr (.inl (by simpa using hi)))
      have hno := Nat.count_iff_forall_not.mp (hc.trans hzero) i (hk.live_lt hlive)
      exact hno hlive

/-- The retry task that has waited for the lock puts its request into the queue. -/
theorem Balanced.retryResumes (h : Balanced s) (hr : s.retry i = .parked)
    (hl : s.workerLock.head? = some (.retry i)) : Balanced ((s.unlock.put i).setRetry i .none) := by
  have hunlock : Balanced s.unlock :=
    h.same rfl rfl rfl rfl (fun _ => live_unlockOther hl nofun) fun _ hi => hi
  exact hunlock.requeue (i := i) (by rw [unlock, hr]; rfl)

/-- A cancelled retry task ends. -/
theorem Balanced.retryEnds (h : Balanced s) (hr : s.retry i = .cancelling) :
    Balanced (s.setRetry i .none) := by
  refine h.same rfl rfl rfl rfl (fun j => ?_)
    fun j hj => Retry.cancelling_update (i := i) (c := .none) (by simp) hj
  have hset : (Function.update s.retry i .none j).active = (s.retry j).active :=
    Retry.active_update (by rw [hr]; rfl) j
  simp only [Live, setRetry, held, hset]

/-- A cancelled worker that holds a request drops it. -/
theorem Balanced.workerDrops (h : Balanced s) (ha : s.held = none ∨ s.Undrained)
    (hw : s.worker = .delivering i) (st : Store) (b : Bool) :
    Balanced { s with store := st, worker := .done b } :=
  ⟨.inr (ha.resolve_left (by rw [held, hw]; exact Option.some_ne_none i)), h.empty, h.unwoken,
    h.cancelled⟩

theorem Balanced.workerEnds (h : Balanced s) (hh : s.held = none) (b : Bool) :
    Balanced { s with worker := .done b } := by
  refine h.same rfl rfl rfl rfl (fun j => ?_) fun _ hi => hi
  show _ ∨ none = some j ∨ _ ↔ _ ∨ s.held = some j ∨ _
  rw [hh]

/-! The steps of a `stop` that waits for nothing more. -/

theorem Balanced.stopRetriesOver {writes : Nat → Bool} {todo : List Nat} (h : Balanced s)
    (hk : Kept s) (hst : s.stop n = .retries close drained todo)
    (hover : ∀ i ∈ todo, s.retry i = .none) (hw : ∀ i, writes i = true)
    (hz : drained = false → s.workerLock = [] → s.worker.alive = false →
      (∀ i, (s.retry i).active = false) ∨ s.OtherUndrained n) :
    Balanced (s.stopFlush n close drained writes) := by
  have ho : s.Over n := by
    intro _ _ _ hn i hi
    rw [hst] at hn
    cases hn
    rw [hover i hi]
    exact nofun
  cases drained with
  | true =>
    obtain ⟨hg, hl⟩ := goes_stopAcquire (n := n) close hk
    exact h.goesDrained ho hg (by rw [hst]; rfl) (.inl hl)
  | false => exact h.timedOut ho (timedOut_stopFlush hk hw (hz rfl))

theorem Balanced.stopLocked (h : Balanced s) (hk : Kept s) (hst : s.stop n = .locking close drained)
    (hl : s.workerLock.head? = some (.stop n))
    (hz : drained = false → s.worker.alive = false → s.live = 0 ∨ s.OtherUndrained n) :
    Balanced (s.stopLocked n close drained) := by
  have ho : s.Over n := over_notRetries fun _ _ _ => by rw [hst]; exact nofun
  cases drained with
  | true =>
    obtain ⟨hg, hlive⟩ := goes_stopLocked close hk hl
    exact h.goesDrained ho hg (by rw [hst]; rfl) (.inl hlive)
  | false => exact h.timedOut ho (timedOut_stopLocked hk hl (hz rfl))

/-- The worker that `stop` has waited for is gone. -/
theorem Balanced.stopJoined {crashed : Bool} (h : Balanced s)
    (hst : s.stop n = .joining close drained) (hw : s.worker = .done crashed)
    (hl : s.workerLock.head? = some (.stop n))
    (hz : drained = false → s.live = 0 ∨ s.OtherUndrained n) :
    Balanced ({ s with worker := .none }.unlock.stopEnd n close drained) := by
  have ho : s.Over n := over_notRetries fun _ _ _ => by rw [hst]; exact nofun
  have hlive : live (unlock { s with worker := .none }) = s.live :=
    (live_workerless (by rw [held, hw])).trans (live_unlockStop hl)
  cases drained with
  | true =>
    exact h.goesDrained ho
      ((goes_setStop rfl).of_same (t := unlock { s with worker := .none }) rfl rfl rfl rfl)
      (by rw [hst]; rfl) (.inl hlive)
  | false =>
    refine h.timedOut ho ((timedOut_stopEnd
      (s := unlock { s with worker := .none }) ?_).of_same rfl rfl rfl rfl)
    rw [hlive]
    exact hz rfl

theorem Balanced.step (hk : Kept s) (hp : Plain s) (h : Balanced s) (hf : FilesOk s e)
    (ha : Accounted s e) (hs : CallbackManager.step s e = some s') : Balanced s' := by
  cases e with
  | start paths =>
    simp only [CallbackManager.step] at hs
    split at hs
    · cases hs; exact h
    · split at hs
      · cases hs
        exact (h.replays paths).same rfl rfl rfl rfl (fun _ => Iff.rfl) fun _ hi => hi
      · cases hs
  | enqueue r =>
    simp only [CallbackManager.step] at hs
    split at hs
    · cases hs; exact h.enqueue r
    · cases hs
  | resumeEnqueue i =>
    simp only [CallbackManager.step] at hs
    split at hs
    · rename_i hl; cases hs; exact h.resume hl
    · cases hs
  | cancelEnqueue i =>
    simp only [CallbackManager.step] at hs
    split at hs
    · cases hs; exact ⟨.inr ha, h.empty, h.unwoken, h.cancelled⟩
    · cases hs
  | workerTakes =>
    simp only [CallbackManager.step] at hs
    split at hs
    · cases hs
    · split at hs
      · rename_i hw; cases hs; exact h.take (by rw [held, hw])
      · rename_i hw _; cases hs; exact h.take (by rw [held, hw])
      · cases hs
  | workerDelivers unlinks =>
    simp only [CallbackManager.step] at hs
    split at hs
    · rename_i i hw
      split at hs
      · cases hs
      · cases hs
        rw [← markCompleted_next]
        exact (h.deliver hk hw unlinks).take (by rw [held_markCompleted]; rfl)
    · cases hs
  | workerFails writes =>
    cases hw : s.worker with
    | delivering i =>
      rw [step_workerFails hk hw (hf i) hs, ← next_worker _ .idle]
      exact (h.fail hk hw _).take rfl
    | _ =>
      simp only [CallbackManager.step, hw] at hs
      cases hs
  | workerEnds writes =>
    simp only [CallbackManager.step] at hs
    split at hs
    · split at hs
      · rename_i hw; cases hs; exact h.workerDrops ha hw _ _
      · rename_i hw; cases hs; exact h.workerEnds (by rw [held, hw]) _
      · rename_i hw; cases hs; exact h.workerEnds (by rw [held, hw]) _
      · cases hs
    · cases hs
  | retryFires i =>
    simp only [CallbackManager.step] at hs
    split at hs
    · rename_i hr; cases hs; exact h.retryFires hr ha
    · cases hs
  | retryResumes i =>
    simp only [CallbackManager.step] at hs
    split at hs
    · rename_i hr; cases hs; exact h.retryResumes hr.1 hr.2
    · cases hs
  | retryEnds i =>
    simp only [CallbackManager.step] at hs
    split at hs
    · rename_i hr; cases hs; exact h.retryEnds hr
    · cases hs
  | stop timed close writes =>
    simp only [CallbackManager.step] at hs
    cases hs
    exact h.stopCall hk hp timed close
  | stopDrained n writes =>
    simp only [CallbackManager.step] at hs
    split at hs
    · rename_i timed close hst
      cases hs
      obtain ⟨hg, hl⟩ := goes_stopWaited (n := n) close writes hk
      exact h.goesDrained (over_waiting hst) hg (by rw [hst]; rfl) (ha.imp_left hl)
    · cases hs
  | stopTimeout n writes =>
    simp only [CallbackManager.step] at hs
    split at hs
    · rename_i close woken hst
      cases hs
      exact h.timedOut (over_waiting hst) (timedOut_stopWaited hk hf)
    · cases hs
  | stopRetriesOver n writes =>
    simp only [CallbackManager.step] at hs
    split at hs
    · rename_i close drained todo hst
      split at hs
      · rename_i hover
        cases hs
        refine h.stopRetriesOver hk hst hover hf ?_
        rintro rfl
        exact ha (by rw [hst]; rfl)
      · cases hs
    · cases hs
  | stopLocked n =>
    simp only [CallbackManager.step] at hs
    split at hs
    · rename_i close drained hst
      split at hs
      · rename_i hl
        cases hs
        refine h.stopLocked hk hst hl ?_
        rintro rfl
        exact ha (by rw [hst]; rfl)
      · cases hs
    · cases hs
  | stopJoined n =>
    simp only [CallbackManager.step] at hs
    split at hs
    · rename_i close drained crashed hst hw
      split at hs
      · rename_i hl
        split at hs
        · rename_i hcr
          rw [hcr] at hw
          exact absurd hw hk.uncrashed
        · cases hs
          refine h.stopJoined hst hw hl ?_
          rintro rfl
          exact ha (by rw [hst]; rfl)
      · cases hs
    · cases hs

/-! ## Runs -/

/-- File operations succeed, messages can be stored, and no live request is dropped. -/
def Counted (s : CallbackManager) (e : Event) : Prop := FilesOk s e ∧ Accounted s e

theorem reachable_balanced (h : Reachable Counted s) : Kept s ∧ Plain s ∧ Balanced s := by
  obtain ⟨files, nextUuid, hs⟩ := h
  refine hs.invariant (P := fun s => Kept s ∧ Plain s ∧ Balanced s) (fun _ _ _ hi hok hst => ?_)
    ⟨kept_init files nextUuid, plain_init files nextUuid, balanced_init files nextUuid⟩
  have ha : Acts False False _ _ := step_acts hi.1 hi.2.1 hok.1 False.elim False.elim hst
  exact ⟨ha.kept hi.1, ha.plain hi.2.1, hi.2.2.step hi.1 hi.2.1 hok.1 hok.2 hst⟩

/-- In runs that drop no live request, whenever no `stop` is past its wait: `_pending` is the number
of live requests, `_pending_empty` is set iff it is 0, each retry task that is not over will put its
request into the queue, and for each `stop` that waits for `_pending_empty`, unset since, there is a
live request. -/
theorem pending_counts (s : CallbackManager) (h : Reachable Counted s)
    (hn : ∀ n, (s.stop n).past = false) :
    s.pending = s.live ∧ (s.pendingEmpty = true ↔ s.pending = 0) ∧
      (∀ i, s.retry i ≠ .none → (s.retry i).active = true) ∧
      ∀ n timed close, s.stop n = .waiting timed close false → ∃ i, s.Live i := by
  obtain ⟨hk, hp, hb⟩ := reachable_balanced h
  have hcount : s.live = s.pending := by
    refine hb.counted.resolve_right fun ⟨n, hu⟩ => ?_
    have hpast := hn n
    cases hc : s.stop n <;> rw [hc] at hu hpast <;> first | cases hu | cases hpast
  refine ⟨hcount.symm, ⟨hp.empty, hb.empty⟩, fun i hi => ?_, fun n timed close hw => ?_⟩
  · cases hc : s.retry i with
    | none => exact absurd hc hi
    | sleeping => rfl
    | parked => rfl
    | cancelling =>
      obtain ⟨n, close, drained, todo, hst, -⟩ := hb.cancelled i hc
      have hpast := hn n
      rw [hst] at hpast
      cases hpast
  · by_contra hno
    have hzero : s.pending = 0 := hcount.symm.trans (live_zero fun i hi => hno ⟨i, hi⟩)
    have hset := hb.empty hzero
    rw [hb.unwoken n (by rw [hw]; rfl)] at hset
    cases hset

/-- Two requests; one waits for its next attempt, and a `stop` waits for both. -/
def retryRun : List Event :=
  [.start [], report 1, report 2, .workerTakes, .workerFails always, .stop true false always]

def retrying : CallbackManager := (run step empty retryRun).get rfl

theorem pending_counts_retrying : retrying.pending = retrying.live ∧
    (retrying.pendingEmpty = true ↔ retrying.pending = 0) ∧
    (∀ i, retrying.retry i ≠ .none → (retrying.retry i).active = true) ∧
    ∀ n timed close, retrying.stop n = .waiting timed close false → ∃ i, retrying.Live i := by
  have hrun : run step empty retryRun = some retrying := rfl
  refine pending_counts retrying ⟨fun _ => none, 0, .of_run (fun e he s => ?_) hrun⟩ fun n => ?_
  · simp only [retryRun, List.mem_cons, List.not_mem_nil, or_false, report] at he
    rcases he with rfl | rfl | rfl | rfl | rfl | rfl
    · exact ⟨(fun p hp => by cases hp), trivial⟩
    · exact ⟨rfl, trivial⟩
    · exact ⟨rfl, trivial⟩
    · exact ⟨trivial, trivial⟩
    · exact ⟨fun _ => rfl, trivial⟩
    · exact ⟨fun _ => rfl, trivial⟩
  · show (Function.update (fun _ => Stop.none) 0 (.waiting true false false) n).past = false
    by_cases hz : n = 0
    · subst hz; rfl
    · rw [Function.update_of_ne hz]; rfl

/-- A delivery has failed, and the manager is closed before the next attempt. -/
def closedRun : List Event :=
  [.start [], report 1, .workerTakes, .workerFails always, .stop false true always, .retryFires 0]

/-- The retry task drops its request, and `stop` waits for nothing. -/
theorem stop_waits_for_nothing : ∃ s, Reachable FilesOk s ∧ (∀ n, (s.stop n).past = false) ∧
    s.stop 0 = .waiting false true false ∧ s.pending = 1 ∧ s.live = 0 ∧ ∀ i, ¬s.Live i := by
  have hok : ∀ e ∈ closedRun, ∀ s, FilesOk s e := by
    intro e he s
    simp only [closedRun, List.mem_cons, List.not_mem_nil, or_false, report] at he
    rcases he with rfl | rfl | rfl | rfl | rfl | rfl
    · exact fun p hp => by cases hp
    all_goals first | exact fun _ => rfl | exact trivial | exact rfl
  have hno : ∀ i, ¬((run step empty closedRun).get rfl).Live i := by
    rintro i (hi | hi | hi | hi)
    · have hi : i ∈ ([] : List Nat) := hi
      cases hi
    · have hi : none = some i := hi
      cases hi
    · have hi : (Function.update (Function.update (fun _ => Retry.none) 0 .sleeping) 0 .none
          i).active = true := hi
      rw [Function.update_idem] at hi
      by_cases hz : i = 0
      · subst hz; cases hi
      · rw [Function.update_of_ne hz] at hi; cases hi
    · have hi : Waiter.enqueue i ∈ ([] : List Waiter) := hi
      cases hi
  refine ⟨(run step empty closedRun).get rfl, ⟨fun _ => none, 0, .of_run hok rfl⟩, fun n => ?_,
    rfl, rfl, live_zero hno, hno⟩
  show (Function.update (fun _ => Stop.none) 0 (.waiting false true false) n).past = false
  by_cases hz : n = 0
  · subst hz; rfl
  · rw [Function.update_of_ne hz]; rfl

end CallbackManager
end Pyxxl
