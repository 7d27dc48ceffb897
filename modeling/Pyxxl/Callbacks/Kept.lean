import Pyxxl.Callbacks.Acts

/-!
# Pyxxl.Callbacks.Kept

Where the requests of a `CallbackManager` are.

* `places s i`: in how many of the queue, the worker, the retry tasks, the calls that wait for the
  worker lock and the delivered requests `i` is. It is never more than one.
* `Kept s`: a request whose `enqueue` has returned is delivered, queued, with the worker or stored;
  one with a retry task is stored; one that is delivered has no file left.
* `Plain s`: what holds of the flags and the counter besides.
-/

namespace Pyxxl
namespace CallbackManager

variable {tidy muted : Prop} {s s' : CallbackManager} {e : Event} {i j n : Nat}

def Retry.tasks : Retry → Nat
  | .none => 0
  | _ => 1

def places (s : CallbackManager) (i : Nat) : Nat :=
  s.queue.count i + s.held.toList.count i + (s.retry i).tasks + s.workerLock.count (.enqueue i) +
    s.delivered.count i

structure Kept (s : CallbackManager) : Prop where
  store : s.store.Ok
  tidy : s.store.Tidy
  once : ∀ i, s.places i ≤ 1
  fresh : ∀ i, s.nextRequest ≤ i → s.places i = 0 ∧ s.store.home i = none
  storable : ∀ i, i < s.nextRequest → (s.request i).msg.storable = true
  retries : ∀ i, s.retry i ≠ .none → s.store.Stored i
  kept : ∀ i ∈ s.enqueued, i ∈ s.delivered ∨ i ∈ s.queue ∨ s.held = some i ∨ s.store.Stored i
  gone : ∀ i ∈ s.delivered, s.store.Gone i
  uncrashed : s.worker ≠ .done true

theorem kept_init (files : CallbackPath → Option StoredFile) (n : Nat) : Kept (init files n) where
  store := Store.init_ok files n
  tidy i p h := by cases h
  once i := by simp [places, init, held, Retry.tasks]
  fresh i _ := ⟨by simp [places, init, held, Retry.tasks], rfl⟩
  storable i h := absurd h (Nat.not_lt_zero i)
  retries i h := absurd rfl h
  kept i h := by cases h
  gone i h := by cases h
  uncrashed h := by cases h

theorem Kept.lt (h : Kept s) (hi : 0 < s.places i) : i < s.nextRequest := by
  by_contra hn
  have := (h.fresh i (Nat.le_of_not_lt hn)).1
  omega

theorem count_held (h : s.held = some i) : s.held.toList.count i = 1 := by
  rw [h]
  exact List.count_singleton_self ..

theorem Retry.tasks_pos {c : Retry} (h : c ≠ .none) : c.tasks = 1 := by
  cases c with
  | none => exact absurd rfl h
  | _ => rfl

theorem places_held (h : s.held = some i) : 0 < s.places i := by
  simp only [places, count_held h]
  omega

theorem places_queue (h : i ∈ s.queue) : 0 < s.places i := by
  have := List.count_pos_iff.mpr h
  simp only [places]
  omega

theorem places_retry (h : s.retry i ≠ .none) : 0 < s.places i := by
  simp only [places, Retry.tasks_pos h]
  omega

/-- What the worker or the queue holds is not delivered, and has no retry task. -/
theorem Kept.undelivered (h : Kept s) (hi : i ∈ s.queue ∨ s.held = some i) : i ∉ s.delivered := by
  intro hd
  have hc := List.count_pos_iff.mpr hd
  have ho := h.once i
  rcases hi with hq | hh
  · have := List.count_pos_iff.mpr hq
    simp only [places] at ho
    omega
  · simp only [places, count_held hh] at ho
    omega

/-! ## Requests that only move -/

/-- No request is new, none is in more places than before, and one that leaves the queue and the
worker is stored. -/
structure Moves (s s' : CallbackManager) : Prop where
  store : s'.store = s.store
  next : s'.nextRequest = s.nextRequest
  places : ∀ i, s'.places i ≤ s.places i
  delivered : s'.delivered = s.delivered
  retries : ∀ i, s'.retry i ≠ .none → s.retry i ≠ .none
  enqueued : ∀ i ∈ s'.enqueued, i ∈ s.enqueued ∨ i ∈ s'.queue
  kept : ∀ i, i ∈ s.queue ∨ s.held = some i → i ∈ s'.queue ∨ s'.held = some i
  uncrashed : s'.worker = .done true → s.worker = .done true

theorem Kept.move (h : Kept s) (m : Moves s s') : Kept s' where
  store := by rw [m.store]; exact h.store
  tidy := by rw [m.store]; exact h.tidy
  once i := Nat.le_trans (m.places i) (h.once i)
  fresh i hi := by
    rw [m.next] at hi
    obtain ⟨hp, hh⟩ := h.fresh i hi
    exact ⟨Nat.le_zero.mp (hp ▸ m.places i), by rw [m.store]; exact hh⟩
  storable i hi := by
    rw [m.next] at hi
    rw [request, m.store]
    exact h.storable i hi
  retries i hi := by rw [m.store]; exact h.retries i (m.retries i hi)
  kept i hi := by
    rw [m.delivered, m.store]
    rcases m.enqueued i hi with hi | hi
    · rcases h.kept i hi with hd | hq | hh | hs
      · exact .inl hd
      · exact .inr ((m.kept i (.inl hq)).imp_right .inl)
      · exact .inr ((m.kept i (.inr hh)).imp_right .inl)
      · exact .inr (.inr (.inr hs))
    · exact .inr (.inl hi)
  gone := by rw [m.delivered, m.store]; exact h.gone
  uncrashed hc := h.uncrashed (m.uncrashed hc)

/-- Nothing of all this has changed but the calls of `stop`, the counter, the lock and the
retries. -/
theorem Moves.same (hst : s'.store = s.store) (hn : s'.nextRequest = s.nextRequest)
    (hq : s'.queue = s.queue) (hw : s'.worker = s.worker)
    (hr : ∀ i, s'.retry i ≠ .none → s.retry i ≠ .none)
    (hl : ∀ i, s'.workerLock.count (.enqueue i) ≤ s.workerLock.count (.enqueue i))
    (hd : s'.delivered = s.delivered) (he : s'.enqueued = s.enqueued) : Moves s s' where
  store := hst
  next := hn
  places i := by
    have hheld : s'.held = s.held := by rw [held, hw, ← held]
    have hl := hl i
    have hr := hr i
    simp only [CallbackManager.places, hq, hheld, hd]
    by_cases h' : s'.retry i = .none
    · simp only [h', Retry.tasks]; omega
    · simp only [Retry.tasks_pos h', Retry.tasks_pos (hr h')]; omega
  delivered := hd
  retries := hr
  enqueued i h := by rw [he] at h; exact .inl h
  kept i h := by rw [hq, held, hw]; exact h
  uncrashed h := by rw [hw] at h; exact h

theorem places_put (s : CallbackManager) (i j : Nat) :
    (s.put i).places j = s.places j + if j = i then 1 else 0 := by
  have hheld : (s.put i).held = s.held := by
    simp only [put, held]
    cases s.worker <;> rfl
  simp only [places, hheld]
  simp only [put, List.count_append, List.count_singleton]
  by_cases hj : j = i
  · subst hj; simp; omega
  · simp [hj, Ne.symm hj]

theorem mem_put {s : CallbackManager} {i j : Nat} : j ∈ (s.put i).queue ↔ j ∈ s.queue ∨ j = i := by
  simp [put]

theorem held_put (s : CallbackManager) (i : Nat) : (s.put i).held = s.held := by
  simp only [put, held]
  cases s.worker <;> rfl

theorem put_uncrashed (h : (s.put i).worker = .done true) : s.worker = .done true := by
  simp only [put] at h
  split at h
  · exact h
  · cases h

theorem count_tail {w v : Waiter} {l : List Waiter} (h : l.head? = some w) :
    l.tail.count v + (if v = w then 1 else 0) = l.count v := by
  cases l with
  | nil => cases h
  | cons x l =>
    cases h
    rw [List.tail_cons, List.count_cons]
    by_cases hv : v = w
    · simp [hv]
    · simp [hv, Ne.symm hv]

/-- A waiting `enqueue` puts its request into the queue. -/
theorem Moves.resume (h : s.workerLock.head? = some (.enqueue i)) : Moves s (s.resumeEnqueue i) where
  store := rfl
  next := rfl
  places j := by
    have hp := places_put s.unlock i j
    have ht := count_tail (v := .enqueue j) h
    simp only [Waiter.enqueue.injEq] at ht
    have hs : (s.resumeEnqueue i).places j = (s.unlock.put i).places j := rfl
    rw [hs, hp]
    simp only [CallbackManager.places, unlock, held]
    omega
  delivered := rfl
  retries _ hj := hj
  enqueued j hj := by
    simp only [resumeEnqueue, List.mem_append, List.mem_singleton] at hj
    exact hj.imp_right fun he => mem_put.mpr (.inr he)
  kept j hj := by
    have hh : (s.resumeEnqueue i).held = s.held := held_put s.unlock i
    rw [hh]
    exact hj.imp_left fun hq => mem_put.mpr (.inl hq)
  uncrashed hc := put_uncrashed (s := s.unlock) (i := i) hc

theorem held_next : s.next.held = s.queue.head? := by
  cases hq : s.queue with
  | nil => simp [next, hq, held]
  | cons i rest => simp [next, hq, held]

theorem queue_next : s.next.queue = s.queue.tail := by
  cases hq : s.queue with
  | nil => simp [next, hq]
  | cons i rest => simp [next, hq]

/-- What `next` leaves as it was. -/
theorem next_same : s.next.store = s.store ∧ s.next.nextRequest = s.nextRequest ∧
    s.next.delivered = s.delivered ∧ s.next.retry = s.retry ∧ s.next.enqueued = s.enqueued ∧
    s.next.workerLock = s.workerLock ∧ s.next.closed = s.closed ∧ s.next.pending = s.pending ∧
    s.next.pendingEmpty = s.pendingEmpty ∧ s.next.stop = s.stop := by
  cases hq : s.queue with
  | nil => simp [next, hq]
  | cons i rest => simp [next, hq]

/-- The worker, which held nothing, takes the first of the queue. -/
theorem Moves.take (h : s.held = none) : Moves s s.next := by
  obtain ⟨hst, hn, hd, hr, he, hl, -⟩ := next_same (s := s)
  refine ⟨hst, hn, fun j => ?_, hd, fun _ hj => by rw [hr] at hj; exact hj,
    fun _ hj => by rw [he] at hj; exact .inl hj, fun j hj => ?_, fun hc => ?_⟩
  · simp only [CallbackManager.places, held_next, queue_next, hr, hl, hd, h]
    cases hq : s.queue with
    | nil => simp
    | cons i rest => simp [List.count_cons, Nat.add_comm]
  · rw [held_next, queue_next]
    rcases hj with hj | hj
    · cases hq : s.queue with
      | nil => rw [hq] at hj; cases hj
      | cons i rest =>
        rw [hq] at hj
        rcases List.mem_cons.mp hj with rfl | hj
        · exact .inr rfl
        · exact .inl hj
    · rw [h] at hj; cases hj
  · simp only [CallbackManager.next] at hc
    split at hc <;> cases hc

/-- A retry task puts its request back into the queue. -/
theorem Moves.requeue (h : s.retry i ≠ .none) : Moves s ((s.put i).setRetry i .none) where
  store := rfl
  next := rfl
  places j := by
    have hp := places_put s i j
    have hs : ((s.put i).setRetry i .none).places j + (s.retry j).tasks =
        (s.put i).places j + (Function.update s.retry i .none j).tasks := by
      simp only [CallbackManager.places, setRetry, held, put]
      omega
    by_cases hj : j = i
    · subst hj
      rw [Function.update_self, Retry.tasks_pos h, Retry.tasks] at hs
      rw [if_pos rfl] at hp
      omega
    · rw [Function.update_of_ne hj] at hs
      rw [if_neg hj] at hp
      omega
  delivered := rfl
  retries j hj := by
    by_cases he : j = i
    · subst he; simp [setRetry] at hj
    · simpa [setRetry, he, put] using hj
  enqueued _ hj := .inl hj
  kept j hj := by
    have hh : ((s.put i).setRetry i .none).held = s.held := held_put s i
    rw [hh]
    exact hj.imp_left fun hq => mem_put.mpr (.inl hq)
  uncrashed hc := put_uncrashed (s := s) (i := i) hc

/-- The worker, which holds nothing, has ended or is forgotten. -/
theorem Moves.worker {w : Worker} (hh : s.held = none) (hw : w = .none ∨ w = .done false) :
    Moves s { s with worker := w } := by
  have hheld : held { s with worker := w } = none := by
    rcases hw with rfl | rfl <;> rfl
  refine ⟨rfl, rfl, fun j => ?_, rfl, fun _ hj => hj, fun _ hj => .inl hj, fun j hj => ?_,
    fun hc => ?_⟩
  · simp only [CallbackManager.places, hheld, hh]
    exact Nat.le_refl _
  · rw [hh] at hj
    exact hj.imp_right fun hn => by cases hn
  · rcases hw with rfl | rfl <;> cases hc

/-! ## Requests that are written -/

/-- The request `i`, which the worker or the queue held, is written to its file and put away. -/
structure Writes (i : Nat) (s s' : CallbackManager) : Prop where
  ok : s'.store.Ok
  only : Store.Only s.store i s'.store
  stored : s'.store.Stored i
  msg : (s'.request i).msg = (s.request i).msg
  next : s'.nextRequest = s.nextRequest
  places : ∀ j, s'.places j ≤ s.places j
  delivered : s'.delivered = s.delivered
  enqueued : s'.enqueued = s.enqueued
  retries : ∀ j, j ≠ i → s'.retry j ≠ .none → s.retry j ≠ .none
  kept : ∀ j, j ≠ i → j ∈ s.queue ∨ s.held = some j → j ∈ s'.queue ∨ s'.held = some j
  uncrashed : s'.worker ≠ .done true

theorem Kept.write (h : Kept s) (w : Writes i s s') (hi : i ∈ s.queue ∨ s.held = some i) :
    Kept s' where
  store := w.ok
  tidy := by
    refine w.only.tidy w.ok h.tidy fun p hp => ?_
    obtain ⟨q, r, hq, -⟩ := w.stored
    have hqp : q = p := Option.some.inj ((w.ok.home i q hq).symm.trans hp)
    exact .inl (by rw [hq, hqp])
  once j := Nat.le_trans (w.places j) (h.once j)
  fresh j hj := by
    rw [w.next] at hj
    obtain ⟨hp, hh⟩ := h.fresh j hj
    have hne : j ≠ i := by
      rintro rfl
      have hpos : 0 < s.places j := hi.elim places_queue places_held
      omega
    exact ⟨Nat.le_zero.mp (hp ▸ w.places j), by rw [w.only.home j hne]; exact hh⟩
  storable j hj := by
    rw [w.next] at hj
    by_cases hne : j = i
    · subst hne
      rw [w.msg]
      exact h.storable j hj
    · rw [request, w.only.request j hne]
      exact h.storable j hj
  retries j hj := by
    by_cases hne : j = i
    · subst hne; exact w.stored
    · exact w.only.stored w.ok hne (h.retries j (w.retries j hne hj))
  kept j hj := by
    by_cases hne : j = i
    · subst hne; exact .inr (.inr (.inr w.stored))
    · rw [w.enqueued] at hj
      rw [w.delivered]
      rcases h.kept j hj with hd | hq | hh | hs
      · exact .inl hd
      · exact .inr ((w.kept j hne (.inl hq)).imp_right .inl)
      · exact .inr ((w.kept j hne (.inr hh)).imp_right .inl)
      · exact .inr (.inr (.inr (w.only.stored w.ok hne hs)))
  gone j hj := by
    rw [w.delivered] at hj
    have hne : j ≠ i := by
      rintro rfl
      exact h.undelivered hi hj
    exact w.only.gone w.ok hne (h.gone j hj)
  uncrashed := w.uncrashed

theorem Kept.msg_storable (h : Kept s) (hi : i ∈ s.queue ∨ s.held = some i) :
    (s.store.request i).msg.storable = true :=
  h.storable i (h.lt (hi.elim places_queue places_held))

theorem persist_msg (st : Store) (i : Nat) (writes : Nat → Bool) :
    ((st.persist i writes).1.request i).msg = (st.request i).msg := by
  obtain ⟨p, hp⟩ := st.persist_request i writes
  rw [hp]

theorem held_some (h : s.worker = .delivering i) : s.held = some i := by rw [held, h]

/-- The worker is cancelled while it delivers. -/
theorem Writes.cut {writes : Nat → Bool} (h : Kept s) (hd : s.worker = .delivering i)
    (hw : writes i = true) :
    Writes i s { s with store := (s.store.persist i writes).1, worker := .done false } where
  ok := Store.persist_ok h.store i writes
  only := Store.persist_only h.store i writes
  stored := (Store.persist_stored (h.msg_storable (.inr (held_some hd))) hw).1
  msg := persist_msg s.store i writes
  next := rfl
  places j := by
    simp only [CallbackManager.places, held, hd, Option.toList_none, List.count_nil]
    omega
  delivered := rfl
  enqueued := rfl
  retries _ _ hj := hj
  kept j hne hj := by
    rw [held_some hd] at hj
    exact hj.imp_right fun he => absurd (Option.some.inj he).symm hne
  uncrashed hc := by cases hc

/-- A failed delivery. -/
theorem Writes.fail {writes : Nat → Bool} (h : Kept s) (hd : s.worker = .delivering i)
    (hw : writes i = true) :
    Writes i s ({ s with
      store := ((s.store.attempt i).persist i writes).1
      worker := .idle }.setRetry i .sleeping) := by
  have hok : (s.store.attempt i).Ok := Store.attempt_ok h.store i
  have hmsg : ((s.store.attempt i).request i).msg = (s.store.request i).msg := by
    simp [Store.attempt, Store.setRequest]
  refine ⟨Store.persist_ok hok i writes, ?_, ?_, ?_, rfl, fun j => ?_, rfl, rfl, fun j hne hj => ?_,
    fun j hne hj => ?_, fun hc => by cases hc⟩
  · refine ⟨fun j hj => ?_, fun j hj => ?_, fun p hp => ?_⟩
    · exact ((Store.persist_only hok i writes).request j hj).trans
        ((Store.attempt_only s.store i).request j hj)
    · exact (Store.persist_only hok i writes).home j hj
    · exact (Store.persist_only hok i writes).files p hp
  · have hs := h.msg_storable (.inr (held_some hd))
    exact (Store.persist_stored (by rw [hmsg]; exact hs) hw).1
  · exact (persist_msg ..).trans hmsg
  · -- the request is with the worker, and so has no retry task yet
    have ho := h.once j
    simp only [CallbackManager.places, setRetry, held, hd, Option.toList_none, Option.toList_some,
      List.count_nil] at ho ⊢
    by_cases hj : j = i
    · subst hj
      simp only [Function.update_self, Retry.tasks, List.count_singleton_self] at ho ⊢
      omega
    · simp only [Function.update_of_ne hj]
      omega
  · simpa [setRetry, hne] using hj
  · rw [held_some hd] at hj
    exact hj.imp_right fun he => absurd (Option.some.inj he).symm hne

/-- A timed-out `stop` takes a request from the queue. -/
theorem Writes.flush {writes : Nat → Bool} {rest : List Nat} (h : Kept s) (hq : s.queue = i :: rest)
    (hw : writes i = true) :
    Writes i s { s with store := (s.store.persist i writes).1, queue := rest } where
  ok := Store.persist_ok h.store i writes
  only := Store.persist_only h.store i writes
  stored := (Store.persist_stored (h.msg_storable (.inl (by rw [hq]; simp))) hw).1
  msg := persist_msg s.store i writes
  next := rfl
  places j := by
    simp only [CallbackManager.places, held, hq, List.count_cons]
    omega
  delivered := rfl
  enqueued := rfl
  retries _ _ hj := hj
  kept j hne hj := by
    rw [hq] at hj
    exact hj.imp_left fun hm => (List.mem_cons.mp hm).resolve_left hne
  uncrashed := h.uncrashed

/-! ## New and delivered requests -/

/-- A request is new. -/
theorem Kept.count (h : Kept s) {r : CallbackRequest} (hr : r.msg.storable = true)
    (hp : ∀ p, r.persistedPath = some p →
      (∀ i, s.store.home i ≠ some p) ∧ p.uuid < s.store.nextUuid) : Kept (s.count r) := by
  have hnew := h.fresh s.nextRequest (Nat.le_refl _)
  have hne : ∀ i, s.retry i ≠ .none → i ≠ s.nextRequest := fun i hi he => by
    have hpos := h.lt (places_retry hi)
    omega
  have hok := Store.add_ok h.store hnew.2 hp
  have honly := Store.add_only s.store s.nextRequest r
  refine ⟨hok, ?_, h.once, fun i hi => ?_, fun i hi => ?_, fun i hi => ?_, fun i hi => ?_,
    fun i hi => ?_, h.uncrashed⟩
  · refine honly.tidy hok h.tidy fun p hp => .inl ?_
    simpa [Store.add, Store.setRequest, CallbackManager.count] using hp
  · have hi : s.nextRequest + 1 ≤ i := hi
    obtain ⟨hpl, hh⟩ := h.fresh i (by omega)
    exact ⟨hpl, by rw [← hh]; exact honly.home i (by omega)⟩
  · have hi : i < s.nextRequest + 1 := hi
    by_cases he : i = s.nextRequest
    · subst he
      simpa [request, CallbackManager.count, Store.add, Store.setRequest] using hr
    · have hreq : (s.count r).request i = s.request i := honly.request i he
      rw [hreq]
      exact h.storable i (by omega)
  · exact honly.stored hok (hne i hi) (h.retries i hi)
  · rcases h.kept i hi with hd | hq | hh | hs
    · exact .inl hd
    · exact .inr (.inl hq)
    · exact .inr (.inr (.inl hh))
    · have hlt : i ≠ s.nextRequest := by
        rintro rfl
        obtain ⟨p, q, hp, -⟩ := hs
        rw [h.store.home _ p hp] at hnew
        cases hnew.2
      exact .inr (.inr (.inr (honly.stored hok hlt hs)))
  · have hlt : i ≠ s.nextRequest := by
      rintro rfl
      have hc : 0 < s.delivered.count s.nextRequest := List.count_pos_iff.mpr hi
      have hz := hnew.1
      simp only [CallbackManager.places] at hz
      omega
    exact honly.gone hok hlt (h.gone i hi)

theorem Kept.count_unplaced (h : Kept s) (r : CallbackRequest) :
    (s.count r).places s.nextRequest = 0 :=
  (h.fresh s.nextRequest (Nat.le_refl _)).1

/-- A request that is nowhere yet gets its place. -/
theorem Kept.place (h : Kept s) (hz : s.places i = 0) (hlt : i < s.nextRequest)
    (hst : s'.store = s.store) (hn : s'.nextRequest = s.nextRequest)
    (hp : ∀ j, s'.places j = s.places j + if j = i then 1 else 0)
    (hr : s'.retry = s.retry) (hd : s'.delivered = s.delivered) (he : s'.enqueued = s.enqueued)
    (hq : ∀ j ∈ s.queue, j ∈ s'.queue) (hh : s'.held = s.held)
    (hc : s'.worker = .done true → s.worker = .done true) : Kept s' where
  store := by rw [hst]; exact h.store
  tidy := by rw [hst]; exact h.tidy
  once j := by
    rw [hp]
    by_cases hj : j = i
    · rw [hj, hz, if_pos rfl]
    · rw [if_neg hj]; exact h.once j
  fresh j hj := by
    rw [hn] at hj
    rw [hp, if_neg (by omega), hst]
    exact h.fresh j hj
  storable j hj := by
    rw [hn] at hj
    rw [request, hst]
    exact h.storable j hj
  retries j hj := by
    rw [hr] at hj
    rw [hst]
    exact h.retries j hj
  kept j hj := by
    rw [he] at hj
    rw [hd, hh, hst]
    exact (h.kept j hj).imp_right fun hk => hk.imp_left (hq j)
  gone := by rw [hd, hst]; exact h.gone
  uncrashed hd := h.uncrashed (hc hd)

theorem Kept.put (h : Kept s) (hz : s.places i = 0) (hlt : i < s.nextRequest) : Kept (s.put i) :=
  h.place hz hlt rfl rfl (places_put s i) rfl rfl rfl (fun _ hj => mem_put.mpr (.inl hj))
    (held_put s i) put_uncrashed

theorem places_lock (s : CallbackManager) (i j : Nat) :
    (s.lock (.enqueue i)).places j = s.places j + if j = i then 1 else 0 := by
  simp only [places, lock, held, List.count_append, List.count_singleton, beq_iff_eq,
    Waiter.enqueue.injEq, eq_comm (a := i)]
  omega

theorem Kept.waits (h : Kept s) (hz : s.places i = 0) (hlt : i < s.nextRequest) :
    Kept (s.lock (.enqueue i)) :=
  h.place hz hlt rfl rfl (places_lock s i) rfl rfl rfl (fun _ hj => hj) rfl id

/-- A file that is no request's is deleted. -/
theorem Kept.discard (h : Kept s) {p : CallbackPath} (hh : ∀ i, s.store.home i ≠ some p) :
    Kept { s with store := s.store.setFile p none } := by
  have hfile : ∀ {i q}, s.store.home i = some q → (s.store.setFile p none).files q = s.store.files q :=
    fun {i q} hq => Function.update_of_ne (fun he : q = p => hh i (by rw [← he]; exact hq)) _ _
  have hstored : ∀ {i}, s.store.Stored i → (s.store.setFile p none).Stored i := by
    rintro i ⟨q, r, hq, hf, hr⟩
    exact ⟨q, r, hq, (hfile (h.store.home i q hq)).trans hf, hr⟩
  refine ⟨Store.setFile_ok h.store p none, fun i q hq => ?_, h.once, h.fresh, h.storable,
    fun i hi => hstored (h.retries i hi), fun i hi => ?_, fun i hi q hq => ?_, h.uncrashed⟩
  · exact (h.tidy i q hq).imp_right fun hf => (hfile hq).trans hf
  · exact (h.kept i hi).imp_right fun hk => hk.imp_right fun hk => hk.imp_right hstored
  · exact (hfile hq).trans (h.gone i hi q hq)

theorem markCompleted_eq (s : CallbackManager) :
    s.markCompleted = if s.pending - 1 = 0 then { s with pending := 0 }.setPendingEmpty
      else { s with pending := s.pending - 1 } := rfl

/-- `_mark_completed` concerns the counter and those who wait for it. -/
theorem markCompleted_same (s : CallbackManager) :
    s.markCompleted.pending = s.pending - 1 ∧ s.markCompleted.nextRequest = s.nextRequest ∧
      s.markCompleted.queue = s.queue ∧ s.markCompleted.retry = s.retry ∧
      s.markCompleted.workerLock = s.workerLock ∧ s.markCompleted.delivered = s.delivered ∧
      s.markCompleted.enqueued = s.enqueued ∧ s.markCompleted.worker = s.worker ∧
      s.markCompleted.closed = s.closed := by
  rw [markCompleted_eq]
  split
  · rename_i hz; exact ⟨hz.symm, rfl, rfl, rfl, rfl, rfl, rfl, rfl, rfl⟩
  · exact ⟨rfl, rfl, rfl, rfl, rfl, rfl, rfl, rfl, rfl⟩

theorem next_worker (s : CallbackManager) (w : Worker) : next { s with worker := w } = s.next := by
  cases hq : s.queue with
  | nil => simp [next, hq]
  | cons i rest => simp [next, hq]

theorem markCompleted_worker (s : CallbackManager) (w : Worker) :
    markCompleted { s with worker := w } = { s.markCompleted with worker := w } := by
  simp only [markCompleted_eq]
  split <;> rfl

theorem markCompleted_next (s : CallbackManager) :
    next (markCompleted { s with worker := .idle }) = s.markCompleted.next :=
  (congrArg next (markCompleted_worker s .idle)).trans (next_worker _ _)

theorem held_markCompleted (s : CallbackManager) : s.markCompleted.held = s.held := by
  rw [markCompleted_eq]
  split <;> rfl

theorem places_delivered (hd : s.worker = .delivering i) (st : Store) (j : Nat) :
    places { s with store := st, delivered := s.delivered ++ [i], worker := .idle } j =
      s.places j := by
  simp only [places, held, hd, List.count_append, Option.toList_none, Option.toList_some,
    List.count_nil]
  omega

/-- A completed delivery, but for the counter. -/
theorem Kept.delivered (h : Kept s) {unlinks : Nat → Bool} (hd : s.worker = .delivering i)
    (hu : unlinks i = true) :
    Kept { s with
      store := s.store.delete i unlinks
      delivered := s.delivered ++ [i]
      worker := .idle } := by
  have hheld := held_some hd
  have hok := Store.delete_ok h.store i unlinks
  have honly := Store.delete_only h.store i unlinks
  have hgone := Store.delete_gone h.store h.tidy hu
  have hpl := places_delivered hd (s.store.delete i unlinks)
  refine ⟨hok, ?_, fun j => ?_, fun j hj => ?_, fun j hj => ?_, fun j hj => ?_, fun j hj => ?_,
    fun j hj => ?_, fun hc => by cases hc⟩
  · exact honly.tidy hok h.tidy fun p hp => .inr (hgone p hp)
  · rw [hpl]; exact h.once j
  · rw [hpl, Store.delete_home]; exact h.fresh j hj
  · by_cases he : j = i
    · subst he
      rw [request, Store.delete_request]
      exact h.storable j hj
    · rw [request, honly.request j he]
      exact h.storable j hj
  · have he : j ≠ i := by
      rintro rfl
      have ho := h.once j
      have ht : (s.retry j).tasks = 1 := Retry.tasks_pos hj
      simp only [places, count_held hheld] at ho
      omega
    exact honly.stored hok he (h.retries j hj)
  · by_cases he : j = i
    · exact .inl (by simp [he])
    · rcases h.kept j hj with hd' | hq | hh | hs
      · exact .inl (List.mem_append_left _ hd')
      · exact .inr (.inl hq)
      · rw [hheld] at hh
        exact absurd (Option.some.inj hh).symm he
      · exact .inr (.inr (.inr (honly.stored hok he hs)))
  · rcases List.mem_append.mp hj with hj | hj
    · by_cases he : j = i
      · subst he; exact hgone
      · exact honly.gone hok he (h.gone j hj)
    · rw [List.mem_singleton.mp hj]; exact hgone

theorem Moves.setPendingEmpty (s : CallbackManager) (k : Nat) :
    Moves s { s with pending := k }.setPendingEmpty :=
  .same rfl rfl rfl rfl (fun _ h => h) (fun _ => Nat.le_refl _) rfl rfl

theorem Moves.markCompleted (s : CallbackManager) : Moves s s.markCompleted := by
  rw [markCompleted_eq]
  split
  · exact .setPendingEmpty s 0
  · exact .same rfl rfl rfl rfl (fun _ h => h) (fun _ => Nat.le_refl _) rfl rfl

theorem Kept.act (h : Kept s) (a : Act tidy muted s s') : Kept s' := by
  cases a with
  | started => exact h.move (.same rfl rfl rfl rfl (fun _ h => h) (fun _ => Nat.le_refl _) rfl rfl)
  | @replay p r hs hf hm hr hh hu =>
    have hnew := h.count (r := { r with persistedPath := some p }) hr fun q hq => by
      cases hq
      exact ⟨hh, hu⟩
    exact hnew.put (h.count_unplaced _) (Nat.lt_succ_self _)
  | discard hf hh => exact h.discard hh
  | enter hst hp hr ho hm =>
    refine (h.count hr fun p hs => ?_).waits (h.count_unplaced _) (Nat.lt_succ_self _)
    rw [hp] at hs; cases hs
  | resume hl => exact h.move (.resume hl)
  | take hh => exact h.move (.take hh)
  | deliver hd hu => exact (h.delivered hd hu).move (.markCompleted _)
  | fail hd hw => exact h.write (.fail h hd hw) (.inr (held_some hd))
  | cut hd hw => exact h.write (.cut h hd hw) (.inr (held_some hd))
  | worker hh hw => exact h.move (.worker hh hw)
  | lock hl => exact h.move (.same rfl rfl rfl rfl (fun _ h => h) hl rfl rfl)
  | requeue hr ho => exact h.move (.requeue hr)
  | retries hf ha => exact h.move (.same rfl rfl rfl rfl hf (fun _ => Nat.le_refl _) rfl rfl)
  | flush hq hw => exact h.write (.flush h hq hw) (.inl (by rw [hq]; exact List.mem_cons_self ..))
  | closing => exact h.move (.same rfl rfl rfl rfl (fun _ h => h) (fun _ => Nat.le_refl _) rfl rfl)
  | number => exact h.move (.same rfl rfl rfl rfl (fun _ h => h) (fun _ => Nat.le_refl _) rfl rfl)
  | stop hc =>
    exact h.move (.same rfl rfl rfl rfl (fun _ h => h) (fun _ => Nat.le_refl _) rfl rfl)
  | reset hh ht => exact h.move (.setPendingEmpty _ 0)

/-! ## The flags -/

structure Plain (s : CallbackManager) : Prop where
  begun : s.started = false → s.nextRequest = 0
  empty : s.pendingEmpty = true → s.pending = 0
  closed : ∀ n, (s.stop n).close = true → s.closed = true
  unraised : ∀ n close, s.stop n ≠ .raised close
  fresh : ∀ n, s.nextStop ≤ n → s.stop n = .none

theorem plain_init (files : CallbackPath → Option StoredFile) (n : Nat) :
    Plain (init files n) where
  begun _ := rfl
  empty _ := rfl
  closed n h := by cases h
  unraised n close h := by cases h
  fresh _ _ := rfl

theorem Stop.wake_close (c : Stop) : c.wake.close = c.close := by cases c <;> rfl

theorem Stop.wake_raised {c : Stop} {close : Bool} (h : c.wake = .raised close) :
    c = .raised close := by
  cases c with
  | waiting timed close woken => cases h
  | _ => exact h

theorem Plain.setPendingEmpty (h : Plain s) : Plain { s with pending := 0 }.setPendingEmpty where
  begun := h.begun
  empty _ := rfl
  closed n hc := h.closed n (by rw [← Stop.wake_close]; exact hc)
  unraised n close hc := h.unraised n close (Stop.wake_raised hc)
  fresh n hn := by
    show (s.stop n).wake = .none
    rw [h.fresh n hn]
    rfl

theorem Plain.lt (h : Plain s) (hn : s.stop n ≠ .none) : n < s.nextStop := by
  by_contra hlt
  exact hn (h.fresh n (Nat.le_of_not_lt hlt))

theorem Plain.act (h : Plain s) (a : Act tidy muted s s') : Plain s' := by
  cases a with
  | started => exact ⟨fun hf => absurd hf (by simp), h.empty, h.closed, h.unraised, h.fresh⟩
  | replay hs => exact ⟨fun hf => absurd (hs.symm.trans hf) (by simp),
      fun he => absurd he (by simp [put, count]), h.closed, h.unraised, h.fresh⟩
  | enter hs => exact ⟨fun hf => absurd (hs.symm.trans hf) (by simp),
      fun he => absurd he (by simp [lock, count]), h.closed, h.unraised, h.fresh⟩
  | take hh =>
    obtain ⟨-, hn, -, -, -, -, hc, hp, he, hst⟩ := next_same (s := s)
    have hs : s.next.started = s.started := by
      simp only [next]
      split <;> rfl
    have hns : s.next.nextStop = s.nextStop := by
      simp only [next]
      split <;> rfl
    exact ⟨by rw [hs, hn]; exact h.begun, by rw [hp, he]; exact h.empty,
      by rw [hst, hc]; exact h.closed, by rw [hst]; exact h.unraised,
      by rw [hst, hns]; exact h.fresh⟩
  | deliver hd hu =>
    rw [markCompleted_eq]
    split
    · exact Plain.setPendingEmpty ⟨h.begun, h.empty, h.closed, h.unraised, h.fresh⟩
    · exact ⟨h.begun, fun he => by rw [h.empty he], h.closed, h.unraised, h.fresh⟩
  | closing => exact ⟨h.begun, h.empty, fun _ _ => rfl, h.unraised, h.fresh⟩
  | @stop n c hc =>
    refine ⟨h.begun, h.empty, fun m hm => ?_, fun m close hm => ?_, fun m hm => ?_⟩
    · by_cases hmn : m = n
      · subst hmn; exact hc.closed (by simpa [setStop] using hm)
      · exact h.closed m (by simpa [setStop, hmn] using hm)
    · by_cases hmn : m = n
      · subst hmn; exact hc.unraised close (by simpa [setStop] using hm)
      · exact h.unraised m close (by simpa [setStop, hmn] using hm)
    · have hmn : m ≠ n := fun he => absurd (Nat.lt_of_lt_of_le hc.lt hm) (by omega)
      simpa [setStop, hmn] using h.fresh m hm
  | number =>
    exact ⟨h.begun, h.empty, h.closed, h.unraised, fun n hn => h.fresh n (Nat.le_of_succ_le hn)⟩
  | reset hh ht => exact h.setPendingEmpty
  | _ => exact ⟨h.begun, h.empty, h.closed, h.unraised, h.fresh⟩

end CallbackManager
end Pyxxl
