import Pyxxl.Callbacks.Durable
import Pyxxl.Callbacks.Survives

/-!
# Pyxxl.Callbacks.Muted

A `CallbackManager` to which nobody brings a request any more. Whatever calls of `stop` come then,
one with `close=True` that has returned leaves every request delivered or stored
(`Muted.closes`).

* `CallbackRequest.message`: what the admin is told by a request. It never changes
  (`act_message`).
* `Muted s`: no `enqueue` waits, and a timed-out `stop` that has written the queue finds nothing
  in it later that is not in a file.
* `Opened s`: nobody has stopped the manager yet. It may fall silent at any time
  (`Opened.silenced`).
-/

namespace Pyxxl

def CallbackRequest.message (r : CallbackRequest) : CallbackRequest :=
  { r with attempts := 0, persistedPath := none }

namespace CallbackManager

variable {tidy muted : Prop} {s s' : CallbackManager} {e : Event} {i n : Nat}

/-! ## Messages -/

theorem persist_message (st : Store) (j : Nat) (writes : Nat → Bool) (h : st.Ok) (i : Nat) :
    ((st.persist j writes).1.request i).message = (st.request i).message := by
  by_cases hi : i = j
  · obtain ⟨p, hp⟩ := Store.persist_request st j writes
    rw [hi, hp]
    rfl
  · rw [(Store.persist_only h j writes).request i hi]

/-- A request that is there stays the same message. -/
theorem act_message (hk : Kept s) (hi : i < s.nextRequest) (a : Act tidy muted s s') :
    (s'.request i).message = (s.request i).message ∧ i < s'.nextRequest := by
  have hnew : ∀ r, ((s.store.add s.nextRequest r).request i).message = (s.request i).message :=
    fun r => by rw [(Store.add_only s.store s.nextRequest r).request i (Nat.ne_of_lt hi)]; rfl
  cases a with
  | replay => exact ⟨hnew _, Nat.lt_succ_of_lt hi⟩
  | enter => exact ⟨hnew _, Nat.lt_succ_of_lt hi⟩
  | take hh =>
    obtain ⟨hst, hn, -⟩ := next_same (s := s)
    rw [request, hst, hn]
    exact ⟨rfl, hi⟩
  | @deliver j unlinks hd hu =>
    have hdel : ((s.store.delete j unlinks).request i).message = (s.request i).message := by
      by_cases hij : i = j
      · rw [hij, Store.delete_request]
        rfl
      · rw [(Store.delete_only hk.store j unlinks).request i hij]
        rfl
    rw [markCompleted_eq]
    split
    · exact ⟨hdel, hi⟩
    · exact ⟨hdel, hi⟩
  | @fail j writes hd hw =>
    refine ⟨(persist_message _ j writes (Store.attempt_ok hk.store j) i).trans ?_, hi⟩
    by_cases hij : i = j
    · rw [hij]
      simp [Store.attempt, Store.setRequest, CallbackRequest.message, request]
    · rw [(Store.attempt_only s.store j).request i hij]
      rfl
  | cut hd hw => exact ⟨persist_message _ _ _ hk.store i, hi⟩
  | flush hq hw => exact ⟨persist_message _ _ _ hk.store i, hi⟩
  | _ => exact ⟨rfl, hi⟩

/-- Only an `enqueue` that has waited adds to `enqueued`. -/
theorem act_enqueued (hw : ∀ i, .enqueue i ∉ s.workerLock) (a : Act tidy muted s s') :
    s'.enqueued = s.enqueued := by
  cases a with
  | resume hl => exact absurd (List.mem_of_mem_head? hl) (hw _)
  | take hh =>
    obtain ⟨-, -, -, -, he, -⟩ := next_same (s := s)
    exact he
  | deliver hd hu =>
    rw [markCompleted_eq]
    split <;> rfl
  | _ => rfl

theorem act_started (a : Act tidy muted s s') (h : s.started = true) : s'.started = true := by
  cases a with
  | started => rfl
  | take hh =>
    unfold next
    split <;> exact h
  | deliver hd hu =>
    rw [markCompleted_eq]
    split <;> exact h
  | _ => exact h

theorem Acts.started (a : Acts tidy muted s s') (h : s.started = true) : s'.started = true := by
  induction a with
  | refl => exact h
  | tail _ a ih => exact act_started a ih

/-! ## Calls of `stop` -/

theorem Stop.wake_flushed (c : Stop) : c.wake.flushed = c.flushed := by cases c <;> rfl

/-- A call that has written the queue has done so before, or finds it empty. -/
theorem act_flushed (a : Act tidy muted s s') (h : (s'.stop n).flushed = true) :
    s'.queue = [] ∨ (s.stop n).flushed = true := by
  cases a with
  | take hh =>
    obtain ⟨-, -, -, -, -, -, -, -, -, hst⟩ := next_same (s := s)
    rw [hst] at h
    exact .inr h
  | deliver hd hu =>
    rw [markCompleted_eq] at h
    split at h
    · exact .inr ((Stop.wake_flushed _).symm.trans h)
    · exact .inr h
  | @stop m c hc =>
    by_cases hm : n = m
    · subst hm
      exact hc.flushed (by simpa [setStop] using h)
    · exact .inr (by simpa [setStop, hm] using h)
  | reset hh ht => exact .inr ((Stop.wake_flushed _).symm.trans h)
  | _ => exact .inr h

/-- A call stays one with `close=True`. -/
theorem act_close (a : Act tidy muted s s') (h : (s.stop n).close = true) :
    (s'.stop n).close = true := by
  cases a with
  | take hh =>
    obtain ⟨-, -, -, -, -, -, -, -, -, hst⟩ := next_same (s := s)
    rw [hst]
    exact h
  | deliver hd hu =>
    rw [markCompleted_eq]
    split
    · exact (Stop.wake_close _).trans h
    · exact h
  | @stop m c hc =>
    by_cases hm : n = m
    · subst hm
      simpa [setStop] using hc.kept h
    · simpa [setStop, hm] using h
  | reset hh ht => exact (Stop.wake_close _).trans h
  | _ => exact h

/-! ## Nobody enqueues -/

structure Muted (s : CallbackManager) : Prop where
  kept : Kept s
  plain : Plain s
  sound : Sound True s
  lock : ∀ i, .enqueue i ∉ s.workerLock
  flushed : ∀ n, (s.stop n).flushed = true → ∀ i ∈ s.queue, s.store.Stored i
  known : ∀ i ∈ s.enqueued, i < s.nextRequest

theorem Muted.act (h : Muted s) (a : Act True True s s') : Muted s' where
  kept := h.kept.act a
  plain := h.plain.act a
  sound := h.sound.act h.kept h.plain a
  lock := act_lock a (.inr trivial) h.lock
  flushed n hn i hi := by
    rcases act_flushed a hn with hq | ho
    · rw [hq] at hi
      cases hi
    · rcases act_queue h.kept h.lock a hi with hm | hs
      · exact act_stored h.kept a (.inl hi) (h.flushed n ho i hm)
      · exact hs
  known i hi := by
    rw [act_enqueued h.lock a] at hi
    exact (act_message h.kept (h.known i hi) a).2

theorem Muted.acts (h : Muted s) (a : Acts True True s s') : Muted s' := by
  induction a with
  | refl => exact h
  | tail _ a ih => exact ih.act a

/-- No `stop` sets `_pending` to 0 too early. -/
theorem Muted.tidyReset (h : Muted s) (e : Event) : TidyReset True s e := by
  cases e with
  | stopRetriesOver n writes => exact fun _ _ _ _ _ => .inr (.inl trivial)
  | stopLocked n =>
    intro close hst _
    exact ⟨h.lock, h.flushed n (by rw [hst]; rfl), .inr (.inl trivial)⟩
  | stopJoined n =>
    intro close hst
    exact ⟨h.lock, h.flushed n (by rw [hst]; rfl), .inr (.inl trivial)⟩
  | _ => trivial

theorem Muted.stepActs (h : Muted s) (hf : FilesOk s e) (he : EnqueueFree s e)
    (hs : step s e = some s') : Acts True True s s' :=
  step_acts h.kept h.plain hf (fun _ => h.tidyReset e) (fun _ => he) hs

/-- What the admin has been or is to be told, in the order of the `enqueue` calls. -/
def messages (s : CallbackManager) : List CallbackRequest :=
  s.enqueued.map fun i => (s.request i).message

/-- What acts that bring no request leave of those that are there. -/
structure Same (s s' : CallbackManager) : Prop where
  message : ∀ i, i < s.nextRequest →
    (s'.request i).message = (s.request i).message ∧ i < s'.nextRequest
  enqueued : s'.enqueued = s.enqueued
  close : ∀ n, (s.stop n).close = true → (s'.stop n).close = true

theorem Muted.same (h : Muted s) (a : Acts True True s s') : Same s s' := by
  induction a with
  | refl => exact ⟨fun _ hi => ⟨rfl, hi⟩, rfl, fun _ hc => hc⟩
  | @tail s₁ s₂ as a ih =>
    have h₁ : Muted s₁ := h.acts as
    refine ⟨fun i hi => ?_, (act_enqueued h₁.lock a).trans ih.enqueued,
      fun n hc => act_close a (ih.close n hc)⟩
    obtain ⟨hm, hi₁⟩ := ih.message i hi
    obtain ⟨hm', hi₂⟩ := act_message h₁.kept hi₁ a
    exact ⟨hm'.trans hm, hi₂⟩

theorem Muted.messages_same (h : Muted s) (a : Acts True True s s') : s'.messages = s.messages := by
  have hsame := h.same a
  rw [messages, hsame.enqueued]
  exact List.map_congr_left fun i hi => (hsame.message i (h.known i hi)).1

/-- After a `stop(close=True)` every request is delivered or stored. -/
theorem Muted.closes (h : Muted s) {drained : Bool} (hn : s.stop n = .returned true drained)
    (hi : i ∈ s.enqueued) : i ∈ s.delivered ∨ s.store.Stored i := by
  have hq : Quiet True s := h.sound.through n (by rw [hn]; rfl)
  rcases h.kept.kept i hi with hd | hm | hh | hs
  · exact .inl hd
  · exact .inr (hq.stored i (.inl hm))
  · exact .inr (hq.stored i (.inr hh))
  · exact .inr hs

/-! ## Nobody has called `stop` -/

/-- Nobody has stopped the manager, and files can be written. -/
structure Opened (s : CallbackManager) : Prop extends Unstopped s where
  kept : Kept s
  plain : Plain s

/-- The last request has come. -/
theorem Opened.silenced (h : Opened s) : Muted s where
  kept := h.kept
  plain := h.plain
  sound := by
    refine ⟨.inl ?_, fun n hn => by rw [h.stops n] at hn; cases hn⟩
    rw [h.counted, live, undelivered]
    refine Nat.count_mono_left fun i _ hi => ?_
    rcases hi with hq | hh | hr | hl
    · exact h.kept.undelivered (.inl hq)
    · exact h.kept.undelivered (.inr hh)
    · intro hd
      have hone := h.once i
      have hc := List.count_pos_iff.mpr hd
      have ht := Retry.tasks_pos (c := s.retry i) fun hn => by rw [hn] at hr; cases hr
      simp only [places] at hone
      omega
    · rw [h.lock] at hl
      cases hl
  lock i hi := by rw [h.lock] at hi; cases hi
  flushed n hn := by rw [h.stops n] at hn; cases hn
  known := h.known

theorem opened_init (files : CallbackPath → Option StoredFile) (n : Nat) : Opened (init files n) where
  toUnstopped := unstopped_init files n
  kept := kept_init files n
  plain := plain_init files n

/-- A message that can be stored can be written. -/
theorem Kept.survivable (h : Kept s) (hst : StopFree s e) : Survivable s e := by
  cases e with
  | stop timed close writes => exact hst.elim
  | workerFails writes =>
    intro i hi
    obtain ⟨w, hdict, hdump, hutf⟩ :=
      PyVal.storable_cases (h.msg_storable (.inr (held_some hi)))
    exact ⟨w, hdict, hdump, fun _ => hutf⟩
  | _ => trivial

theorem Opened.step (h : Opened s) (hf : FilesOk s e) (he : EnqueueFree s e) (hst : StopFree s e)
    (hs : step s e = some s') : Opened s' ∧ s'.messages = s.messages ∧
      (s.started = true → s'.started = true) := by
  have hmuted := h.silenced
  have hacts := hmuted.stepActs hf he hs
  exact ⟨⟨h.toUnstopped.step (h.kept.survivable hst) hs, hacts.kept h.kept, hacts.plain h.plain⟩,
    hmuted.messages_same hacts, hacts.started⟩

/-- A request that is new is told after the others. -/
theorem Opened.enqueue (h : Opened s) (hstart : s.started = true) {r : CallbackRequest}
    (hp : r.persistedPath = none) (hr : r.msg.storable = true) :
    Opened (s.enqueue r) ∧ (s.enqueue r).started = true ∧
      (s.enqueue r).messages = s.messages ++ [r.message] := by
  have hacts : Acts True False s (s.enqueue r) := acts_enqueue hstart hp hr id
  have hs : CallbackManager.step s (.enqueue r) = some (s.enqueue r) := by
    simp [CallbackManager.step, hstart, hp]
  have heq : s.enqueue r =
      { (s.count r).put s.nextRequest with enqueued := s.enqueued ++ [s.nextRequest] } := by
    simp [CallbackManager.enqueue, h.opened, h.lock]
  refine ⟨⟨h.toUnstopped.step (e := .enqueue r) trivial hs, hacts.kept h.kept,
    hacts.plain h.plain⟩, hacts.started hstart, ?_⟩
  have hreq : ∀ i, (s.enqueue r).request i =
      if i = s.nextRequest then r else s.request i := by
    intro i
    rw [heq]
    by_cases hi : i = s.nextRequest
    · simp [request, put, count, Store.add, Store.setRequest, hi]
    · simp [request, put, count, Store.add, Store.setRequest, hi]
  have hlist : (s.enqueue r).enqueued = s.enqueued ++ [s.nextRequest] := by rw [heq]
  rw [messages, hlist, List.map_append, List.map_singleton, hreq, if_pos rfl]
  congr 1
  refine List.map_congr_left fun i hi => ?_
  rw [hreq, if_neg (Nat.ne_of_lt (h.known i hi))]

theorem Opened.enqueues {rs : List CallbackRequest} (h : Opened s) (hstart : s.started = true)
    (hrs : ∀ r ∈ rs, r.persistedPath = none ∧ r.msg.storable = true) :
    Opened (rs.foldl CallbackManager.enqueue s) ∧
      (rs.foldl CallbackManager.enqueue s).started = true ∧
      (rs.foldl CallbackManager.enqueue s).messages =
        s.messages ++ rs.map CallbackRequest.message := by
  induction rs generalizing s with
  | nil => exact ⟨h, hstart, (List.append_nil _).symm⟩
  | cons r rs ih =>
    obtain ⟨hr₁, hr₂⟩ := hrs r (List.mem_cons_self ..)
    obtain ⟨ho, hst, hm⟩ := h.enqueue hstart hr₁ hr₂
    obtain ⟨ho', hst', hm'⟩ := ih ho hst fun r hr => hrs r (List.mem_cons_of_mem _ hr)
    refine ⟨ho', hst', hm'.trans ?_⟩
    rw [hm, List.append_assoc]
    rfl

/-! ## The call of `stop` itself -/

theorem stopEnd_close (s : CallbackManager) (n : Nat) (close drained : Bool) :
    ((s.stopEnd n close drained).stop n).close = close := by simp [stopEnd, setStop, Stop.close]

theorem stopLocked_close (s : CallbackManager) (n : Nat) (close drained : Bool) :
    ((s.stopLocked n close drained).stop n).close = close := by
  unfold stopLocked
  split
  · exact stopEnd_close ..
  · exact stopEnd_close ..
  · simp [setStop, Stop.close]
  · simp [setStop, Stop.close]

theorem stopAcquire_close (s : CallbackManager) (n : Nat) (close drained : Bool) :
    ((s.stopAcquire n close drained).stop n).close = close := by
  unfold stopAcquire
  split
  · exact stopLocked_close ..
  · simp [setStop, Stop.close]

theorem stopFlush_close (s : CallbackManager) (n : Nat) (close drained : Bool)
    (writes : Nat → Bool) : ((s.stopFlush n close drained writes).stop n).close = close := by
  unfold stopFlush
  split
  · exact stopAcquire_close ..
  · split
    · exact stopAcquire_close ..
    · simp [setStop, Stop.close]

theorem stopCall_close (s : CallbackManager) (timed close : Bool) (writes : Nat → Bool) :
    ((s.stopCall timed close writes).stop s.nextStop).close = close := by
  simp only [stopCall]
  split
  · simp [setStop, Stop.close]
  · unfold stopWaited
    split
    · exact stopFlush_close ..
    · simp [setStop, Stop.close]

end CallbackManager
end Pyxxl
