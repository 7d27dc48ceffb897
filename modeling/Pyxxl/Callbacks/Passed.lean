import Pyxxl.Callbacks.Muted

/-!
# Pyxxl.Callbacks.Passed

What any step of a `CallbackManager` leaves of its requests, whatever `stop` does, whatever the
messages are and whatever becomes of the files.

* `Passes s s'`: the requests only move on, or get lost; `Advances P s s' new`: besides, requests
  may come, with messages of which `P` holds, and those of `new` are delivered.
* `Numbered s`: a request is in one place at most. Every step keeps this (`Numbered.step`).
-/

namespace Pyxxl
namespace CallbackManager

variable {s s' : CallbackManager} {e : Event} {i : Nat} {P : PyVal → Prop}

/-! ## Messages -/

theorem messages_persist (st : Store) (j : Nat) (writes : Nat → Bool) (i : Nat) :
    ((st.persist j writes).1.request i).message = (st.request i).message := by
  obtain ⟨p, hp, he⟩ := Store.persist_eq st j writes
  rw [he, (Store.writeText_same ..).1]
  by_cases hi : i = j
  · rw [hi, hp]
    rfl
  · rw [(Store.assignPath_only st j).request i hi]

theorem messages_attempt (st : Store) (j i : Nat) :
    ((st.attempt j).request i).message = (st.request i).message := by
  by_cases hi : i = j
  · rw [hi]
    simp [Store.attempt, Store.setRequest, CallbackRequest.message]
  · rw [(Store.attempt_only st j).request i hi]

theorem messages_delete (st : Store) (j : Nat) (unlinks : Nat → Bool) (i : Nat) :
    ((st.delete j unlinks).request i).message = (st.request i).message := by
  by_cases hi : i = j
  · rw [hi, Store.delete_request]
    rfl
  · unfold Store.delete
    split
    · rfl
    · split <;> simp [Store.setRequest, Store.setFile, hi]

/-- No request is in more places than before, and each is the same message. -/
structure Passes (s s' : CallbackManager) : Prop where
  next : s'.nextRequest = s.nextRequest
  places : ∀ i, s'.places i ≤ s.places i
  message : ∀ i, (s'.request i).message = (s.request i).message
  delivered : s'.delivered = s.delivered

theorem Passes.refl (s : CallbackManager) : Passes s s :=
  ⟨rfl, fun _ => Nat.le_refl _, fun _ => rfl, rfl⟩

theorem Passes.trans {s'' : CallbackManager} (h : Passes s s') (h' : Passes s' s'') :
    Passes s s'' where
  next := h'.next.trans h.next
  places i := Nat.le_trans (h'.places i) (h.places i)
  message i := (h'.message i).trans (h.message i)
  delivered := h'.delivered.trans h.delivered

theorem Moves.passes (m : Moves s s') : Passes s s' :=
  ⟨m.next, m.places, fun i => by rw [request, request, m.store], m.delivered⟩

/-- The worker lets go of what it holds. -/
theorem Passes.drop {st : Store} {w : Worker}
    (hm : ∀ i, (st.request i).message = (s.request i).message)
    (hw : held { s with worker := w } = none) : Passes s { s with store := st, worker := w } where
  next := rfl
  places i := by
    have hheld : held { s with store := st, worker := w } = none := hw
    simp only [CallbackManager.places, hheld, Option.toList_none, List.count_nil]
    omega
  message := hm
  delivered := rfl

theorem passes_unlock (s : CallbackManager) : Passes s s.unlock :=
  Moves.passes (.same rfl rfl rfl rfl (fun _ h => h) (fun _ => (List.tail_sublist _).count_le _) rfl
    rfl)

theorem passes_lock {w : Waiter} (s : CallbackManager) (hw : ∀ i, w ≠ .enqueue i) :
    Passes s (s.lock w) := by
  refine Moves.passes (.same rfl rfl rfl rfl (fun _ h => h) (fun i => ?_) rfl rfl)
  simp [lock, List.count_append, hw i]

theorem passes_setStop (s : CallbackManager) (n : Nat) (c : Stop) : Passes s (s.setStop n c) :=
  Moves.passes (.same rfl rfl rfl rfl (fun _ h => h) (fun _ => Nat.le_refl _) rfl rfl)

theorem passes_setRetry (hc : (s.retry i) ≠ .none) (c : Retry) : Passes s (s.setRetry i c) := by
  refine Moves.passes (.same rfl rfl rfl rfl (fun j hj => ?_) (fun _ => Nat.le_refl _) rfl rfl)
  by_cases hji : j = i
  · exact hji ▸ hc
  · simpa [setRetry, hji] using hj

/-! ## `stop` -/

theorem passes_stopEnd (s : CallbackManager) (n : Nat) (close drained : Bool) :
    Passes s (s.stopEnd n close drained) := by
  unfold stopEnd
  split
  · exact passes_setStop ..
  · exact (Moves.setPendingEmpty s 0).passes.trans (passes_setStop ..)

theorem passes_stopLocked (s : CallbackManager) (n : Nat) (close drained : Bool) :
    Passes s (s.stopLocked n close drained) := by
  unfold stopLocked
  split
  · exact (passes_unlock s).trans (passes_stopEnd ..)
  · rename_i hw
    have hdrop : Passes s { s with worker := .none } := .drop (fun _ => rfl) rfl
    exact hdrop.trans ((passes_unlock _).trans (passes_stopEnd ..))
  · exact (passes_unlock s).trans (passes_setStop ..)
  · exact passes_setStop ..

theorem passes_stopAcquire (s : CallbackManager) (n : Nat) (close drained : Bool) :
    Passes s (s.stopAcquire n close drained) := by
  have hlock : Passes s (s.lock (.stop n)) := passes_lock s fun _ h => by cases h
  unfold stopAcquire
  split
  · exact hlock.trans (passes_stopLocked ..)
  · exact hlock.trans (passes_setStop ..)

/-- What is written leaves the queue, whether or not it could be. -/
theorem passes_persistBuffered (writes : Nat → Bool) {l : List Nat} (hq : s.queue = l) :
    Passes s (persistBuffered writes l s).1 := by
  induction l generalizing s with
  | nil => exact .refl s
  | cons i rest ih =>
    have hfirst : Passes s { s with store := (s.store.persist i writes).1, queue := rest } := by
      refine ⟨rfl, fun j => ?_, messages_persist s.store i writes, rfl⟩
      simp only [CallbackManager.places, held, hq, List.count_cons]
      omega
    unfold persistBuffered
    split
    · rename_i st hst
      rw [hst] at hfirst
      exact hfirst.trans (ih rfl)
    · rename_i st hst
      rw [hst] at hfirst
      exact hfirst

theorem passes_stopFlush (s : CallbackManager) (n : Nat) (close drained : Bool)
    (writes : Nat → Bool) : Passes s (s.stopFlush n close drained writes) := by
  unfold stopFlush
  split
  · exact passes_stopAcquire ..
  · have hbuf := passes_persistBuffered (s := s) writes rfl
    split
    · rename_i s₁ hs₁
      rw [hs₁] at hbuf
      exact hbuf.trans (passes_stopAcquire ..)
    · rename_i s₁ hs₁
      rw [hs₁] at hbuf
      exact hbuf.trans (passes_setStop ..)

theorem passes_cancelRetries (s : CallbackManager) : Passes s s.cancelRetries := by
  refine Moves.passes (.same rfl rfl rfl rfl (fun i hi hn => ?_)
    (fun i => List.Sublist.count_le _ List.filter_sublist) rfl rfl)
  simp only [cancelRetries, hn] at hi
  exact hi rfl

theorem passes_stopWaited (s : CallbackManager) (n : Nat) (close drained : Bool)
    (writes : Nat → Bool) : Passes s (s.stopWaited n close drained writes) := by
  unfold stopWaited
  split
  · exact passes_stopFlush ..
  · exact (passes_cancelRetries s).trans (passes_setStop ..)

theorem passes_stopCall (s : CallbackManager) (timed close : Bool) (writes : Nat → Bool) :
    Passes s (s.stopCall timed close writes) := by
  have hentry : Passes s { s with closed := s.closed || close, nextStop := s.nextStop + 1 } :=
    Moves.passes (.same rfl rfl rfl rfl (fun _ h => h) (fun _ => Nat.le_refl _) rfl rfl)
  simp only [stopCall]
  split
  · exact hentry.trans (passes_setStop ..)
  · exact hentry.trans (passes_stopWaited ..)

/-! ## The steps -/

/-- A request is in one place at most, and one that is not yet there in none. -/
structure Numbered (s : CallbackManager) : Prop where
  once : ∀ i, s.places i ≤ 1
  fresh : ∀ i, s.nextRequest ≤ i → s.places i = 0

theorem numbered_init (files : CallbackPath → Option StoredFile) (n : Nat) :
    Numbered (init files n) where
  once i := by simp [places, init, held, Retry.tasks]
  fresh i _ := by simp [places, init, held, Retry.tasks]

theorem Numbered.pass (h : Numbered s) (p : Passes s s') : Numbered s' where
  once i := Nat.le_trans (p.places i) (h.once i)
  fresh i hi := by
    rw [p.next] at hi
    exact Nat.le_zero.mp (h.fresh i hi ▸ p.places i)

/-- The worker's request is there, and is not delivered. -/
theorem Numbered.held (h : Numbered s) (hh : s.held = some i) :
    i < s.nextRequest ∧ i ∉ s.delivered := by
  have hpos := places_held hh
  constructor
  · by_contra hle
    have := h.fresh i (Nat.le_of_not_lt hle)
    omega
  · intro hd
    have hc := List.count_pos_iff.mpr hd
    have ho := h.once i
    simp only [places, count_held hh] at ho
    omega

/-- What a step leaves of the requests that were there, with those it brings and those it
delivers. -/
structure Advances (P : PyVal → Prop) (s s' : CallbackManager) (new : List Nat) : Prop where
  numbered : Numbered s'
  next : s.nextRequest ≤ s'.nextRequest
  places : ∀ i, i < s.nextRequest → s'.places i ≤ s.places i
  message : ∀ i, i < s.nextRequest → (s'.request i).message = (s.request i).message
  brought : ∀ i, s.nextRequest ≤ i → i < s'.nextRequest → P (s'.request i).msg
  delivered : s'.delivered = s.delivered ++ new

theorem Passes.advances (p : Passes s s') (h : Numbered s) : Advances P s s' [] where
  numbered := h.pass p
  next := Nat.le_of_eq p.next.symm
  places i _ := p.places i
  message i _ := p.message i
  brought i hi hlt := by
    rw [p.next] at hlt
    omega
  delivered := by rw [p.delivered, List.append_nil]

theorem msg_of_message {r r' : CallbackRequest} (h : r.message = r'.message) : r.msg = r'.msg := by
  have hmsg : r.message.msg = r'.message.msg := by rw [h]
  exact hmsg

theorem Advances.trans {s'' : CallbackManager} {new new' : List Nat} (h : Advances P s s' new)
    (h' : Advances P s' s'' new') : Advances P s s'' (new ++ new') where
  numbered := h'.numbered
  next := Nat.le_trans h.next h'.next
  places i hi := Nat.le_trans (h'.places i (Nat.lt_of_lt_of_le hi h.next)) (h.places i hi)
  message i hi := (h'.message i (Nat.lt_of_lt_of_le hi h.next)).trans (h.message i hi)
  brought i hi hlt := by
    by_cases hi' : i < s'.nextRequest
    · rw [msg_of_message (h'.message i hi')]
      exact h.brought i hi hi'
    · exact h'.brought i (Nat.le_of_not_lt hi') hlt
  delivered := by rw [h'.delivered, h.delivered, List.append_assoc]

/-- A request that is new gets its place. -/
theorem Numbered.added (h : Numbered s) {r : CallbackRequest}
    (hn : s'.nextRequest = s.nextRequest + 1) (hst : s'.store = s.store.add s.nextRequest r)
    (hp : ∀ i, s'.places i = s.places i + if i = s.nextRequest then 1 else 0)
    (hd : s'.delivered = s.delivered) (hr : P r.msg) : Advances P s s' [] where
  numbered := by
    constructor
    · intro i
      rw [hp]
      split
      · rename_i hi
        rw [h.fresh i (Nat.le_of_eq hi.symm)]
      · exact h.once i
    · intro i hi
      rw [hn] at hi
      rw [hp, if_neg (by omega), h.fresh i (by omega)]
  next := by omega
  places i hi := by rw [hp, if_neg (Nat.ne_of_lt hi), Nat.add_zero]
  message i hi := by
    rw [request, hst, (Store.add_only s.store s.nextRequest r).request i (Nat.ne_of_lt hi), request]
  brought i hi hlt := by
    obtain rfl : i = s.nextRequest := by omega
    rw [request, hst]
    simpa [Store.add, Store.setRequest] using hr
  delivered := by rw [hd, List.append_nil]

theorem Numbered.put (h : Numbered s) {r : CallbackRequest} (hr : P r.msg) :
    Advances P s ((s.count r).put s.nextRequest) [] :=
  h.added rfl rfl (fun i => places_put (s.count r) s.nextRequest i) rfl hr

theorem Numbered.enqueue (h : Numbered s) {r : CallbackRequest} (hr : P r.msg) :
    Advances P s (s.enqueue r) [] := by
  unfold CallbackManager.enqueue
  split
  · exact (Passes.refl s).advances h
  · split
    · exact h.added rfl rfl (fun i => places_put (s.count r) s.nextRequest i) rfl hr
    · refine h.added rfl rfl (fun i => ?_) rfl hr
      simp only [places, lock, count, CallbackManager.held, List.count_append, List.count_singleton]
      by_cases hi : i = s.nextRequest
      · simp [hi]
        omega
      · simp [hi, Ne.symm hi]

/-- Loading a file changes at most this one. -/
theorem replay_others (s : CallbackManager) {p q : CallbackPath} (hq : q ≠ p) :
    (s.replay p).store.files q = s.store.files q := by
  unfold replay
  split
  · rfl
  · exact Function.update_of_ne hq _ _

theorem Numbered.replays (h : Numbered s) {paths : List CallbackPath} (hnd : paths.Nodup)
    (hr : ∀ p ∈ paths, ∀ r, s.store.files p = some (.whole r) → P r.msg) :
    Advances P s (paths.foldl replay s) [] := by
  induction paths generalizing s with
  | nil => exact (Passes.refl s).advances h
  | cons p paths ih =>
    obtain ⟨hp, hnd⟩ := List.nodup_cons.mp hnd
    have hfirst : Advances P s (s.replay p) [] := by
      unfold replay
      split
      · rename_i r hf
        exact h.put (r := { r with persistedPath := some p }) (hr p (List.mem_cons_self ..) r hf)
      · exact Passes.advances ⟨rfl, fun _ => Nat.le_refl _, fun _ => rfl, rfl⟩ h
    refine hfirst.trans (ih hfirst.numbered hnd fun q hq r hf => ?_)
    have hne : q ≠ p := by
      rintro rfl
      exact hp hq
    rw [replay_others s hne] at hf
    exact hr q (List.mem_cons_of_mem _ hq) r hf

theorem Numbered.delivers (h : Numbered s) (hw : s.worker = .delivering i) (unlinks : Nat → Bool) :
    Advances P s ({ s with
      store := s.store.delete i unlinks, delivered := s.delivered ++ [i] }.markCompleted.next)
      [i] := by
  rw [← markCompleted_next]
  have hout : Advances P s { s with
      store := s.store.delete i unlinks
      delivered := s.delivered ++ [i]
      worker := .idle } [i] := by
    have hpl := places_delivered hw (s.store.delete i unlinks)
    refine ⟨⟨fun j => ?_, fun j hj => ?_⟩, Nat.le_refl _, fun j _ => ?_, fun j _ => ?_,
      fun j hj hlt => absurd hlt (Nat.not_lt.mpr hj), rfl⟩
    · rw [hpl]
      exact h.once j
    · rw [hpl]
      exact h.fresh j hj
    · exact Nat.le_of_eq (hpl j)
    · exact messages_delete s.store i unlinks j
  have hrest : ∀ x : CallbackManager, x.held = none → Passes x x.markCompleted.next := fun x hx =>
    (Moves.markCompleted x).passes.trans (Moves.take ((held_markCompleted x).trans hx)).passes
  exact hout.trans ((hrest _ rfl).advances hout.numbered)

/-- A delivery that fails, up to the next request. -/
theorem passes_fails (hw : s.worker = .delivering i) {st : Store}
    (hm : ∀ j, (st.request j).message = (s.request j).message) :
    Passes s (({ s with store := st }.setRetry i .sleeping).next) := by
  rw [← next_worker _ .idle]
  have hsleep : Passes s ({ s with store := st, worker := .idle }.setRetry i .sleeping) := by
    refine ⟨rfl, fun j => ?_, hm, rfl⟩
    simp only [places, setRetry, CallbackManager.held, hw, Option.toList_none, Option.toList_some,
      List.count_nil]
    by_cases hj : j = i
    · subst hj
      simp only [Function.update_self, Retry.tasks, List.count_singleton_self]
      omega
    · simp only [Function.update_of_ne hj]
      omega
  exact hsleep.trans (Moves.take rfl).passes

theorem passes_retryFires (h : s.retry i = .sleeping) : Passes s (s.retryFires i) := by
  have hne : s.retry i ≠ .none := by rw [h]; exact fun hc => by cases hc
  unfold retryFires
  split
  · exact passes_setRetry hne _
  · split
    · exact (Moves.requeue hne).passes
    · have hlock : Passes s (s.lock (.retry i)) := passes_lock s fun _ hc => by cases hc
      exact hlock.trans (passes_setRetry (s := s.lock (.retry i)) hne _)

/-- The requests whose delivery is completed in the event. -/
def completed (s : CallbackManager) : Event → List Nat
  | .workerDelivers _ => s.held.toList
  | _ => []

/-- `P` holds of the messages that the event brings. -/
def Brings (P : PyVal → Prop) (s : CallbackManager) : Event → Prop
  | .start paths => ∀ p ∈ paths, ∀ r, s.store.files p = some (.whole r) → P r.msg
  | .enqueue r => P r.msg
  | _ => True

theorem Numbered.step (h : Numbered s) (hb : Brings P s e) (hs : step s e = some s') :
    Advances P s s' (s.completed e) := by
  have hpass : ∀ {x}, Passes s x → Advances P s x [] := fun hp => hp.advances h
  cases e with
  | start paths =>
    simp only [CallbackManager.step] at hs
    split at hs
    · cases hs
      exact hpass (.refl s)
    · split at hs
      · rename_i hpaths
        cases hs
        have hstarted : ∀ x : CallbackManager, Passes x { x with started := true } := fun _ =>
          ⟨rfl, fun _ => Nat.le_refl _, fun _ => rfl, rfl⟩
        have hreplays := h.replays hpaths.1 hb
        exact hreplays.trans ((hstarted _).advances hreplays.numbered)
      · cases hs
  | enqueue r =>
    simp only [CallbackManager.step] at hs
    split at hs
    · cases hs
      exact h.enqueue hb
    · cases hs
  | resumeEnqueue i =>
    simp only [CallbackManager.step] at hs
    split at hs
    · rename_i hl
      cases hs
      exact hpass (Moves.resume hl).passes
    · cases hs
  | cancelEnqueue i =>
    simp only [CallbackManager.step] at hs
    split at hs
    · cases hs
      exact hpass (Moves.passes (.same rfl rfl rfl rfl (fun _ h => h)
        (fun _ => List.Sublist.count_le _ List.erase_sublist) rfl rfl))
    · cases hs
  | workerTakes =>
    simp only [CallbackManager.step] at hs
    split at hs
    · cases hs
    · split at hs
      · rename_i hw
        cases hs
        exact hpass (Moves.take (by rw [CallbackManager.held, hw])).passes
      · rename_i hw _
        cases hs
        exact hpass (Moves.take (by rw [CallbackManager.held, hw])).passes
      · cases hs
  | workerDelivers unlinks =>
    simp only [CallbackManager.step] at hs
    split at hs
    · rename_i i hw
      split at hs
      · cases hs
      · cases hs
        rw [completed, held_some hw]
        exact h.delivers hw unlinks
    · cases hs
  | workerFails writes =>
    simp only [CallbackManager.step] at hs
    split at hs
    · rename_i i hw
      have hm : ∀ j, (((s.store.attempt i).persist i writes).1.request j).message =
          (s.request j).message := fun j =>
        (messages_persist ..).trans (messages_attempt s.store i j)
      split at hs
      · cases hs
      · split at hs
        · rename_i st hst
          rw [hst] at hm
          cases hs
          exact hpass (passes_fails hw hm)
        · rename_i st hst
          rw [hst] at hm
          cases hs
          exact hpass (.drop hm rfl)
    · cases hs
  | workerEnds writes =>
    simp only [CallbackManager.step] at hs
    split at hs
    · split at hs
      · rename_i i hw
        cases hs
        exact hpass (.drop (messages_persist s.store i writes) rfl)
      · cases hs
        exact hpass (.drop (fun _ => rfl) rfl)
      · cases hs
        exact hpass (.drop (fun _ => rfl) rfl)
      · cases hs
    · cases hs
  | retryFires i =>
    simp only [CallbackManager.step] at hs
    split at hs
    · rename_i hr
      cases hs
      exact hpass (passes_retryFires hr)
    · cases hs
  | retryResumes i =>
    simp only [CallbackManager.step] at hs
    split at hs
    · rename_i hr
      cases hs
      have hne : s.unlock.retry i ≠ .none := by
        show s.retry i ≠ .none
        rw [hr.1]
        exact fun hc => by cases hc
      exact hpass ((passes_unlock s).trans (Moves.requeue hne).passes)
    · cases hs
  | retryEnds i =>
    simp only [CallbackManager.step] at hs
    split at hs
    · rename_i hr
      cases hs
      exact hpass (passes_setRetry (by rw [hr]; exact fun hc => by cases hc) _)
    · cases hs
  | stop timed close writes =>
    simp only [CallbackManager.step] at hs
    cases hs
    exact hpass (passes_stopCall ..)
  | stopDrained n writes =>
    simp only [CallbackManager.step] at hs
    split at hs
    · cases hs
      exact hpass (passes_stopWaited ..)
    · cases hs
  | stopTimeout n writes =>
    simp only [CallbackManager.step] at hs
    split at hs
    · cases hs
      exact hpass (passes_stopWaited ..)
    · cases hs
  | stopRetriesOver n writes =>
    simp only [CallbackManager.step] at hs
    split at hs
    · split at hs
      · cases hs
        exact hpass (passes_stopFlush ..)
      · cases hs
    · cases hs
  | stopLocked n =>
    simp only [CallbackManager.step] at hs
    split at hs
    · split at hs
      · cases hs
        exact hpass (passes_stopLocked ..)
      · cases hs
    · cases hs
  | stopJoined n =>
    simp only [CallbackManager.step] at hs
    split at hs
    · rename_i crashed _ hw
      split at hs
      · split at hs
        · cases hs
          exact hpass ((passes_unlock s).trans (passes_setStop ..))
        · cases hs
          have hdrop : Passes s { s with worker := .none } := .drop (fun _ => rfl) rfl
          exact hpass (hdrop.trans ((passes_unlock _).trans (passes_stopEnd ..)))
      · cases hs
    · cases hs

/-- `P` holds of every message. -/
def EachMsg (P : PyVal → Prop) (s : CallbackManager) : Prop :=
  ∀ i, i < s.nextRequest → P (s.request i).msg

theorem EachMsg.step (h : EachMsg P s) (hn : Numbered s) (hb : Brings P s e)
    (hs : CallbackManager.step s e = some s') : EachMsg P s' := by
  have ha := hn.step hb hs
  intro i hi
  by_cases hlt : i < s.nextRequest
  · rw [msg_of_message (ha.message i hlt)]
    exact h i hlt
  · exact ha.brought i (Nat.le_of_not_lt hlt) hi

theorem Kept.numbered (h : Kept s) : Numbered s := ⟨h.once, fun i hi => (h.fresh i hi).1⟩

end CallbackManager

end Pyxxl
