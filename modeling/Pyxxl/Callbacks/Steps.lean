import Pyxxl.Callbacks.Kept

/-!
# Pyxxl.Callbacks.Steps

What a step of a `CallbackManager` does, act by act (`step_acts`).

* `FilesOk s e`: the file system does what it is asked to, and the messages can be stored.
* `TidyReset s e`: a `stop` that sets `_pending` to 0 after its timeout finds nothing that still
  counts. Where it is not asked for, `tidy` is `False`.
-/

namespace Pyxxl
namespace CallbackManager

open Transition

variable {tidy muted : Prop} {s s' : CallbackManager} {e : Event} {i j n : Nat} {close drained : Bool}

/-- File operations succeed in the event, and the messages it brings can be stored. What `json.loads`
gives is plain data. -/
def FilesOk (s : CallbackManager) : Event → Prop
  | .start paths => ∀ p ∈ paths, ∀ r, s.store.files p = some (.whole r) →
      r.msg.plain = true ∧ r.msg.storable = true
  | .enqueue r => r.msg.storable = true
  | .workerDelivers unlinks => ∀ i, unlinks i = true
  | .workerFails writes | .workerEnds writes | .stop _ _ writes | .stopDrained _ writes
  | .stopTimeout _ writes | .stopRetriesOver _ writes => ∀ i, writes i = true
  | _ => True

/-- The `stop` calls that set `_pending` to 0 in the event, and what they should find. One that
comes to the lock straight from its retry tasks has just emptied the queue. -/
def TidyReset (muted : Prop) (s : CallbackManager) : Event → Prop
  | .stopRetriesOver n _ => ∀ close todo, s.stop n = .retries close false todo →
      s.workerLock = [] → s.worker.alive = false →
      s.closed = true ∨ muted ∨ ∀ i, (s.retry i).active = false
  | .stopLocked n => ∀ close, s.stop n = .locking close false → s.worker.alive = false →
      s.Flushed muted
  | .stopJoined n => ∀ close, s.stop n = .joining close false → s.Flushed muted
  | _ => True

theorem Acts.kept (a : Acts tidy muted s s') (h : Kept s) : Kept s' := by
  induction a with
  | refl => exact h
  | tail _ a ih => exact ih.act a

theorem Acts.plain (a : Acts tidy muted s s') (h : Plain s) : Plain s' := by
  induction a with
  | refl => exact h
  | tail _ a ih => exact ih.act a

/-- Nobody calls `enqueue`. -/
def EnqueueFree (_ : CallbackManager) : Event → Prop
  | .enqueue _ => False
  | _ => True

/-! ## `start` and `enqueue` -/

theorem started_replays (paths : List CallbackPath) (s : CallbackManager) :
    { paths.foldl replay s with started := true } =
      paths.foldl replay { s with started := true } := by
  induction paths generalizing s with
  | nil => rfl
  | cons p paths ih =>
    simp only [List.foldl_cons]
    rw [ih]
    congr 1
    simp only [replay]
    split <;> rfl

theorem acts_replays {paths : List CallbackPath} (hs : s.started = true) (hnd : paths.Nodup)
    (hu : ∀ p ∈ paths, p.uuid < s.store.nextUuid) (hh : ∀ p ∈ paths, ∀ i, s.store.home i ≠ some p)
    (hf : ∀ p ∈ paths, ∀ r, s.store.files p = some (.whole r) →
      r.msg.plain = true ∧ r.msg.storable = true) :
    Acts tidy muted s (paths.foldl replay s) := by
  induction paths generalizing s with
  | nil => exact .refl
  | cons p paths ih =>
    obtain ⟨hp, hnd⟩ := List.nodup_cons.mp hnd
    have hne : ∀ q ∈ paths, q ≠ p := fun q hq he => hp (he ▸ hq)
    have hpm := List.mem_cons_self (a := p) (l := paths)
    have hact : Act tidy muted s (s.replay p) := by
      simp only [replay]
      split
      · rename_i r hr
        exact .replay hs hr (hf p hpm r hr).1 (hf p hpm r hr).2 (hh p hpm) (hu p hpm)
      · rename_i hno
        exact .discard (fun r hr => hno r hr) (hh p hpm)
    refine .head hact (ih ?_ hnd ?_ ?_ ?_)
    · simp only [replay]
      split <;> exact hs
    · intro q hq
      have hu := hu q (List.mem_cons_of_mem _ hq)
      simp only [replay]
      split <;> exact hu
    · intro q hq i
      have hh := hh q (List.mem_cons_of_mem _ hq) i
      simp only [replay]
      split
      · simp only [put, count, Store.add]
        by_cases hi : i = s.nextRequest
        · subst hi
          rw [Function.update_self]
          exact fun he => hne q hq (Option.some.inj he).symm
        · rw [Function.update_of_ne hi]; exact hh
      · exact hh
    · intro q hq r hr
      refine hf q (List.mem_cons_of_mem _ hq) r ?_
      rw [← hr]
      simp only [replay]
      split
      · rfl
      · exact (Function.update_of_ne (hne q hq) _ _).symm

/-- Where nobody holds the lock, `enqueue` takes and leaves it at once. -/
theorem enqueue_free (r : CallbackRequest) (h : s.workerLock = []) :
    ((s.count r).lock (.enqueue s.nextRequest)).resumeEnqueue s.nextRequest =
      { (s.count r).put s.nextRequest with enqueued := s.enqueued ++ [s.nextRequest] } := by
  simp [resumeEnqueue, unlock, lock, count, put, h]

theorem acts_enqueue {r : CallbackRequest} (hs : s.started = true) (hp : r.persistedPath = none)
    (hr : r.msg.storable = true) (hm : ¬muted) : Acts tidy muted s (s.enqueue r) := by
  simp only [enqueue]
  split
  · exact .refl
  · rename_i hc
    have henter : Act tidy muted s ((s.count r).lock (.enqueue s.nextRequest)) :=
      .enter hs hp hr (by simpa using hc) hm
    split
    · rename_i hl
      rw [← enqueue_free r hl]
      refine .tail (.single henter) (.resume ?_)
      simp [lock, count, hl]
    · exact .single henter

/-! ## The worker and the retry tasks -/

theorem acts_delivers {unlinks : Nat → Bool} (h : s.worker = .delivering i)
    (hu : unlinks i = true) :
    Acts tidy muted s ({ s with
      store := s.store.delete i unlinks, delivered := s.delivered ++ [i] }.markCompleted.next) := by
  rw [← markCompleted_next]
  refine .tail (.single (.deliver h hu)) (.take ?_)
  rw [held_markCompleted]
  rfl

theorem acts_fails {writes : Nat → Bool} (h : s.worker = .delivering i) (hw : writes i = true) :
    Acts tidy muted s (({ s with store := ((s.store.attempt i).persist i writes).1 }.setRetry i
      .sleeping).next) := by
  rw [← next_worker _ .idle]
  exact .tail (.single (.fail h hw)) (.take rfl)

/-- The request that could not be delivered is written, and waits for its next attempt. -/
theorem step_workerFails {writes : Nat → Bool} (hk : Kept s) (hw : s.worker = .delivering i)
    (hf : writes i = true) (h : step s (.workerFails writes) = some s') :
    s' = ({ s with store := ((s.store.attempt i).persist i writes).1 }.setRetry i
      .sleeping).next := by
  have hs := hk.msg_storable (.inr (held_some hw))
  have hflag : ((s.store.attempt i).persist i writes).2 = true :=
    (Store.persist_stored (by simpa [Store.attempt, Store.setRequest] using hs) hf).2
  simp only [step, hw] at h
  split at h
  · cases h
  · split at h
    · rename_i st hst
      rw [hst]
      exact (Option.some.inj h).symm
    · rename_i st hst
      rw [hst] at hflag
      cases hflag

theorem acts_retryFires (h : s.retry i = .sleeping) : Acts tidy muted s (s.retryFires i) := by
  have hne : s.retry i ≠ .none := by rw [h]; exact fun hc => by cases hc
  have hretry : ∀ c, ∀ j, Function.update s.retry i c j ≠ .none → s.retry j ≠ .none := by
    intro c j hj
    by_cases hji : j = i
    · subst hji; exact hne
    · rwa [Function.update_of_ne hji] at hj
  have hactive : ∀ c, ∀ j, (Function.update s.retry i c j).active = true →
      (s.retry j).active = true := by
    intro c j hj
    by_cases hji : j = i
    · subst hji; rw [h]; rfl
    · rwa [Function.update_of_ne hji] at hj
  simp only [retryFires]
  split
  · exact .single (.retries (hretry .none) (hactive .none))
  · split
    · exact .single (.requeue hne (by rw [h]; rfl))
    · have hlock : Act tidy muted s (s.lock (.retry i)) :=
        .lock fun j => by simp [List.count_append]
      exact .tail (.single hlock) (.retries (hretry .parked) (hactive .parked))

/-! ## `stop` -/

/-- A call of `stop` that has come this far: what is said of it in its next state is true. -/
structure Due (s : CallbackManager) (n : Nat) (close drained : Bool) : Prop where
  lt : n < s.nextStop
  closed : close = true → s.closed = true
  kept : (s.stop n).close = true → close = true
  through : drained = true → close = true → s.pending = 0 ∨ (s.stop n).through = true

/-- The call is not drained, and what was queued is written. -/
def Written (s : CallbackManager) (n : Nat) (drained : Bool) : Prop :=
  drained = false → s.queue = [] ∨ (s.stop n).flushed = true

theorem Due.act {c : Stop} (h : Due s n close drained) (hc : c.close = close)
    (ht : c.through = true → (close && drained) = true)
    (hf : c.flushed = true → s.queue = [] ∨ (s.stop n).flushed = true)
    (hr : ∀ close, c ≠ .raised close) : Act tidy muted s (s.setStop n c) := by
  refine .stop ⟨h.lt, fun hcc => h.closed (by rw [← hc]; exact hcc),
    fun hcc => by rw [hc]; exact h.kept hcc, fun htt => ?_, hf, hr⟩
  obtain ⟨hcl, hd⟩ := Bool.and_eq_true_iff.mp (ht htt)
  exact h.through hd hcl

theorem Flushed.unlock (h : s.Flushed muted) : s.unlock.Flushed muted :=
  ⟨fun i hi => h.1 i (List.mem_of_mem_tail hi), h.2⟩

theorem Act.unlock : Act tidy muted s s.unlock := .lock fun _ => (List.tail_sublist _).count_le _

theorem Act.lockStop (n : Nat) : Act tidy muted s (s.lock (.stop n)) :=
  .lock fun i => by simp [List.count_append]

theorem acts_stopEnd (h : Due s n close drained) (hh : s.held = none)
    (hf : drained = false → tidy → s.Flushed muted) :
    Acts tidy muted s (s.stopEnd n close drained) := by
  cases drained with
  | true =>
    refine .single (h.act rfl (fun hc => ?_) (fun hc => by cases hc) fun _ hc => by cases hc)
    rw [Bool.and_true]
    exact hc
  | false =>
    refine .tail (.single (.reset hh (hf rfl))) (.stop ⟨h.lt, h.closed, fun hc => ?_,
      fun _ => .inl rfl, (fun hc => by cases hc), fun _ hc => by cases hc⟩)
    exact h.kept ((Stop.wake_close _).symm.trans hc)

theorem acts_stopLocked (hk : Kept s) (h : Due s n close drained) (hw : Written s n drained)
    (hf : drained = false → s.worker.alive = false → tidy → s.Flushed muted) :
    Acts tidy muted s (s.stopLocked n close drained) := by
  have hjoin : Act tidy muted s (s.setStop n (.joining close drained)) :=
    h.act rfl id (fun hc => hw (by simpa [Stop.flushed] using hc)) fun _ hc => by cases hc
  simp only [stopLocked]
  split
  · rename_i hw
    refine .head .unlock (acts_stopEnd ⟨h.lt, h.closed, h.kept, h.through⟩ ?_ ?_)
    · show s.held = none
      rw [held, hw]
    · exact fun hd ht => (hf hd (by rw [hw]; rfl) ht).unlock
  · rename_i hw
    have hheld : s.held = none := by rw [held, hw]
    refine .head (.worker hheld (.inl rfl)) (.head .unlock
      (acts_stopEnd ⟨h.lt, h.closed, h.kept, h.through⟩ rfl ?_))
    exact fun hd ht => (hf hd (by rw [hw]; rfl) ht).unlock
  · rename_i hw
    exact absurd hw hk.uncrashed
  · exact .single hjoin

theorem acts_stopAcquire (hk : Kept s) (h : Due s n close drained) (hw : Written s n drained)
    (hf : drained = false → s.workerLock = [] → s.worker.alive = false → tidy →
      (s.lock (.stop n)).Flushed muted) : Acts tidy muted s (s.stopAcquire n close drained) := by
  have ha : Act tidy muted s (s.lock (.stop n)) := .lockStop n
  have hdue : Due (s.lock (.stop n)) n close drained := ⟨h.lt, h.closed, h.kept, h.through⟩
  simp only [stopAcquire]
  split
  · rename_i hl
    exact .head ha (acts_stopLocked (hk.act ha) hdue hw fun hd ha ht => hf hd hl ha ht)
  · refine .head ha (.single (hdue.act rfl id (fun hc => hw ?_) fun _ hc => by cases hc))
    simpa [Stop.flushed] using hc

/-- `_persist_buffered_requests` empties the queue, and nothing else happens. -/
theorem acts_persistBuffered {writes : Nat → Bool} (hw : ∀ i, writes i = true) {l : List Nat}
    (hk : Kept s) (hq : s.queue = l) :
    ∃ s', persistBuffered writes l s = (s', true) ∧ Acts tidy muted s s' ∧ s'.queue = [] ∧
      s'.workerLock = s.workerLock ∧ s'.worker = s.worker ∧ s'.retry = s.retry ∧
      s'.closed = s.closed ∧ s'.pending = s.pending ∧ s'.stop = s.stop ∧
      s'.nextStop = s.nextStop := by
  induction l generalizing s with
  | nil => exact ⟨s, rfl, .refl, hq, rfl, rfl, rfl, rfl, rfl, rfl, rfl⟩
  | cons i rest ih =>
    have hs := hk.msg_storable (.inl (by rw [hq]; exact List.mem_cons_self (a := i)))
    have hflag := (Store.persist_stored hs (hw i)).2
    have ha : Act tidy muted s { s with store := (s.store.persist i writes).1, queue := rest } :=
      .flush hq (hw i)
    obtain ⟨s', he, has, hr⟩ := ih (hk.act ha) rfl
    refine ⟨s', ?_, .head ha has, hr⟩
    simp only [persistBuffered]
    rw [← he]
    generalize hp : s.store.persist i writes = p at hflag ⊢
    obtain ⟨st, b⟩ := p
    cases hflag
    rfl

theorem acts_stopFlush {writes : Nat → Bool} (hk : Kept s) (h : Due s n close drained)
    (hw : ∀ i, writes i = true)
    (hf : drained = false → s.workerLock = [] → s.worker.alive = false → tidy →
      s.closed = true ∨ muted ∨ ∀ i, (s.retry i).active = false) :
    Acts tidy muted s (s.stopFlush n close drained writes) := by
  simp only [stopFlush]
  split
  · rename_i hd
    exact acts_stopAcquire hk h (fun hd' => by rw [hd] at hd'; cases hd')
      fun hd' => by rw [hd] at hd'; cases hd'
  · rename_i hd
    obtain ⟨s', he, (ha : Acts tidy muted s s'), hq, hl, hwk, hr, hc, hp, hst, hns⟩ :=
      acts_persistBuffered hw hk rfl
    rw [he]
    refine ha.trans (acts_stopAcquire (ha.kept hk) ⟨?_, ?_, ?_, ?_⟩ (fun _ => .inl hq)
      fun _ hl' ha' ht => ?_)
    · rw [hns]; exact h.lt
    · rw [hc]; exact h.closed
    · rw [hst]; exact h.kept
    · rw [hp, hst]; exact h.through
    · refine ⟨fun i hi => ?_, fun i hi => ?_, ?_⟩
      · simp [lock, hl'] at hi
      · rw [lock, hq] at hi; cases hi
      · rw [hl] at hl'
        rw [hwk] at ha'
        rcases hf (by simpa using hd) hl' ha' ht with hcl | hm | hra
        · exact .inl (hc.trans hcl)
        · exact .inr (.inl hm)
        · exact .inr (.inr ⟨hq, fun i => by rw [lock, hr]; exact hra i⟩)

theorem acts_cancelRetries (s : CallbackManager) : Acts tidy muted s s.cancelRetries := by
  have hretries : Act tidy muted s { s with retry := fun i => (s.retry i).cancel } := by
    refine .retries (fun i hi hn => ?_) (fun i hi => ?_)
    · rw [hn] at hi; exact hi rfl
    · cases hc : s.retry i <;> rw [hc] at hi <;> cases hi
  exact .tail (.single hretries) (.lock fun i => List.Sublist.count_le _ List.filter_sublist)

/-- Without retry tasks no request waits for its next attempt. -/
theorem inactive_of_retryTasks (hk : Kept s) (h : s.retryTasks = []) (i : Nat) :
    (s.retry i).active = false := by
  have hn : s.retry i = .none := by
    by_contra hc
    have hm : i ∈ s.retryTasks := by
      simp only [retryTasks, List.mem_filter, List.mem_range, decide_eq_true_eq]
      exact ⟨hk.lt (places_retry hc), hc⟩
    rw [h] at hm
    cases hm
  rw [hn]
  rfl

theorem acts_stopWaited {writes : Nat → Bool} (hk : Kept s) (h : Due s n close drained)
    (hw : ∀ i, writes i = true) : Acts tidy muted s (s.stopWaited n close drained writes) := by
  simp only [stopWaited]
  split
  · rename_i hr
    exact acts_stopFlush hk h hw fun _ _ _ _ => .inr (.inr (inactive_of_retryTasks hk hr))
  · have hdue : Due s.cancelRetries n close drained := ⟨h.lt, h.closed, h.kept, h.through⟩
    exact (acts_cancelRetries s).tail
      (hdue.act rfl id (fun hc => by cases hc) fun _ hc => by cases hc)

theorem acts_stopCall {writes : Nat → Bool} (hk : Kept s) (hp : Plain s) (timed close : Bool)
    (hw : ∀ i, writes i = true) : Acts tidy muted s (s.stopCall timed close writes) := by
  have hentry : Acts tidy muted s
      { s with closed := s.closed || close, nextStop := s.nextStop + 1 } := by
    cases close with
    | true =>
      rw [Bool.or_true]
      exact .tail (.single .closing) .number
    | false =>
      rw [Bool.or_false]
      exact .single .number
  simp only [stopCall]
  refine hentry.trans ?_
  have hclosed : close = true → (s.closed || close) = true := fun hc => by rw [hc, Bool.or_true]
  have hclose : (s.stop s.nextStop).close = true → close = true := fun hc => by
    rw [hp.fresh s.nextStop (Nat.le_refl _)] at hc
    cases hc
  split
  · refine .single (.stop ⟨Nat.lt_succ_self _, hclosed, hclose, fun hc => ?_,
      (fun hc => by cases hc), fun _ hc => by cases hc⟩)
    simp [Stop.through] at hc
  · rename_i hn
    refine acts_stopWaited (hentry.kept hk)
      ⟨Nat.lt_succ_self _, hclosed, hclose, fun _ _ => .inl ?_⟩ hw
    simp only [Bool.and_eq_true, decide_eq_true_eq, Bool.not_eq_true', not_and,
      Bool.not_eq_false] at hn
    by_contra hz
    exact hz (hp.empty (hn (Nat.pos_of_ne_zero hz)))

/-! ## The steps -/

theorem count_erase_le (w v : Waiter) (l : List Waiter) : (l.erase w).count v ≤ l.count v :=
  List.Sublist.count_le _ List.erase_sublist

/-- A call of `stop` where it stands. -/
theorem Plain.due (h : Plain s) {c : Stop} (hst : s.stop n = c) (hn : c ≠ .none)
    (hc : c.close = close) (ht : drained = true → close = true → c.through = true) :
    Due s n close drained where
  lt := h.lt (by rw [hst]; exact hn)
  closed hcl := h.closed n (by rw [hst, hc]; exact hcl)
  kept hcl := by rw [← hc, ← hst]; exact hcl
  through hd hcl := .inr (by rw [hst]; exact ht hd hcl)

theorem step_acts (hk : Kept s) (hp : Plain s) (hf : FilesOk s e)
    (ht : tidy → TidyReset muted s e) (hm : muted → EnqueueFree s e) (h : step s e = some s') :
    Acts tidy muted s s' := by
  cases e with
  | start paths =>
    simp only [step] at h
    split at h
    · cases h; exact .refl
    · rename_i hs
      split at h
      · rename_i hpaths
        cases h
        rw [started_replays]
        have hzero := hp.begun (by simpa using hs)
        refine .head .started
          (acts_replays rfl hpaths.1 (fun p hp => (hpaths.2 p hp).1) (fun p _ i hi => ?_) hf)
        rw [(hk.fresh i (by omega)).2] at hi
        cases hi
      · cases h
  | enqueue r =>
    simp only [step] at h
    split at h
    · rename_i hs
      cases h
      simp only [Bool.and_eq_true, Option.isNone_iff_eq_none] at hs
      exact acts_enqueue hs.1 hs.2 hf hm
    · cases h
  | resumeEnqueue i =>
    simp only [step] at h
    split at h
    · rename_i hl; cases h; exact .single (.resume hl)
    · cases h
  | cancelEnqueue i =>
    simp only [step] at h
    split at h
    · cases h; exact .single (.lock fun j => count_erase_le ..)
    · cases h
  | workerTakes =>
    simp only [step] at h
    split at h
    · cases h
    · split at h
      · rename_i hw; cases h; exact .single (.take (by rw [held, hw]))
      · rename_i hw _; cases h; exact .single (.take (by rw [held, hw]))
      · cases h
  | workerDelivers unlinks =>
    simp only [step] at h
    split at h
    · rename_i i hw
      split at h
      · cases h
      · cases h; exact acts_delivers hw (hf i)
    · cases h
  | workerFails writes =>
    cases hw : s.worker with
    | delivering i =>
      rw [step_workerFails hk hw (hf i) h]
      exact acts_fails hw (hf i)
    | _ =>
      simp only [step, hw] at h
      cases h
  | workerEnds writes =>
    simp only [step] at h
    split at h
    · split at h
      · rename_i i hw
        have hflag := (Store.persist_stored (hk.msg_storable (.inr (held_some hw))) (hf i)).2
        simp only [hflag, Bool.not_true] at h
        cases h
        exact .single (.cut hw (hf i))
      · rename_i hw; cases h; exact .single (.worker (by rw [held, hw]) (.inr rfl))
      · rename_i hw; cases h; exact .single (.worker (by rw [held, hw]) (.inr rfl))
      · cases h
    · cases h
  | retryFires i =>
    simp only [step] at h
    split at h
    · rename_i hr; cases h; exact acts_retryFires hr
    · cases h
  | retryResumes i =>
    simp only [step] at h
    split at h
    · rename_i hr
      cases h
      exact .head .unlock (.single (.requeue (s := s.unlock) (by rw [unlock, hr.1]; simp)
        (by rw [unlock, hr.1]; rfl)))
    · cases h
  | retryEnds i =>
    simp only [step] at h
    split at h
    · rename_i hr
      cases h
      refine .single (.retries (fun j hj => ?_) fun j hj => ?_)
      · by_cases hji : j = i
        · subst hji; rw [hr]; simp
        · rwa [Function.update_of_ne hji] at hj
      · by_cases hji : j = i
        · subst hji; rw [Function.update_self] at hj; cases hj
        · rwa [Function.update_of_ne hji] at hj
    · cases h
  | stop timed close writes =>
    simp only [step] at h
    cases h
    exact acts_stopCall hk hp timed close hf
  | stopDrained n writes =>
    simp only [step] at h
    split at h
    · rename_i timed close hst
      cases h
      refine acts_stopWaited hk (hp.due hst (by simp) rfl fun _ hcl => ?_) hf
      rw [Stop.through, hcl, Bool.and_self]
    · cases h
  | stopTimeout n writes =>
    simp only [step] at h
    split at h
    · rename_i close woken hst
      cases h
      exact acts_stopWaited hk (hp.due hst (by simp) rfl fun hd => by cases hd) hf
    · cases h
  | stopRetriesOver n writes =>
    simp only [step] at h
    split at h
    · rename_i close drained todo hst
      split at h
      · cases h
        refine acts_stopFlush hk (hp.due hst (by simp) rfl fun hd hcl => ?_) hf
          fun hd hl ha htd => ?_
        · rw [Stop.through, hd, hcl, Bool.and_self]
        · exact ht htd close todo (hd ▸ hst) hl ha
      · cases h
    · cases h
  | stopLocked n =>
    simp only [step] at h
    split at h
    · rename_i close drained hst
      split at h
      · cases h
        refine acts_stopLocked hk (hp.due hst (by simp) rfl fun hd hcl => ?_) (fun hd => ?_)
          fun hd ha htd => ?_
        · rw [Stop.through, hd, hcl, Bool.and_self]
        · exact .inr (by rw [hst, hd]; rfl)
        · exact ht htd close (hd ▸ hst) ha
      · cases h
    · cases h
  | stopJoined n =>
    simp only [step] at h
    split at h
    · rename_i close drained crashed hst hw
      split at h
      · split at h
        · rename_i hcr
          rw [hcr] at hw
          exact absurd hw hk.uncrashed
        · cases h
          have hdue : Due s n close drained := hp.due hst (by simp) rfl fun hd hcl => by
            rw [Stop.through, hd, hcl, Bool.and_self]
          refine .head (.worker (by rw [held, hw]) (.inl rfl)) (.head .unlock
            (acts_stopEnd ⟨hdue.lt, hdue.closed, hdue.kept, hdue.through⟩ rfl fun hd htd => ?_))
          have hfl : s.Flushed muted := ht htd close (hd ▸ hst)
          exact Flushed.unlock hfl
      · cases h
    · cases h

/-- What a run keeps as long as files can be written. -/
theorem reachable_kept (h : Reachable FilesOk s) : Kept s ∧ Plain s := by
  obtain ⟨files, nextUuid, hs⟩ := h
  refine hs.invariant (P := fun s => Kept s ∧ Plain s) (fun _ _ _ hi hok hst => ?_)
    ⟨kept_init files nextUuid, plain_init files nextUuid⟩
  have ha : Acts False False _ _ := step_acts hi.1 hi.2 hok False.elim False.elim hst
  exact ⟨ha.kept hi.1, ha.plain hi.2⟩

end CallbackManager
end Pyxxl
