import Mathlib.Data.Nat.Count
import Pyxxl.Callbacks.Steps

/-!
# Pyxxl.Callbacks.Durable

No request is lost as long as files can be written, and a `stop(close=True)` that has returned
leaves each of them delivered or stored, unless a timed-out `stop` has set `_pending` to 0 too
early (`requests_durable`). Where it has, a request may stay in the queue for good
(`closed_over_queue`).

* `Live s i`: `i` is still to be delivered by a task of this process.
* `Quiet muted s`: no request comes to the queue any more, and all that is there is stored.
* `Sound muted s`: `_pending` is not below the number of live requests, until all is quiet.
-/

namespace Pyxxl
namespace CallbackManager

open Transition

variable {tidy muted : Prop} {s s' : CallbackManager} {e : Event} {i j n : Nat}

def Live (s : CallbackManager) (i : Nat) : Prop :=
  i ∈ s.queue ∨ s.held = some i ∨ (s.retry i).active = true ∨ .enqueue i ∈ s.workerLock

instance (s : CallbackManager) : DecidablePred s.Live := fun _ =>
  inferInstanceAs (Decidable (_ ∨ _ ∨ _ ∨ _))

/-- The number of live requests. -/
def live (s : CallbackManager) : Nat := Nat.count s.Live s.nextRequest

structure Quiet (muted : Prop) (s : CallbackManager) : Prop where
  closed : s.closed = true ∨ muted
  lock : ∀ i, .enqueue i ∉ s.workerLock
  stored : ∀ i, i ∈ s.queue ∨ s.held = some i → s.store.Stored i

structure Sound (muted : Prop) (s : CallbackManager) : Prop where
  count : s.live ≤ s.pending ∨ Quiet muted s
  through : ∀ n, (s.stop n).through = true → Quiet muted s

/-! ## Quiet stays quiet -/

/-- The worker's request is not queued as well. -/
theorem Kept.held_queue (h : Kept s) (hh : s.held = some i) : i ∉ s.queue := by
  intro hq
  have ho := h.once i
  have hc := List.count_pos_iff.mpr hq
  simp only [places, count_held hh] at ho
  omega

/-- Nor is it anywhere else. -/
theorem Kept.held_only (h : Kept s) (hh : s.held = some i) :
    i ∉ s.queue ∧ (s.retry i).active = false ∧ .enqueue i ∉ s.workerLock := by
  have ho := h.once i
  simp only [places, count_held hh] at ho
  refine ⟨h.held_queue hh, ?_, fun hm => ?_⟩
  · cases hc : s.retry i with
    | none => rfl
    | _ => simp only [hc, Retry.tasks] at ho; omega
  · have := List.count_pos_iff.mpr hm
    omega

theorem mem_of_count_le {l l' : List Waiter} {w : Waiter} (h : l.count w ≤ l'.count w)
    (hw : w ∈ l) : w ∈ l' :=
  List.count_pos_iff.mp (Nat.lt_of_lt_of_le (List.count_pos_iff.mpr hw) h)

theorem act_closed (a : Act tidy muted s s') (h : s.closed = true) : s'.closed = true := by
  cases a with
  | take hh =>
    obtain ⟨-, -, -, -, -, -, hc, -⟩ := next_same (s := s)
    exact hc.trans h
  | deliver hd hu =>
    rw [markCompleted_eq]
    split <;> exact h
  | closing => rfl
  | _ => exact h

/-- Who waits for the lock has waited before, or has just called `enqueue`. -/
theorem act_lock (a : Act tidy muted s s') (hc : s.closed = true ∨ muted)
    (h : ∀ i, .enqueue i ∉ s.workerLock) : ∀ i, .enqueue i ∉ s'.workerLock := by
  cases a with
  | enter hs hp hr ho hm =>
    rw [hc.resolve_right hm] at ho
    cases ho
  | resume hl => exact fun i hi => h i (List.mem_of_mem_tail hi)
  | take hh =>
    obtain ⟨-, -, -, -, -, hl, -⟩ := next_same (s := s)
    rw [hl]
    exact h
  | deliver hd hu =>
    rw [markCompleted_eq]
    split <;> exact h
  | lock hl => exact fun i hi => h i (mem_of_count_le (hl i) hi)
  | _ => exact h

/-- What comes to the queue, when no `enqueue` waits, is stored. -/
theorem act_queue (hk : Kept s) (hw : ∀ i, .enqueue i ∉ s.workerLock) (a : Act tidy muted s s')
    (hi : i ∈ s'.queue) : i ∈ s.queue ∨ s'.store.Stored i := by
  cases a with
  | @replay p r hs hf hm hr hh hu =>
    refine (mem_put.mp hi).imp_right ?_
    rintro rfl
    refine ⟨p, r, ?_, hf, ?_⟩
    · simp [put, count, Store.add, Store.setRequest]
    · simpa [put, count, Store.add, Store.setRequest] using
        Store.asdict_path (PyVal.plain_asdict r.msg hm) (some p)
  | resume hl => exact absurd (List.mem_of_mem_head? hl) (hw _)
  | take hh =>
    rw [queue_next] at hi
    exact .inl (List.mem_of_mem_tail hi)
  | @deliver j unlinks hd hu =>
    rw [markCompleted_eq] at hi
    split at hi <;> exact .inl hi
  | requeue hr ho =>
    refine (mem_put.mp hi).imp_right ?_
    rintro rfl
    exact hk.retries _ hr
  | flush hq hwr =>
    refine .inl ?_
    rw [hq]
    exact List.mem_cons_of_mem _ hi
  | _ => exact .inl hi

/-- The worker takes its requests from the queue. -/
theorem act_held (a : Act tidy muted s s') (hi : s'.held = some i) :
    i ∈ s.queue ∨ s.held = some i := by
  cases a with
  | replay hs hf hm hr hh hu =>
    rw [held_put] at hi
    exact .inr hi
  | @resume j hl =>
    have hi : (s.unlock.put j).held = some i := hi
    rw [held_put] at hi
    exact .inr hi
  | take hh =>
    rw [held_next] at hi
    exact .inl (List.mem_of_mem_head? hi)
  | deliver hd hu =>
    rw [held_markCompleted] at hi
    cases hi
  | fail hd hw => cases hi
  | cut hd hw => cases hi
  | worker hh hw => rcases hw with rfl | rfl <;> cases hi
  | @requeue j hr ho =>
    have hi : (s.put j).held = some i := hi
    rw [held_put] at hi
    exact .inr hi
  | _ => exact .inr hi

/-- The file of a request stays as long as it is not delivered. -/
theorem act_stored (hk : Kept s) (a : Act tidy muted s s') (hi : i ∈ s'.queue ∨ s'.held = some i)
    (hs : s.store.Stored i) : s'.store.Stored i := by
  have hk' := hk.act a
  have hnew : ∀ r, (s.store.add s.nextRequest r).Ok → (s.store.add s.nextRequest r).Stored i := by
    intro r hok
    refine (Store.add_only s.store s.nextRequest r).stored hok ?_ hs
    rintro rfl
    obtain ⟨p, q, hp, -⟩ := hs
    have hh := (hk.fresh s.nextRequest (Nat.le_refl _)).2
    rw [hk.store.home _ p hp] at hh
    cases hh
  have hwrites : ∀ {j}, Writes j s s' → s'.store.Stored i := fun {j} w => by
    by_cases he : i = j
    · rw [he]; exact w.stored
    · exact w.only.stored w.ok he hs
  cases a with
  | replay => exact hnew _ hk'.store
  | discard hf hh =>
    obtain ⟨q, r, hq, hf, hr⟩ := hs
    refine ⟨q, r, hq, (Function.update_of_ne (fun he => ?_) _ _).trans hf, hr⟩
    exact hh i (by rw [← he]; exact hk.store.home i q hq)
  | enter => exact hnew _ hk'.store
  | take hh =>
    obtain ⟨hst, -⟩ := next_same (s := s)
    rw [hst]
    exact hs
  | @deliver j unlinks hd hu =>
    have hok := Store.delete_ok hk.store j unlinks
    have hq : i ∈ s.queue := by
      rw [held_markCompleted, markCompleted_eq] at hi
      split at hi <;> exact hi.resolve_right fun hc => by cases hc
    have he : i ≠ j := fun he => hk.held_queue (held_some hd) (he ▸ hq)
    have hstored := (Store.delete_only hk.store j unlinks).stored hok he hs
    rw [markCompleted_eq]
    split <;> exact hstored
  | fail hd hw => exact hwrites (.fail hk hd hw)
  | cut hd hw => exact hwrites (.cut hk hd hw)
  | flush hq hw => exact hwrites (.flush hk hq hw)
  | _ => exact hs

theorem Quiet.act (hk : Kept s) (h : Quiet muted s) (a : Act tidy muted s s') :
    Quiet muted s' where
  closed := h.closed.imp_left (act_closed a)
  lock := act_lock a h.closed h.lock
  stored i hi := by
    rcases hi with hq | hh
    · rcases act_queue hk h.lock a hq with hm | hs
      · exact act_stored hk a (.inl hq) (h.stored i (.inl hm))
      · exact hs
    · exact act_stored hk a (.inr hh) (h.stored i (act_held a hh))

/-! ## The counter -/

theorem Kept.live_lt (h : Kept s) (hi : s.Live i) : i < s.nextRequest := by
  refine h.lt ?_
  rcases hi with hq | hh | hr | hl
  · exact places_queue hq
  · exact places_held hh
  · exact places_retry fun hn => by rw [hn] at hr; cases hr
  · have := List.count_pos_iff.mpr hl
    simp only [places]
    omega

/-- Nothing is live, and nothing new comes. -/
theorem Kept.quiet (h : Kept s) (hc : s.closed = true ∨ muted) (hl : s.live = 0) : Quiet muted s := by
  have hno : ∀ i, ¬s.Live i := fun i hi =>
    Nat.count_iff_forall_not.mp hl i (h.live_lt hi) hi
  refine ⟨hc, fun i hi => hno i (.inr (.inr (.inr hi))), fun i hi => ?_⟩
  exact absurd (hi.imp_right .inl) (hno i)

theorem live_le (hn : s'.nextRequest = s.nextRequest) (h : ∀ i, s'.Live i → s.Live i) :
    s'.live ≤ s.live := by
  rw [live, live, hn]
  exact Nat.count_mono_left fun i _ hi => h i hi

/-- One request is new. -/
theorem live_succ (hn : s'.nextRequest = s.nextRequest + 1)
    (h : ∀ i, i ≠ s.nextRequest → s'.Live i → s.Live i) : s'.live ≤ s.live + 1 := by
  rw [live, live, hn, Nat.count_succ]
  have hle : Nat.count s'.Live s.nextRequest ≤ Nat.count s.Live s.nextRequest :=
    Nat.count_mono_left fun i hi hl => h i (Nat.ne_of_lt hi) hl
  split <;> omega

/-- One request is no longer live. -/
theorem live_lt (hn : s'.nextRequest = s.nextRequest) (h : ∀ i, s'.Live i → s.Live i)
    (hlt : i < s.nextRequest) (hi : s.Live i) (hi' : ¬s'.Live i) : s'.live < s.live := by
  rw [live, live, hn, Nat.count_eq_card_filter_range, Nat.count_eq_card_filter_range]
  refine Finset.card_lt_card ⟨fun k hk => ?_, fun hsub => hi' ?_⟩
  · simp only [Finset.mem_filter] at hk ⊢
    exact ⟨hk.1, h k hk.2⟩
  · have hm := hsub (Finset.mem_filter.mpr ⟨Finset.mem_range.mpr hlt, hi⟩)
    exact (Finset.mem_filter.mp hm).2

theorem Flushed.live (h : s.Flushed muted) (hh : s.held = none) :
    (s.closed = true ∨ muted) ∨ s.live = 0 := by
  rw [or_assoc]
  refine h.2.2.imp_right fun hm => hm.imp_right fun ⟨hq, hr⟩ => ?_
  refine Nat.count_iff_forall_not.mpr fun i _ hi => ?_
  rcases hi with hi | hi | hi | hi
  · rw [hq] at hi; cases hi
  · rw [hh] at hi; cases hi
  · rw [hr] at hi; cases hi
  · exact h.1 i hi

/-- An act leaves `_pending` as high as the number of live requests, or leaves all quiet. -/
theorem live_act (hk : Kept s) (h : s.live ≤ s.pending) (a : Act True muted s s') :
    s'.live ≤ s'.pending ∨ Quiet muted s' := by
  have hk' := hk.act a
  have hmove : s'.nextRequest = s.nextRequest → s'.pending = s.pending →
      (∀ i, s'.Live i → s.Live i) → s'.live ≤ s'.pending ∨ Quiet muted s' := fun hn hp hl =>
    .inl (hp ▸ Nat.le_trans (live_le hn hl) h)
  cases a with
  | replay hs hf hm hr hh hu =>
    refine .inl (Nat.le_trans (live_succ rfl fun i hi hl => ?_) (Nat.succ_le_succ h))
    rcases hl with hl | hl | hl | hl
    · exact .inl ((mem_put.mp hl).resolve_right hi)
    · rw [held_put] at hl; exact .inr (.inl hl)
    · exact .inr (.inr (.inl hl))
    · exact .inr (.inr (.inr hl))
  | enter hs hp hr ho hm =>
    refine .inl (Nat.le_trans (live_succ rfl fun i hi hl => ?_) (Nat.succ_le_succ h))
    rcases hl with hl | hl | hl | hl
    · exact .inl hl
    · exact .inr (.inl hl)
    · exact .inr (.inr (.inl hl))
    · simp only [lock, count, List.mem_append, List.mem_singleton, Waiter.enqueue.injEq] at hl
      exact .inr (.inr (.inr (hl.resolve_right hi)))
  | @resume i hl =>
    refine hmove rfl rfl fun j hj => ?_
    rcases hj with hj | hj | hj | hj
    · have hj : j ∈ (s.unlock.put i).queue := hj
      rcases mem_put.mp hj with hj | rfl
      · exact .inl hj
      · exact .inr (.inr (.inr (List.mem_of_mem_head? hl)))
    · have hj : (s.unlock.put i).held = some j := hj
      rw [held_put] at hj
      exact .inr (.inl hj)
    · exact .inr (.inr (.inl hj))
    · exact .inr (.inr (.inr (List.mem_of_mem_tail hj)))
  | take hh =>
    obtain ⟨-, hn, -, hr, -, hl, -, hp, -⟩ := next_same (s := s)
    refine hmove hn hp fun i hi => ?_
    rcases hi with hi | hi | hi | hi
    · rw [queue_next] at hi; exact .inl (List.mem_of_mem_tail hi)
    · rw [held_next] at hi; exact .inl (List.mem_of_mem_head? hi)
    · rw [hr] at hi; exact .inr (.inr (.inl hi))
    · rw [hl] at hi; exact .inr (.inr (.inr hi))
  | @deliver i unlinks hd hu =>
    have hheld := held_some hd
    have hlive : s.Live i := .inr (.inl hheld)
    obtain ⟨hqueue, hretry, hlock⟩ := hk.held_only hheld
    obtain ⟨hp, hn, hq, hr, hl, -⟩ := markCompleted_same { s with
      store := s.store.delete i unlinks
      delivered := s.delivered ++ [i]
      worker := .idle }
    have hlt : _ < s.live := live_lt hn (fun j hj => ?_) (hk.live_lt hlive) hlive fun hj => ?_
    · refine .inl ?_
      rw [hp]
      exact Nat.le_sub_one_of_lt (Nat.lt_of_lt_of_le hlt h)
    · rw [Live, hq, held_markCompleted, hr, hl] at hj
      exact hj.imp_right fun hj => hj.elim (fun hc => by cases hc) .inr
    · rw [Live, hq, held_markCompleted, hr, hl] at hj
      rcases hj with hj | hj | hj | hj
      · exact hqueue hj
      · cases hj
      · rw [hretry] at hj
        cases hj
      · exact hlock hj
  | @fail i writes hd hw =>
    refine hmove rfl rfl fun j hj => ?_
    rcases hj with hj | hj | hj | hj
    · exact .inl hj
    · cases hj
    · by_cases he : j = i
      · rw [he]; exact .inr (.inl (held_some hd))
      · exact .inr (.inr (.inl (by simpa [setRetry, he] using hj)))
    · exact .inr (.inr (.inr hj))
  | cut hd hw =>
    refine hmove rfl rfl fun j hj => hj.imp_right fun hj => ?_
    exact hj.elim (fun hc => by cases hc) .inr
  | worker hh hw =>
    refine hmove rfl rfl fun j hj => hj.imp_right fun hj => ?_
    refine hj.elim (fun hc => ?_) .inr
    rcases hw with rfl | rfl <;> cases hc
  | lock hl =>
    refine hmove rfl rfl fun j hj => hj.imp_right fun hj => hj.imp_right fun hj => ?_
    exact hj.imp_right fun hm => mem_of_count_le (hl j) hm
  | @requeue i hr ho =>
    refine hmove rfl rfl fun j hj => ?_
    rcases hj with hj | hj | hj | hj
    · have hj : j ∈ (s.put i).queue := hj
      rcases mem_put.mp hj with hj | rfl
      · exact .inl hj
      · exact .inr (.inr (.inl ho))
    · have hj : (s.put i).held = some j := hj
      rw [held_put] at hj
      exact .inr (.inl hj)
    · by_cases he : j = i
      · rw [he]; exact .inr (.inr (.inl ho))
      · exact .inr (.inr (.inl (by simpa [setRetry, put, he] using hj)))
    · exact .inr (.inr (.inr hj))
  | retries hf ha =>
    refine hmove rfl rfl fun j hj => hj.imp_right fun hj => hj.imp_right fun hj => ?_
    exact hj.imp_left (ha j)
  | flush hq hw =>
    refine hmove rfl rfl fun j hj => hj.imp_left fun hm => ?_
    rw [hq]
    exact List.mem_cons_of_mem _ hm
  | reset hh hf =>
    rcases (hf trivial).live hh with hc | hz
    · refine .inr ⟨hc, (hf trivial).1, fun i hi => (hf trivial).2.1 i (hi.resolve_right ?_)⟩
      exact fun hs => by cases hh.symm.trans hs
    · exact .inl (Nat.le_of_eq hz)
  | _ => exact hmove rfl rfl fun _ hj => hj

/-! ## Closed stops -/

theorem Stop.close_of_through {c : Stop} (h : c.through = true) : c.close = true := by
  cases c <;> simp_all [Stop.through, Stop.close]

theorem Stop.through_wake {c : Stop} (h : c.wake.through = true) :
    c.through = true ∨ c.close = true := by
  cases c with
  | waiting timed close woken =>
    exact .inr (by simpa [Stop.wake, Stop.through, Stop.close] using h)
  | _ => exact .inl h

/-- Whoever has come through by the last delivery was woken by it. -/
theorem markCompleted_stop (h : (s.markCompleted.stop n).through = true) :
    (s.stop n).through = true ∨ (s.stop n).close = true ∧ s.markCompleted.pending = 0 := by
  rw [markCompleted_eq] at h ⊢
  split at h
  · rename_i hz
    rw [if_pos hz]
    exact (Stop.through_wake h).imp_right fun hc => ⟨hc, rfl⟩
  · exact .inl h

theorem Sound.act (hk : Kept s) (hp : Plain s) (h : Sound muted s) (a : Act True muted s s') :
    Sound muted s' := by
  have hk' := hk.act a
  have hp' := hp.act a
  have hcount : s'.live ≤ s'.pending ∨ Quiet muted s' :=
    h.count.elim (fun hl => live_act hk hl a) fun hq => .inr (hq.act hk a)
  have hzero : s'.pending = 0 → s'.closed = true → Quiet muted s' := fun hz hc =>
    hcount.elim (fun hl => hk'.quiet (.inl hc) (by omega)) id
  have hold : ∀ n, (s.stop n).through = true → Quiet muted s' := fun n hn => (h.through n hn).act hk a
  refine ⟨hcount, fun n hn => ?_⟩
  cases a with
  | @stop m c hc =>
    by_cases hnm : n = m
    · subst hnm
      have hn : c.through = true := by simpa [setStop] using hn
      rcases hc.through hn with hz | ho
      · exact hzero hz (hc.closed (Stop.close_of_through hn))
      · exact hold n ho
    · exact hold n (by simpa [setStop, hnm] using hn)
  | take hh =>
    obtain ⟨-, -, -, -, -, -, -, -, -, hst⟩ := next_same (s := s)
    rw [hst] at hn
    exact hold n hn
  | @deliver i unlinks hd hu =>
    rcases markCompleted_stop hn with ho | ⟨hc, hz⟩
    · exact hold n ho
    · obtain ⟨-, -, -, -, -, -, -, -, hcl⟩ := markCompleted_same { s with
        store := s.store.delete i unlinks
        delivered := s.delivered ++ [i]
        worker := .idle }
      exact hzero hz (hcl.trans (hp.closed n hc))
  | reset hh hf =>
    rcases Stop.through_wake hn with ho | hc
    · exact hold n ho
    · exact hzero rfl (hp.closed n hc)
  | _ => exact hold n hn

theorem sound_init (files : CallbackPath → Option StoredFile) (n : Nat) :
    Sound muted (init files n) where
  count := .inl (Nat.zero_le _)
  through n h := by cases h

theorem Sound.acts (hk : Kept s) (hp : Plain s) (h : Sound muted s) (a : Acts True muted s s') :
    Sound muted s' := by
  induction a with
  | refl => exact h
  | tail as a ih => exact ih.act (Acts.kept as hk) (Acts.plain as hp) a

/-- File operations succeed and messages can be stored; no `stop` sets `_pending` to 0 too early. -/
def Tidy (s : CallbackManager) (e : Event) : Prop := FilesOk s e ∧ TidyReset False s e

theorem reachable_sound (h : Reachable Tidy s) : Kept s ∧ Plain s ∧ Sound False s := by
  obtain ⟨files, nextUuid, hs⟩ := h
  refine hs.invariant (P := fun s => Kept s ∧ Plain s ∧ Sound False s) (fun _ _ _ hi hok hst => ?_)
    ⟨kept_init files nextUuid, plain_init files nextUuid, sound_init files nextUuid⟩
  have ha : Acts True False _ _ :=
    step_acts hi.1 hi.2.1 hok.1 (fun _ => hok.2) False.elim hst
  exact ⟨ha.kept hi.1, ha.plain hi.2.1, hi.2.2.acts hi.1 hi.2.1 ha⟩

/-- While files can be written and deleted, a request whose `enqueue` has returned is delivered,
queued, with the worker, with a retry task or stored, and one that is delivered has no file. In runs
in which besides each `stop` that sets `_pending` to 0 finds nothing that still counts, a returned
`stop(close=True)` leaves each of them delivered or stored. -/
theorem requests_durable (s : CallbackManager) :
    (Reachable FilesOk s →
      (∀ i ∈ s.enqueued, i ∈ s.delivered ∨ i ∈ s.queue ∨ s.held = some i ∨
        (s.retry i).active = true ∨ s.store.Stored i) ∧
      ∀ i ∈ s.delivered, s.store.Gone i) ∧
    (Reachable Tidy s → (∃ n drained, s.stop n = .returned true drained) →
      ∀ i ∈ s.enqueued, i ∈ s.delivered ∨ s.store.Stored i) := by
  refine ⟨fun h => ?_, fun h ⟨n, drained, hn⟩ i hi => ?_⟩
  · have hk := (reachable_kept h).1
    exact ⟨fun i hi => (hk.kept i hi).imp_right fun hr => hr.imp_right fun hr => hr.imp_right .inr,
      hk.gone⟩
  · obtain ⟨hk, -, hs⟩ := reachable_sound h
    have hq : Quiet False s := hs.through n (by rw [hn]; rfl)
    rcases hk.kept i hi with hd | hm | hh | hst
    · exact .inl hd
    · exact .inr (hq.stored i (.inl hm))
    · exact .inr (hq.stored i (.inr hh))
    · exact .inr hst

/-! ## Runs -/

def empty : CallbackManager := init (fun _ => none) 0

def report (logId : LogId) : Event :=
  .enqueue { logId := logId, timestamp := 0, code := 200, msg := .none }

def always (_ : Nat) : Bool := true

/-- Two requests; the first is delivered, and a `stop` times out while the second is. -/
def halfRun : List Event :=
  [.start [], report 1, report 2, .workerTakes, .workerDelivers always, .stop true false always,
    .stopTimeout 0 always, .workerEnds always]

def halfway : CallbackManager := (run step empty halfRun).get rfl

/-- The manager is closed after that. -/
def closedAfter : CallbackManager :=
  (run step halfway [.stopJoined 0, .stop true true always]).get rfl

theorem halfRun_tidy : ∀ e ∈ halfRun, ∀ s, Tidy s e := by
  intro e he s
  simp only [halfRun, List.mem_cons, List.not_mem_nil, or_false, report] at he
  rcases he with rfl | rfl | rfl | rfl | rfl | rfl | rfl | rfl
  · exact ⟨(fun p hp => by cases hp), trivial⟩
  · exact ⟨rfl, trivial⟩
  · exact ⟨rfl, trivial⟩
  · exact ⟨trivial, trivial⟩
  · exact ⟨fun _ => rfl, trivial⟩
  · exact ⟨fun _ => rfl, trivial⟩
  · exact ⟨fun _ => rfl, trivial⟩
  · exact ⟨fun _ => rfl, trivial⟩

theorem requests_durable_closed :
    ∀ i ∈ closedAfter.enqueued, i ∈ closedAfter.delivered ∨ closedAfter.store.Stored i := by
  have hfirst : Steps step Tidy empty halfway := .of_run halfRun_tidy rfl
  have hjoined : Tidy halfway (.stopJoined 0) := by
    refine ⟨trivial, fun _ _ => ⟨fun i hi => ?_, fun i hi => ?_, .inr (.inr ⟨rfl, fun i => rfl⟩)⟩⟩
    · have hi : Waiter.enqueue i ∈ [Waiter.stop 0] := hi
      simp at hi
    · have hi : i ∈ ([] : List Nat) := hi
      cases hi
  have hallowed : Allowed step Tidy halfway [.stopJoined 0, .stop true true always] :=
    ⟨hjoined, fun _ _ => ⟨⟨fun _ => rfl, trivial⟩, fun _ _ => trivial⟩⟩
  have hlast : Steps step Tidy halfway closedAfter := .of_allowed hallowed rfl
  exact (requests_durable closedAfter).2 ⟨fun _ => none, 0, hfirst.trans hlast⟩ ⟨1, true, rfl⟩

/-- Two requests come while a timed-out `stop` waits for the worker, and are no longer counted when
the manager is closed. -/
def overrun : List Event :=
  [.start [], report 1, .workerTakes, .stop true false always, .stopTimeout 0 always, report 2,
    report 3, .workerEnds always, .stopJoined 0, .stop true true always, .resumeEnqueue 1,
    .workerTakes, .resumeEnqueue 2, .stopLocked 1, .workerEnds always, .stopJoined 1]

/-- The last of them stays in the queue. -/
theorem closed_over_queue : ∃ s, Reachable FilesOk s ∧ s.stop 1 = .returned true true ∧
    s.workerLock = [] ∧ s.worker = .none ∧ 2 ∈ s.enqueued ∧ s.queue = [2] ∧ 2 ∉ s.delivered ∧
    ¬s.store.Stored 2 := by
  have hok : ∀ e ∈ overrun, ∀ s, FilesOk s e := by
    intro e he s
    simp only [overrun, List.mem_cons, List.not_mem_nil, or_false, report] at he
    rcases he with rfl | rfl | rfl | rfl | rfl | rfl | rfl | rfl | rfl | rfl | rfl | rfl | rfl |
      rfl | rfl | rfl
    · exact fun p hp => by cases hp
    all_goals first | exact fun _ => rfl | exact trivial | exact rfl
  refine ⟨(run step empty overrun).get rfl, ⟨fun _ => none, 0, .of_run hok rfl⟩, rfl, rfl, rfl, ?_,
    rfl, ?_, ?_⟩
  · show 2 ∈ [0, 1, 2]
    decide
  · show 2 ∉ []
    simp
  · rintro ⟨p, r, hp, -⟩
    cases hp

end CallbackManager
end Pyxxl
