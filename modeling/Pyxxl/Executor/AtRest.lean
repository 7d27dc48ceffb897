import Pyxxl.Executor.Effort

/-!
# Pyxxl.Executor.AtRest

An executor that gets no new calls comes to rest, and nothing is left under way then.

* `Under s`: what holds in every run; `step_under`.
* `Under.unlocked`: while anybody stands in a line at a lock, somebody can go on, unless a `stop` holds
  the worker lock. There is no deadlock between the job locks and the worker lock.
* `comes_to_rest`: finitely many events of its own, and then all tasks, cleanup tasks and calls
  have ended.
* `drains`: where no callback is lost, every accepted trigger has its one callback by then.
-/

namespace Pyxxl
namespace Executor

open Transition

variable {strict : Nat → Prop} {s s' : Executor} {e : Event} {t n : Nat} {j : JobId} {x : Trigger}

/-! ## Calls -/

theorem runJob_others (hb : Books s) (d : RunData) {m : Nat} (hm : m ≠ s.nextCall) :
    (s.runJob d).call m = s.call m ∧ (s.runJob d).nextCall = s.nextCall + 1 := by
  simp only [runJob]
  split
  · split
    · obtain ⟨h1, h2⟩ := runJobLocked_calls (n := s.nextCall)
        (s := s.openCall.lockJob d.jobId (.call s.nextCall))
        (hb.congr (SameBooks.openCall.trans (.lockJob _ _))) hm d
      exact ⟨h1.trans (by simp [lockJob, openCall, hm]), h2⟩
    · exact ⟨by simp [setCall, lockJob, openCall, hm], rfl⟩
  · exact ⟨by simp [setCall, openCall, hm], rfl⟩

theorem cancelJob_others (s : Executor) (j : JobId) (includeQueue : Bool) (reason : PyStr) {m : Nat}
    (hm : m ≠ s.nextCall) : (s.cancelJob j includeQueue reason).call m = s.call m ∧
      (s.cancelJob j includeQueue reason).nextCall = s.nextCall + 1 := by
  simp only [cancelJob]
  split
  · obtain ⟨h1, h2⟩ := cancelJobLocked_calls (n := s.nextCall)
      (s.openCall.lockJob j (.call s.nextCall)) hm j includeQueue reason
    exact ⟨h1.trans (by simp [lockJob, openCall, hm]), h2⟩
  · exact ⟨by simp [setCall, lockJob, openCall, hm], rfl⟩

theorem called_runJob (s : Executor) (d : RunData) : (s.runJob d).call s.nextCall ≠ .begun := by
  simp only [runJob]
  split
  · split
    · exact called_runJobLocked _ _ _
    · simp [setCall]
  · simp [setCall]

theorem called_cancelJob (s : Executor) (j : JobId) (includeQueue : Bool) (reason : PyStr) :
    (s.cancelJob j includeQueue reason).call s.nextCall ≠ .begun := by
  simp only [cancelJob]
  split
  · exact (call_cancelPush ..).1
  · simp [setCall]

theorem Placed.opened {m : Nat} (h : Placed s)
    (hm : ∀ k, k ≠ s.nextCall → s'.call k = s.call k ∧ s'.nextCall = s.nextCall + 1)
    (hn : s'.call s.nextCall ≠ .begun) : s'.call m = .begun ↔ s'.nextCall ≤ m := by
  have hnext := (hm (s.nextCall + 1) (by omega)).2
  by_cases he : m = s.nextCall
  · subst he
    rw [hnext]
    exact ⟨fun hb => absurd hb hn, fun hle => by omega⟩
  · rw [(hm m he).1, hnext, h m]
    omega

/-- A call that was made has a place from then on. -/
theorem step_places (h : Placed s) (hi : Inv strict s) (hi' : Inv strict s')
    (hs : step s e = some s') : Placed s' := by
  intro m
  have hsame : s'.call = s.call → s'.nextCall = s.nextCall → (s'.call m = .begun ↔ s'.nextCall ≤ m) :=
    fun hc hn => by rw [hc, hn]; exact h m
  cases he : e.task with
  | some t =>
    obtain ⟨hc, hn⟩ := (step_acts hs he).calls
    exact hsame hc hn
  | none =>
    cases e with
    | runJob d =>
      cases hs
      exact h.opened (fun k hk => runJob_others hi.books d hk) (called_runJob s d)
    | cancelJob j includeQueue reason =>
      cases hs
      exact h.opened (fun k hk => cancelJob_others s j includeQueue reason hk)
        (called_cancelJob s j includeQueue reason)
    | resumeCall n =>
      simp only [step] at hs
      split at hs
      · rename_i hn
        have hcalled := (call_resumeCall hi.books hi'.books hs).1
        have hnext := (resumeCall_calls hi.books (m := n + 1) (by omega) hs).2
        by_cases hm : m = n
        · subst hm
          rw [hnext]
          exact ⟨fun hb => absurd hb hcalled, fun hle => by omega⟩
        · rw [(resumeCall_calls hi.books hm hs).1, hnext]
          exact h m
      · cases hs
    | setHandler handler => cases hs; exact hsame rfl rfl
    | stopCalled close => cases hs; exact hsame rfl rfl
    | stopLock n => cases hs; exact hsame rfl rfl
    | stopUnlock n =>
      simp only [step] at hs
      split at hs
      · cases hs; exact hsame rfl rfl
      · cases hs
    | tick now => cases hs; exact hsame rfl rfl
    | _ => cases he

/-! ## Nobody waits in vain -/

/-- What holds in every run, whatever fails and whenever a `stop` is called. -/
structure Under (s : Executor) : Prop where
  inv : Inv (fun _ => False) s
  line : InLine s
  calls : Placed s

theorem under_init (handler : String → Bool) (m : Int) : Under (init handler m) where
  inv := inv_init handler m
  line := inLine_init handler m
  calls n := by simp [init]

theorem step_under (h : Under s) (hs : step s e = some s') : Under s' := by
  have hi' := (step_good h.inv (fun _ hf => hf.elim) hs).1
  exact ⟨hi', step_inLine h.line h.inv h.calls hs, step_places h.calls h.inv hi' hs⟩

theorem under_reachable {ok : Executor → Event → Prop} (h : Reachable ok s) : Under s := by
  obtain ⟨handler, m, hr⟩ := h
  exact hr.invariant (P := Under) (fun _ _ _ hi _ hs => step_under hi hs) (under_init handler m)

theorem Placed.lt (h : Placed s) (hc : s.call n ≠ .begun) : n < s.nextCall := by
  by_contra hle
  exact hc ((h n).mpr (by omega))

/-- Whoever is granted the worker lock goes on. -/
theorem Under.worker_moves (h : Under s) {p : Pid} (hp : s.workerLock.head? = some p)
    (hs : p.isStop = false) : ∃ e, e.own = true ∧ step s e ≠ none := by
  have hat : s.atWorker p = true := by
    have hmem : 0 < s.workerLock.count p := List.count_pos_iff.mpr (List.mem_of_mem_head? hp)
    rw [h.line.worker p hs] at hmem
    by_contra hne
    simp [hne] at hmem
  cases p with
  | call n =>
    refine ⟨.resumeCall n, rfl, ?_⟩
    simp only [atWorker] at hat
    have hlt := h.calls.lt (n := n) fun hb => by rw [hb] at hat; cases hat
    simp only [step, if_pos hlt, resumeCall]
    cases hc : s.call n with
    | coverPush d x r rest reason => simp [hp]
    | cancelPush x r rest reason u => simp [hp]
    | _ => rw [hc] at hat; cases hat
  | task t =>
    refine ⟨.resumeTask t .quiet, rfl, ?_⟩
    simp only [atWorker] at hat
    simp only [step, resumeTask]
    cases hc : (s.obj t).task with
    | pushing inTry r => cases inTry <;> simp [hp]
    | _ => rw [hc] at hat; cases hat
  | cleanup t =>
    refine ⟨.resumeCleanup t .quiet, rfl, ?_⟩
    simp only [atWorker] at hat
    simp only [step, resumeCleanup]
    cases hc : (s.obj t).cleanup with
    | pushing r => simp [hp]
    | _ => rw [hc] at hat; cases hat
  | stop n => cases hs

/-- Whoever is granted the lock of a job goes on, when nobody holds the worker lock. -/
theorem Under.job_moves (h : Under s) (hw : s.workerLock = []) {p : Pid}
    (hp : (s.jobLocks j).head? = some p) : ∃ e, e.own = true ∧ step s e ≠ none := by
  have hat : s.atJob p = some j := by
    have hmem : 0 < (s.jobLocks j).count p := List.count_pos_iff.mpr (List.mem_of_mem_head? hp)
    rw [h.line.job j p] at hmem
    by_contra hne
    simp [hne] at hmem
  have hfree : p.isStop = false → s.atWorker p = false := fun hs => by
    have hcount := h.line.worker p hs
    rw [hw, List.count_nil] at hcount
    by_contra hne
    simp [hne] at hcount
  cases p with
  | call n =>
    refine ⟨.resumeCall n, rfl, ?_⟩
    have hnot := hfree rfl
    simp only [atJob, atWorker] at hat hnot
    have hlt := h.calls.lt (n := n) fun hb => by rw [hb] at hat; cases hat
    simp only [step, if_pos hlt, resumeCall]
    cases hc : s.call n with
    | runLock d =>
      rw [hc] at hat
      cases hat
      simp [hp]
    | cancelLock k includeQueue reason =>
      rw [hc] at hat
      cases hat
      simp [hp]
    | coverPush d x r rest reason => rw [hc] at hnot; cases hnot
    | _ => rw [hc] at hat; cases hat
  | task t =>
    refine ⟨.resumeTask t .quiet, rfl, ?_⟩
    simp only [atJob] at hat
    split at hat
    · rename_i hc
      cases hat
      simp only [step, resumeTask]
      cases hk : (s.obj t).task with
      | locking exc => simp [hp]
      | _ => rw [hk] at hc; cases hc
    · cases hat
  | cleanup t =>
    refine ⟨.resumeCleanup t .quiet, rfl, ?_⟩
    simp only [atJob] at hat
    split at hat
    · rename_i hc
      cases hat
      simp only [step, resumeCleanup]
      cases hk : (s.obj t).cleanup with
      | locking => simp [hp]
      | _ => rw [hk] at hc; cases hc
    · cases hat
  | stop n => cases hat

/-- All that was ever under way has ended. -/
structure Ended (s : Executor) : Prop where
  tasks : ∀ t, t < s.nextTask → (∃ exc, (s.obj t).task = .done exc) ∧ (s.obj t).cleanup = .ended
  calls : ∀ n, n < s.nextCall →
    (∃ res, s.call n = .runDone res) ∨ ∃ exc, s.call n = .cancelDone exc
  locks : ∀ j, s.jobLocks j = []

/-- At rest nobody stands in a line, but behind a `stop`. -/
theorem Under.unlocked (h : Under s) (hr : AtRest step Event.own s)
    (hn : ∀ n, s.workerLock.head? ≠ some (.stop n)) :
    s.workerLock = [] ∧ ∀ j, s.jobLocks j = [] := by
  have hw : s.workerLock = [] := by
    by_contra hne
    obtain ⟨p, hp⟩ := Option.ne_none_iff_exists'.mp fun hnone => hne (List.head?_eq_none_iff.mp hnone)
    obtain ⟨e, he, hmoves⟩ := h.worker_moves hp (by
      cases p with
      | stop n => exact absurd hp (hn n)
      | _ => rfl)
    exact hmoves (hr e he)
  refine ⟨hw, fun j => ?_⟩
  by_contra hne
  obtain ⟨p, hp⟩ := Option.ne_none_iff_exists'.mp fun hnone => hne (List.head?_eq_none_iff.mp hnone)
  obtain ⟨e, he, hmoves⟩ := h.job_moves hw hp
  exact hmoves (hr e he)

theorem Under.ended (h : Under s) (hr : AtRest step Event.own s)
    (hn : ∀ n, s.workerLock.head? ≠ some (.stop n)) : Ended s := by
  obtain ⟨hw, hj⟩ := h.unlocked hr hn
  have hworker : ∀ p, p.isStop = false → s.atWorker p = false := fun p hp => by
    have hcount := h.line.worker p hp
    rw [hw, List.count_nil] at hcount
    by_contra hne
    simp [hne] at hcount
  have hjob : ∀ p, s.atJob p = none := fun p => by
    cases hat : s.atJob p with
    | none => rfl
    | some j =>
      have hcount := h.line.job j p
      rw [hj, List.count_nil, hat, if_pos rfl] at hcount
      cases hcount
  have htask : ∀ t, ∃ exc, (s.obj t).task = .done exc := fun t => by
    cases hc : (s.obj t).task with
    | scheduled mustCancel =>
      cases mustCancel with
      | false =>
        have := hr (.start t .quiet) rfl
        simp [step, hc] at this
      | true =>
        have := hr (.abort t) rfl
        simp [step, hc] at this
    | inHandler ts =>
      have := hr (.handlerEnds t (.ok .none) .quiet) rfl
      simp [step, hc] at this
    | pushing inTry r =>
      have := hworker (.task t) rfl
      simp [atWorker, hc, Coro.atWorker] at this
    | thrownPushing inTry ts =>
      have := hr (.resumeTask t .quiet) rfl
      cases inTry <;> simp [step, resumeTask, hc] at this
    | locking exc =>
      have := hjob (.task t)
      simp [atJob, hc, Coro.atJob] at this
    | thrownLocking =>
      have := hr (.resumeTask t .quiet) rfl
      simp [step, resumeTask, hc] at this
    | done exc => exact ⟨exc, rfl⟩
  refine ⟨fun t ht => ⟨htask t, ?_⟩, fun n hlt => ?_, hj⟩
  · obtain ⟨exc, hd⟩ := htask t
    cases hc : (s.obj t).cleanup with
    | idle =>
      have hok := h.inv.tasks t ht
      simp only [TaskOk, hd, hc] at hok
    | doneCallback =>
      have := hr (.resumeCleanup t .quiet) rfl
      simp [step, resumeCleanup, hd, hc] at this
    | scheduled =>
      have := hr (.resumeCleanup t .quiet) rfl
      simp [step, resumeCleanup, hc] at this
    | pushing r =>
      have := hworker (.cleanup t) rfl
      simp [atWorker, hc, Cleanup.atWorker] at this
    | locking =>
      have := hjob (.cleanup t)
      simp [atJob, hc, Cleanup.atJob] at this
    | ended => rfl
  · have hplace := hjob (.call n)
    have hpush := hworker (.call n) rfl
    simp only [atJob, atWorker] at hplace hpush
    cases hc : s.call n with
    | begun =>
      have := (h.calls n).mp hc
      omega
    | runDone res => exact .inl ⟨res, rfl⟩
    | cancelDone exc => exact .inr ⟨exc, rfl⟩
    | cancelAwait u =>
      have hrest := hr (.resumeCall n) rfl
      obtain ⟨exc, hd⟩ := htask u
      simp only [step, if_pos hlt, resumeCall, hc, hd] at hrest
      split at hrest
      · cases hrest
      · cases hrest
      · rename_i hnot; exact absurd rfl (hnot exc)
    | cancelPush x r rest reason u => rw [hc] at hpush; cases hpush
    | _ => rw [hc] at hplace; cases hplace

/-- Whatever has ended stays so. -/
theorem Ended.atRest (h : Ended s) (hf : ∀ t, s.nextTask ≤ t → s.obj t = noTask) :
    AtRest step Event.own s := by
  have hobj : ∀ t, (∃ exc, (s.obj t).task = .done exc) ∧
      ((s.obj t).cleanup = .ended ∨ (s.obj t).cleanup = .idle) := by
    intro t
    by_cases ht : t < s.nextTask
    · exact ⟨(h.tasks t ht).1, .inl (h.tasks t ht).2⟩
    · rw [hf t (by omega)]
      exact ⟨⟨_, rfl⟩, .inr rfl⟩
  intro e he
  cases e with
  | resumeCall n =>
    simp only [step]
    split
    · rename_i hlt
      rcases h.calls n hlt with ⟨res, hc⟩ | ⟨exc, hc⟩
      · simp only [resumeCall, hc]
      · simp only [resumeCall, hc]
    · rfl
  | start t aux => obtain ⟨exc, hd⟩ := (hobj t).1; simp only [step, hd]
  | abort t => obtain ⟨exc, hd⟩ := (hobj t).1; simp only [step, hd]
  | handlerEnds t res aux => obtain ⟨exc, hd⟩ := (hobj t).1; simp only [step, hd]
  | resumeTask t aux => obtain ⟨exc, hd⟩ := (hobj t).1; simp only [step, resumeTask, hd]
  | resumeCleanup t aux =>
    rcases (hobj t).2 with hc | hc
    · simp only [step, resumeCleanup, hc]
    · simp only [step, resumeCleanup, hc]
  | _ => cases he

theorem descends : Descends step Event.noCall Event.own Under effort where
  kept _ _ _ h _ hs := step_under h hs
  falls _ _ _ h hc hs :=
    step_effort h.inv (step_good h.inv (fun _ hf => hf.elim) hs).1 hs hc

theorem Event.own_noCall : ∀ e : Event, e.own = true → e.noCall := by
  intro e he
  cases e with
  | runJob d => cases he
  | cancelJob j includeQueue reason => cases he
  | _ => exact trivial

/-- In every run, whatever fails and however the coroutines and the calls of `stop` interleave: after
its last new call the executor does at most `effort` more stretches of work; it can always go on
until it rests; and when it rests, every task, cleanup task and call has ended, or a `stop` holds
the worker lock, which it can give back. -/
theorem comes_to_rest (h : Reachable Any s) :
    (∀ es s', (∀ e ∈ es, e.noCall) → run step s es = some s' → es.countP Event.own ≤ s.effort) ∧
    (∃ es s', (∀ e ∈ es, e.own = true) ∧ run step s es = some s' ∧ AtRest step Event.own s') ∧
    (AtRest step Event.own s → Ended s ∨ ∃ n s', step s (.stopUnlock n) = some s') := by
  have hu := under_reachable h
  refine ⟨fun es s' hes hr => ?_, descends.rests Event.own_noCall _ hu (Nat.le_refl _), fun hr => ?_⟩
  · have := (descends.bounded hu hes hr).2
    omega
  · by_cases hn : ∃ n, s.workerLock.head? = some (.stop n)
    · obtain ⟨n, hn⟩ := hn
      exact .inr ⟨n, s.unlockWorker, by simp [step, hn]⟩
    · exact .inl (hu.ended hr fun n hn' => hn ⟨n, hn'⟩)

/-- A `stop` holds the worker lock, a COVER_EARLY waits for it with the job lock in its hands, and
behind it the cancelled task, another `run_job` and a kill wait for one of the two. -/
def crowded : List Event :=
  [.runJob (serialJob 1), .start 0 .quiet, .runJob (serialJob 2), .stopLock 0, .runJob (coverJob 3),
    .runJob (serialJob 4), .cancelJob 1 true [], .handlerEnds 0 (.error .cancelled) .quiet,
    .stopUnlock 0]

def crowdedState : Executor := (after crowded).get rfl

theorem comes_to_rest_crowded : ∃ es s', (∀ e ∈ es, e.own = true) ∧
    run step crowdedState es = some s' ∧ AtRest step Event.own s' :=
  (comes_to_rest (reachable_after crowded (.of_forall (fun _ _ _ => trivial) _) rfl)).2.1

/-! ## Where no callback is lost -/

/-- An event of the executor's own in which nothing fails. -/
def Event.plain : Event → Bool
  | .resumeCall _ => true
  | .start _ aux => decide (aux = .quiet)
  | .abort _ => true
  | .handlerEnds _ (.ok _) aux => decide (aux = .quiet)
  | .resumeTask _ aux => decide (aux = .quiet)
  | .resumeCleanup _ aux => decide (aux = .quiet)
  | _ => false

theorem Event.plain_own : ∀ e : Event, e.plain = true → e.own = true := by
  intro e he
  cases e with
  | handlerEnds t res aux => rfl
  | runJob d => cases he
  | cancelJob j includeQueue reason => cases he
  | setHandler handler => cases he
  | stopCalled close => cases he
  | stopLock n => cases he
  | stopUnlock n => cases he
  | tick now => cases he
  | _ => rfl

theorem Event.plain_ordinary : ∀ e : Event, e.plain = true → Ordinary s e := by
  intro e he
  cases e with
  | resumeCall n => exact ⟨⟨trivial, trivial, trivial⟩, trivial⟩
  | start t aux => exact ⟨⟨of_decide_eq_true (p := aux = .quiet) he, trivial, trivial⟩, trivial⟩
  | abort t => exact ⟨⟨trivial, trivial, trivial⟩, trivial⟩
  | handlerEnds t res aux =>
    cases res with
    | ok v => exact ⟨⟨of_decide_eq_true (p := aux = .quiet) he, trivial, trivial⟩, trivial⟩
    | error exc => cases he
  | resumeTask t aux => exact ⟨⟨of_decide_eq_true (p := aux = .quiet) he, trivial, trivial⟩, trivial⟩
  | resumeCleanup t aux => exact ⟨⟨of_decide_eq_true (p := aux = .quiet) he, trivial, trivial⟩, trivial⟩
  | _ => cases he

theorem descends_plain : Descends step Event.noCall Event.plain Under effort where
  kept := descends.kept
  falls s e s' h hc hs := by
    have hle := descends.falls s e s' h hc hs
    cases hp : e.plain with
    | false => rw [Bool.toNat_false]; omega
    | true =>
      rw [e.plain_own hp] at hle
      exact hle

/-- What can go on, can go on without anything failing. -/
theorem atRest_plain (hr : AtRest step Event.plain s) : AtRest step Event.own s := by
  intro e he
  cases e with
  | resumeCall n => exact hr _ rfl
  | abort t => exact hr _ rfl
  | start t aux =>
    have hrest := hr (.start t .quiet) rfl
    simp only [step] at hrest ⊢
    split
    · rename_i hc; simp [hc] at hrest
    · rfl
  | handlerEnds t res aux =>
    have hrest := hr (.handlerEnds t (.ok .none) .quiet) rfl
    simp only [step] at hrest ⊢
    split
    · rename_i hc; simp [hc] at hrest
    · rfl
  | resumeTask t aux =>
    have hrest := hr (.resumeTask t .quiet) rfl
    simp only [step, resumeTask] at hrest ⊢
    cases hc : (s.obj t).task with
    | pushing inTry r =>
      simp only [hc] at hrest ⊢
      split
      · rename_i hp; cases inTry <;> simp [hp] at hrest
      · rfl
    | thrownPushing inTry ts => cases inTry <;> simp [hc] at hrest
    | locking exc => simpa [hc] using hrest
    | thrownLocking => simp [hc] at hrest
    | _ => rfl
  | resumeCleanup t aux =>
    have hrest := hr (.resumeCleanup t .quiet) rfl
    simp only [step, resumeCleanup] at hrest ⊢
    cases hc : (s.obj t).cleanup with
    | doneCallback => simpa [hc] using hrest
    | scheduled => simp [hc] at hrest
    | pushing r =>
      simp only [hc] at hrest ⊢
      split
      · rename_i hp; simp [hp] at hrest
      · rfl
    | locking => simpa [hc] using hrest
    | _ => rfl
  | _ => cases he

theorem CalmInv.checks (h : CalmInv s) (hc : e.noCall) : e.checks s = none := by
  cases e with
  | runJob d => exact hc.elim
  | resumeCall n =>
    have hcall := h.free.call n
    simp only [Event.checks]
    split
    · rename_i hk
      rw [hk] at hcall
      cases hcall
    · rfl
  | _ => rfl

theorem run_accepted : ∀ {es : List Event} {s s' : Executor}, CalmInv s → (∀ e ∈ es, e.noCall) →
    Allowed step Ordinary s es → run step s es = some s' →
      CalmInv s' ∧ s'.accepted = s.accepted := by
  intro es
  induction es with
  | nil => intro s s' h _ _ hr; cases hr; exact ⟨h, rfl⟩
  | cons e es ih =>
    intro s s' h hes hok hr
    simp only [run] at hr
    split at hr
    · rename_i s₁ h₁
      obtain ⟨he, hrest⟩ := (allowed_cons h₁).mp hok
      obtain ⟨hi', ha⟩ := ih (calm_step h he.1 h₁)
        (fun e' he' => hes e' (List.mem_cons_of_mem _ he')) hrest hr
      exact ⟨hi', ha.trans (step_accepted_eq (h.checks (hes e (List.mem_cons_self ..))) h₁)⟩
    · cases hr

/-- Once everything has ended, no job has a current task or anything pending. -/
theorem CalmInv.line_of_ended (h : CalmInv s) (he : Ended s) (j : JobId) : s.line j = [] := by
  have hnone : s.tasks j = none := by
    cases ht : s.tasks j with
    | none => rfl
    | some t =>
      obtain ⟨hlt, -, hnf⟩ := (h.inv.books.job j).current t ht
      obtain ⟨⟨exc, hd⟩, hc⟩ := he.tasks t hlt
      have hok := h.inv.tasks t hlt
      simp only [TaskOk, hd, hc] at hok
      exact absurd (hok trivial) hnf
  exact (line_nil s j).mpr ⟨hnone, (h.inv.books.job j).lone hnone⟩

/-- At rest every accepted trigger has its one callback, and nothing else has one. -/
theorem reported_at_rest (h : Reachable Ordinary s) (hrest : AtRest step Event.own s) :
    (∀ j, s.line j = []) ∧ (s.callbacks.map Prod.fst).Perm s.accepted := by
  have hi := calm_inv (fun _ _ he => he.1) h
  have hended : Ended s := (under_reachable h).ended hrest fun n => by
    rw [hi.free.worker]
    simp
  have hline := hi.line_of_ended hended
  refine ⟨hline, List.perm_iff_count.mpr fun x => ?_⟩
  have hbal : s.held x = s.accepted.count x := by
    obtain ⟨handler, m, hs⟩ := h
    exact calm_balance ⟨handler, m, hs.mono fun _ _ he => he.calmFor⟩
  have hheld := hi.inv.held_line (x := x) (by rw [hline]; exact List.not_mem_nil)
  rw [hi.drained, hi.reported, callbackCount] at hheld
  omega

/-- Where nobody calls `stop`, no handler is taken away and neither loggers nor observers fail: from
every state the executor can go on to its rest, and however it gets there, by then no job is
occupied and every accepted trigger has exactly one callback. -/
theorem drains (h : Reachable Ordinary s) :
    (∃ es s', (∀ e ∈ es, e.own = true) ∧ Allowed step Ordinary s es ∧ run step s es = some s' ∧
      AtRest step Event.own s') ∧
    ∀ es s', (∀ e ∈ es, e.noCall) → Allowed step Ordinary s es → run step s es = some s' →
      AtRest step Event.own s' → s'.accepted = s.accepted ∧
        (∀ j, s'.isRunningOrHasQueue j = false) ∧ ∀ x ∈ s.accepted, s'.callbackCount x = 1 := by
  constructor
  · obtain ⟨es, s', hes, hr, hrest⟩ := descends_plain.rests
      (fun e he => e.own_noCall (e.plain_own he)) _ (under_reachable h) (Nat.le_refl _)
    exact ⟨es, s', fun e he => e.plain_own (hes e he),
      .of_forall (fun e he _ => e.plain_ordinary (hes e he)) s, hr, atRest_plain hrest⟩
  · intro es s' hes hok hr hrest
    obtain ⟨hi', hacc⟩ := run_accepted (calm_inv (fun _ _ he => he.1) h) hes hok hr
    have hreach : Reachable Ordinary s' := by
      obtain ⟨handler, m, hs⟩ := h
      exact ⟨handler, m, hs.trans (.of_allowed hok hr)⟩
    obtain ⟨hline, hperm⟩ := reported_at_rest hreach hrest
    refine ⟨hacc, fun j => ?_, fun x hx => ?_⟩
    · obtain ⟨ht, hp⟩ := (line_nil s' j).mp (hline j)
      simp only [pending, List.append_eq_nil_iff, Option.toList_eq_nil_iff] at hp
      simp [isRunningOrHasQueue, ht, hp.1, hp.2]
    · rw [callbackCount, hperm.count_eq]
      exact List.count_eq_one_of_mem (accepted_nodup hi'.inv.books) (by rw [hacc]; exact hx)

theorem drains_mixed : ∃ es s', run step mixedState es = some s' ∧
    ∀ x ∈ mixedState.accepted, s'.callbackCount x = 1 := by
  obtain ⟨⟨es, s', hown, hok, hr, hrest⟩, hall⟩ :=
    drains (reachable_after mixed (.of_forall mixed_ordinary _) rfl)
  exact ⟨es, s', hr, (hall es s' (fun e he => e.own_noCall (hown e he)) hok hr hrest).2.2⟩

end Executor
end Pyxxl
