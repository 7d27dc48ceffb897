import Pyxxl.Executor.Cover

/-!
# Pyxxl.Executor.Busy

No work is stranded: whatever is pending waits for a live task, which `_finish` will find to be
the current one, and `is_running_or_has_queue` tells.
-/

namespace Pyxxl
namespace Executor

open Transition

variable {s s' : Executor} {x : Trigger}

/-- The coroutine has not begun. -/
def NotStarted (o : XXLTask) : Prop := ∃ mustCancel, o.task = .scheduled mustCancel

/-- The coroutine has begun and not ended. -/
def Runs (o : XXLTask) : Prop := o.started = true ∧ ∀ exc, o.task ≠ .done exc

/-- The coroutine was cancelled before it began, and its cleanup has still to run. -/
def AwaitsCleanup (o : XXLTask) : Prop :=
  o.started = false ∧ o.task = .done (some .cancelled) ∧ o.cleanup ≠ .idle ∧ o.cleanup ≠ .ended

def Live (o : XXLTask) : Prop := NotStarted o ∨ Runs o ∨ AwaitsCleanup o

theorem TaskOk.live {fin : Prop} {o : XXLTask} (h : TaskOk True o fin) (hf : ¬fin) : Live o := by
  cases hc : o.task with
  | scheduled b => exact .inl ⟨b, hc⟩
  | inHandler ts =>
    simp only [TaskOk, hc] at h
    exact .inr (.inl ⟨h.1, by simp [hc]⟩)
  | pushing inTry r =>
    simp only [TaskOk, hc] at h
    exact .inr (.inl ⟨h.1, by simp [hc]⟩)
  | thrownPushing inTry ts =>
    simp only [TaskOk, hc] at h
    exact .inr (.inl ⟨h.1.1, by simp [hc]⟩)
  | locking exc =>
    simp only [TaskOk, hc] at h
    exact .inr (.inl ⟨h.1, by simp [hc]⟩)
  | thrownLocking =>
    simp only [TaskOk, hc] at h
    exact .inr (.inl ⟨h.1.1, by simp [hc]⟩)
  | done exc =>
    cases hk : o.cleanup with
    | idle => simp only [TaskOk, hc, hk] at h
    | doneCallback =>
      simp only [TaskOk, hc, hk] at h
      have hst : o.started = false := by
        by_contra hst
        exact hf (h.2.2 trivial (by simpa using hst))
      exact .inr (.inr ⟨hst, by rw [hc, (h.1 hst).1], by rw [hk]; simp, by rw [hk]; simp⟩)
    | ended => simp only [TaskOk, hc, hk] at h; exact absurd (h trivial) hf
    | scheduled =>
      simp only [TaskOk, hc, hk] at h
      exact .inr (.inr ⟨h.1, by rw [hc, h.2.2.2], by rw [hk]; simp, by rw [hk]; simp⟩)
    | pushing r =>
      simp only [TaskOk, hc, hk] at h
      exact .inr (.inr ⟨h.1, by rw [hc, h.2.2.2], by rw [hk]; simp, by rw [hk]; simp⟩)
    | locking =>
      simp only [TaskOk, hc, hk] at h
      exact .inr (.inr ⟨h.1, by rw [hc, h.2.2.2], by rw [hk]; simp, by rw [hk]; simp⟩)

/-- What is pending waits for a task of its job that is not finished and not stuck. -/
theorem Inv.pending_live (h : Inv (fun _ => True) s) {j : JobId} (hp : s.pending j ≠ []) :
    ∃ t, s.tasks j = some t ∧ t ∉ s.finished ∧ Live (s.obj t) := by
  cases ht : s.tasks j with
  | none => exact absurd ((h.books.job j).lone ht) hp
  | some t =>
    obtain ⟨hlt, -, hnf⟩ := (h.books.job j).current t ht
    exact ⟨t, rfl, hnf, (h.tasks t hlt).live hnf⟩

theorem isRunning_of_line (hx : x ∈ s.line x.jobId) : s.isRunningOrHasQueue x.jobId = true := by
  simp only [line, current, pending, List.mem_append, Option.mem_toList] at hx
  simp only [isRunningOrHasQueue, Bool.or_eq_true]
  rcases hx with hx | hx | hx
  · cases ht : s.tasks x.jobId with
    | none => simp [ht] at hx
    | some t => exact .inl (.inl rfl)
  · exact .inr (by rw [hx]; rfl)
  · refine .inl (.inr ?_)
    cases hq : s.queue x.jobId with
    | nil => simp [hq] at hx
    | cons y ys => rfl

/-! ## The condition on the steps -/

/-- Nothing in the event keeps `_finish` from any task. -/
def Tidy (s : Executor) (e : Event) : Prop := ∀ t, Careful s e t

/-- Nor the callback from `x`, and the manager stays open. -/
structure Tended (x : Trigger) (s : Executor) (e : Event) : Prop where
  tidy : Tidy s e
  opened : KeepsOpen s e
  reports : ∀ t, e.task = some t → (s.obj t).data = x → e.reports s t

theorem tidy_inv (h : Reachable Tidy s) : Inv (fun _ => True) s := by
  obtain ⟨handler, m, hr⟩ := h
  exact hr.invariant (P := Inv (fun _ => True))
    (fun _ _ _ hi he hs => (step_good hi (fun t _ => he t) hs).1) (inv_init handler m)

structure TendedInv (x : Trigger) (s : Executor) : Prop where
  inv : Inv (fun _ => True) s
  codes : Codes s
  balance : s.held x = s.accepted.count x

theorem TendedInv.step {e : Event} (h : TendedInv x s) (he : Tended x s e)
    (hs : step s e = some s') : TendedInv x s' where
  inv := (step_good h.inv (fun t _ => he.tidy t) hs).1
  codes := h.codes.step h.inv he.opened hs
  balance := by
    have heven := step_even (x := x) h.inv hs he.reports
    have hbal := h.balance
    unfold Even at heven
    omega

theorem tended_inv (h : Reachable (Tended x) s) : TendedInv x s := by
  obtain ⟨handler, m, hr⟩ := h
  exact hr.invariant (P := TendedInv x) (fun _ _ _ hi he hs => hi.step he hs)
    ⟨inv_init handler m, codes_init handler m, rfl⟩

/-- In a run without `stop` nothing more is asked than that `x` does not escape. -/
theorem tended_of_calm (h : Reachable (CalmFor x) s) : Reachable (Tended x) s := by
  obtain ⟨handler, m, hr⟩ := h
  refine ⟨handler, m, (hr.invariant (P := fun s => CalmInv s ∧
    Steps Executor.step (Tended x) (init handler m) s) (fun s e s' hi he hs => ?_)
    ⟨⟨inv_init handler m, free_init handler m⟩, .refl⟩).2⟩
  refine ⟨calm_step hi.1 he.1 hs, .tail hi.2 ⟨?_, fun hc => ?_, ?_⟩ hs⟩
  · exact he.1.careful hi.1.inv hi.1.free hs
  · rw [hc] at he
    exact he.1.noStop
  · exact fun t ht hx => he.reports hi.1.inv hi.1.free hs ht hx

/-- In a run that keeps `_finish` from no task: whatever a job has pending waits for a live task;
`_finish` is only run for the current task of a job; and `_handle_cover_early` finds a current
task. In a run that keeps its callback from `x` neither, `is_running_or_has_queue` holds as long as
`x` has none, unless `x` is in the hands of a call that is about to report it. -/
theorem no_stranded_work (s : Executor) :
    (Reachable Tidy s →
      (∀ j, s.queue j ≠ [] ∨ (s.coverReplacements j).isSome = true →
        ∃ t, s.tasks j = some t ∧ t ∉ s.finished ∧ Live (s.obj t)) ∧
      (∀ e s', step s e = some s' → s'.finished = s.finished ∨
        ∃ t, s'.finished = s.finished ++ [t] ∧ s.tasks (s.obj t).data.jobId = some t) ∧
      (∀ (e : Event) n d, e.checks s = some (n, d) → s.covers d → s.idle d.jobId = false →
        s.tasks d.jobId ≠ none)) ∧
    (∀ x, Reachable (Tended x) s → x ∈ s.accepted → s.callbackCount x = 0 →
      s.drained x = 0 → s.isRunningOrHasQueue x.jobId = true) := by
  refine ⟨fun h => ?_, fun x h hx h0 hd => ?_⟩
  · have hi := tidy_inv h
    refine ⟨fun j hj => hi.pending_live ?_, fun e s' hs => ?_, fun e n d _ _ hidle => ?_⟩
    · rcases hj with hq | hc
      · simp [pending, hq]
      · cases hcov : s.coverReplacements j with
        | none => simp [hcov] at hc
        | some y => simp [pending, hcov]
    · have hw := reachable_inv h
      rcases step_finished hw (step_good hw (fun _ hf => hf.elim) hs).1 hs with hsame | ⟨u, -, hu⟩
      · exact .inl hsame
      · exact .inr ⟨u, hu⟩
    · obtain ⟨t, ht⟩ := hi.books.busy hidle
      rw [ht]
      simp
  · have hi := tended_inv h
    have hbal := hi.balance
    have hrep : s.reported x = s.callbackCount x := by
      simp [Executor.reported, callbackCount, hi.codes.undropped]
    refine isRunning_of_line ?_
    by_contra hline
    have hheld := hi.inv.held_line hline
    have hone : s.accepted.count x = 1 := List.count_eq_one_of_mem (accepted_nodup hi.inv.books) hx
    omega

/-- The replacement waits for the task it replaces, and the job counts as running. -/
theorem no_stranded_work_mixed :
    (∃ t, ((after (mixed.take 4)).get rfl).tasks 1 = some t ∧
      t ∉ ((after (mixed.take 4)).get rfl).finished ∧
      Live (((after (mixed.take 4)).get rfl).obj t)) ∧
    ((after (mixed.take 4)).get rfl).isRunningOrHasQueue 1 = true := by
  have hcalm : Reachable (CalmFor ⟨2, coverJob 3⟩) ((after (mixed.take 4)).get rfl) :=
    reachable_after (mixed.take 4)
      (.of_forall (fun e he s => (mixed_ordinary e (List.mem_of_mem_take he) s).calmFor) _) rfl
  have hreach := tended_of_calm hcalm
  have htidy : Reachable Tidy ((after (mixed.take 4)).get rfl) := by
    obtain ⟨handler, m, hr⟩ := hreach
    exact ⟨handler, m, hr.mono fun _ _ he => he.tidy⟩
  exact ⟨((no_stranded_work _).1 htidy).1 1 (.inr rfl),
    (no_stranded_work _).2 ⟨2, coverJob 3⟩ hreach (by decide) rfl rfl⟩

/-! A handler that ends by an exception no branch reports leaves its trigger without a callback and
its job idle. -/

def exitRun : List Event :=
  [.runJob (serialJob 1), .start 0 .quiet, .handlerEnds 0 (.error .base) .quiet,
    .resumeCleanup 0 .quiet]

def exitState : Executor := (after exitRun).get rfl

theorem exitState_reachable : Reachable Calm exitState := by
  refine reachable_after exitRun (.of_forall ?_ _) rfl
  intro e he s
  simp only [exitRun, List.mem_cons, List.not_mem_nil, or_false] at he
  rcases he with rfl | rfl | rfl | rfl
  · exact ⟨trivial, trivial, trivial⟩
  · exact ⟨rfl, trivial, trivial⟩
  · exact ⟨rfl, trivial, trivial⟩
  · exact ⟨rfl, trivial, trivial⟩

theorem idle_after_exit :
    (Reachable Calm exitState ∧ ∃ x ∈ exitState.accepted, exitState.callbackCount x = 0 ∧
      exitState.drained x = 0 ∧ exitState.isRunningOrHasQueue x.jobId = false) ∧
    Reachable Calm unprintableState ∧ ∃ x ∈ unprintableState.accepted,
      unprintableState.callbackCount x = 0 ∧ unprintableState.drained x = 0 ∧
        unprintableState.isRunningOrHasQueue x.jobId = false := by
  refine ⟨⟨exitState_reachable, ⟨0, serialJob 1⟩, List.mem_singleton.mpr rfl, rfl, rfl, rfl⟩,
    ?_, ⟨0, serialJob 1⟩, List.mem_singleton.mpr rfl, rfl, rfl, rfl⟩
  obtain ⟨handler, m, hr⟩ := unprintableState_reachable
  exact ⟨handler, m, hr.mono fun _ _ he => he.1⟩

end Executor
end Pyxxl
