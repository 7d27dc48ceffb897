import Pyxxl.Executor.Free
import Pyxxl.Executor.Reports

/-!
# Pyxxl.Executor.Once

Runs in which the manager is not stopped, no handler is taken away and neither loggers nor
observers fail (`Calm`): every accepted trigger gets exactly one callback, unless its handler ends
by an exception that no branch of `_run` reports, and a `run_job` that raises changes nothing.
-/

namespace Pyxxl
namespace Executor

open Transition

variable {s s' : Executor} {x : Trigger}

structure Calm (s : Executor) (e : Event) : Prop where
  quiet : e.quiet
  noStop : e.noStop
  keeps : e.keepsHandlers s

/-- The handler of `x` ends by an exception outside `Exception`, or by one that has no text. -/
def Event.escapes (s : Executor) (x : Trigger) : Event → Prop
  | .handlerEnds t (.error exc) _ => exc.reportable = false ∧ (s.obj t).data = x
  | _ => False

/-- Handlers end by a return, a timeout, a cancellation or an `Exception` that has a text. -/
def Event.ordinary : Event → Prop
  | .handlerEnds _ (.error exc) _ => exc.reportable = true
  | _ => True

def CalmFor (x : Trigger) (s : Executor) (e : Event) : Prop := Calm s e ∧ ¬e.escapes s x

def Ordinary (s : Executor) (e : Event) : Prop := Calm s e ∧ e.ordinary

theorem Ordinary.calmFor {e : Event} (h : Ordinary s e) : CalmFor x s e := by
  refine ⟨h.1, fun he => ?_⟩
  cases e with
  | handlerEnds t res aux =>
    cases res with
    | ok v => exact he
    | error exc =>
      have hr : exc.reportable = true := h.2
      rw [he.1] at hr
      cases hr
  | _ => exact he

/-- The handler of a task that is yet to begin is registered. -/
theorem Free.registered_scheduled {strict : Nat → Prop} {locks : JobId → List Pid}
    (hf : Free locks s) (hi : Inv strict s) (hlt : t < s.nextTask) {b : Bool}
    (ht : (s.obj t).task = .scheduled b) :
    s.handler (s.obj t).data.data.executorHandler = true := by
  have hok := hi.tasks t hlt
  simp only [TaskOk, ht] at hok
  have hcur := hi.books.unfinished t hlt hok.2.2.2
  refine hf.registered _ ((hi.books.job (s.obj t).data.jobId).known _ ?_)
  rw [line_cons hcur]
  exact List.mem_cons_self ..

/-- In a calm run every task is spared. -/
theorem Calm.careful {strict : Nat → Prop} {e : Event} {locks : JobId → List Pid}
    (hc : Calm s e) (hi : Inv strict s) (hf : Free locks s) (hs : step s e = some s') (t : Nat) :
    Careful s e t where
  gentle _ := hf.unpast t
  begins aux he := by
    subst he
    have hq : aux = .quiet := hc.quiet
    have hlt := task_lt hi hs (t := t) rfl
    refine ⟨by rw [hq]; rfl, ?_⟩
    simp only [step] at hs
    split at hs
    · rename_i ht
      exact hf.registered_scheduled hi hlt ht
    · cases hs
  cleans aux he _ := by
    subst he
    have hq : aux = .quiet := hc.quiet
    rw [hq]
    rfl

theorem CalmFor.reports {strict : Nat → Prop} {e : Event} (hc : CalmFor x s e)
    (hi : Inv strict s) (hf : Free (fun _ => []) s) (hs : step s e = some s') {t : Nat}
    (he : e.task = some t) (hx : (s.obj t).data = x) : e.reports s t := by
  have hcare := hc.1.careful hi hf hs t
  cases e with
  | start u aux =>
    cases he
    have hq : aux = .quiet := hc.1.quiet
    exact ⟨(hcare.begins aux rfl).1, by rw [hq]; exact Aux.caught_quiet, (hcare.begins aux rfl).2⟩
  | handlerEnds u res aux =>
    cases he
    have hq : aux = .quiet := hc.1.quiet
    refine ⟨by rw [hq]; exact Aux.caught_quiet, fun exc hr => ?_⟩
    by_contra hn
    exact hc.2 (by rw [hr]; exact ⟨by simpa using hn, hx⟩)
  | resumeTask u aux => rw [step, hf.resumeTask] at hs; cases hs
  | _ => exact trivial

structure CalmInv (s : Executor) : Prop where
  inv : Inv (fun _ => True) s
  free : Free (fun _ => []) s

theorem calm_step {e : Event} (h : CalmInv s) (hc : Calm s e) (hs : step s e = some s') :
    CalmInv s' where
  inv := (step_good h.inv (fun t _ => hc.careful h.inv h.free hs t) hs).1
  free := h.free.step h.inv.books hc.noStop hc.keeps hs

theorem calm_inv {ok : Executor → Event → Prop} (hok : ∀ s e, ok s e → Calm s e)
    (h : Reachable ok s) : CalmInv s := by
  obtain ⟨handler, m, hr⟩ := h
  exact hr.invariant (P := CalmInv) (fun _ _ _ hi he hs => calm_step hi (hok _ _ he) hs)
    ⟨inv_init handler m, free_init handler m⟩

/-- Every accepted trigger is in exactly one place, and no other trigger is anywhere. -/
theorem calm_balance (h : Reachable (CalmFor x) s) : s.held x = s.accepted.count x := by
  obtain ⟨handler, m, hr⟩ := h
  have key := hr.invariant (P := fun s => CalmInv s ∧ s.held x = s.accepted.count x)
    (fun s e s' hi he hs => ⟨calm_step hi.1 he.1 hs, by
      have heven := step_even (x := x) hi.1.inv hs
        fun t ht hx => he.reports hi.1.inv hi.1.free hs ht hx
      have := hi.2
      unfold Even at heven
      omega⟩)
    ⟨⟨inv_init handler m, free_init handler m⟩, rfl⟩
  exact key.2

/-! ## Exactly one callback -/

def callbackCount (s : Executor) (x : Trigger) : Nat := (s.callbacks.map Prod.fst).count x

theorem CalmInv.reported (h : CalmInv s) (x : Trigger) : s.reported x = s.callbackCount x := by
  simp [Executor.reported, callbackCount, h.free.undropped]

theorem TaskOk.owes_unfinished {strict fin : Prop} {o : XXLTask} (h : TaskOk strict o fin)
    (ho : 0 < owes o) : ¬fin := by
  cases hc : o.task with
  | scheduled b => simp only [TaskOk, hc] at h; exact h.2.2.2
  | inHandler ts => simp only [TaskOk, hc] at h; exact h.2.2.2
  | pushing inTry r => simp only [TaskOk, hc] at h; exact h.2.2.2
  | thrownPushing inTry ts => simp only [TaskOk, hc] at h; exact h.1.2.2.2
  | locking exc => simp only [TaskOk, hc] at h; exact h.2.2.2
  | thrownLocking => simp only [TaskOk, hc] at h; exact h.1.2.2.2
  | done exc =>
    cases hk : o.cleanup with
    | idle => simp only [TaskOk, hc, hk] at h
    | doneCallback =>
      simp only [TaskOk, hc, hk] at h
      by_cases hst : o.started = true
      · simp [owes, hc, hk, hst] at ho
      · exact h.2.1 (h.1 (by simpa using hst)).2
    | scheduled => simp only [TaskOk, hc, hk] at h; exact h.2.2.1
    | pushing r => simp only [TaskOk, hc, hk] at h; exact h.2.2.1
    | locking => simp only [TaskOk, hc, hk] at h; exact h.2.2.1
    | ended => simp [owes, hc, hk] at ho

/-- A task that owes a callback is the current one of its job. -/
theorem Inv.owes_current {strict : Nat → Prop} (h : Inv strict s) {t : Nat} (ht : t < s.nextTask)
    (ho : 0 < owes (s.obj t)) : s.tasks (s.obj t).data.jobId = some t :=
  h.books.unfinished t ht ((h.tasks t ht).owes_unfinished ho)

theorem Inv.owed_line {strict : Nat → Prop} (h : Inv strict s) (ho : 0 < s.owed x) :
    ∃ t, s.tasks x.jobId = some t ∧ (s.obj t).data = x := by
  obtain ⟨t, ht, hw⟩ := (tally_pos _).mp ho
  unfold owedTo at hw
  split at hw
  · rename_i hx
    refine ⟨t, ?_, hx⟩
    rw [← hx]
    exact h.owes_current ht hw
  · exact absurd hw (Nat.lt_irrefl _)

theorem Inv.held_line {strict : Nat → Prop} (h : Inv strict s) (hx : x ∉ s.line x.jobId) :
    s.held x = s.reported x + s.drained x := by
  rw [line, List.mem_append, not_or] at hx
  have hpend : (s.pending x.jobId).count x = 0 := List.count_eq_zero.mpr hx.2
  have howed : s.owed x = 0 := by
    refine Nat.eq_zero_of_not_pos fun ho => hx.1 ?_
    obtain ⟨t, ht, hd⟩ := h.owed_line ho
    simp [current, ht, hd]
  simp only [held, hpend, howed]
  omega

/-! ## A call that raises -/

/-- The `run_job` call the event belongs to, up to the end of its critical section. -/
def Event.runs (s : Executor) : Event → Option (Nat × RunData)
  | .runJob d => some (s.nextCall, d)
  | .resumeCall n =>
    match s.call n with
    | .runLock d => some (n, d)
    | _ => none
  | _ => none

/-- `tasks`, `queue`, `_cover_replacements` and `_job_log_ids` are as they were, and no callback
was enqueued. -/
structure Untouched (s s' : Executor) : Prop where
  tasks : s'.tasks = s.tasks
  queue : s'.queue = s.queue
  cover : s'.coverReplacements = s.coverReplacements
  logIds : s'.jobLogIds = s.jobLogIds
  callbacks : s'.callbacks = s.callbacks

theorem runJobLocked_raises {n : Nat} {d : RunData} {err : RunError}
    (h : (s.runJobLocked n d).call n = .runDone (.error err)) :
    Untouched s (s.runJobLocked n d) := by
  have hret : ∀ res, Untouched s (s.runReturn n d.jobId res) := fun res =>
    ⟨rfl, rfl, rfl, rfl, rfl⟩
  unfold runJobLocked at h ⊢
  split at h
  · rename_i hl; rw [if_pos hl]; exact hret _
  · rename_i hl
    rw [if_neg hl]
    split at h
    · simp [runReturn, setCall] at h
    · rename_i hi
      rw [if_neg hi]
      split at h
      · rename_i hd; rw [if_pos hd]; exact hret _
      · rename_i hd
        rw [if_neg hd]
        split at h
        · exact (coverPush_call _ _ _ _ _ _ h).elim
        · rename_i hcov
          rw [if_neg hcov]
          split at h
          · rename_i hser
            rw [if_pos hser]
            unfold handleSerialExecution at h ⊢
            split at h
            · rename_i hf; rw [if_pos hf]; exact hret _
            · simp [runReturn, setCall] at h
          · rename_i hser; rw [if_neg hser]; exact hret _

theorem raises_untouched {e : Event} {n : Nat} {d : RunData} {err : RunError}
    (hr : e.runs s = some (n, d)) (hs : step s e = some s')
    (h : s'.call n = .runDone (.error err)) : Untouched s s' := by
  cases e with
  | runJob d' =>
    cases hr
    cases hs
    simp only [runJob] at h ⊢
    split at h
    · rename_i hh
      rw [if_pos hh]
      split at h
      · rename_i hfree
        rw [if_pos hfree]
        have := runJobLocked_raises h
        exact ⟨this.tasks, this.queue, this.cover, this.logIds, this.callbacks⟩
      · simp [setCall] at h
    · rename_i hh; rw [if_neg hh]; exact ⟨rfl, rfl, rfl, rfl, rfl⟩
  | resumeCall m =>
    simp only [Event.runs] at hr
    split at hr
    · rename_i d' hcall
      cases hr
      simp only [step, resumeCall, hcall] at hs
      split at hs
      · split at hs
        · cases hs; exact runJobLocked_raises h
        · cases hs
      · cases hs
    · cases hr
  | _ => cases hr

theorem coverEarly_accepted (s : Executor) (d : RunData) :
    (s.coverEarly d).1.accepted = s.accepted ++ [newTrigger s d] := by
  have htake : (s.takePending d.jobId).1.accepted = s.accepted := by rw [takePending_fst]
  simp only [coverEarly, accept, registerLogId]
  split
  · rename_i t _
    rw [(SameBooks.cancel t).accepted]
    simp [setCancelReason, modTask, newTrigger, htake]
  · simp [createTask, newTrigger, htake]

/-- A `run_job` that does not raise in its critical section has accepted its trigger there. -/
theorem runJobLocked_accepts {n : Nat} {d : RunData}
    (h : ∀ err, (s.runJobLocked n d).call n ≠ .runDone (.error err)) :
    (s.runJobLocked n d).accepted = s.accepted ++ [newTrigger s d] := by
  have hret : ∀ err, (s.runReturn n d.jobId (.error err)).call n = .runDone (.error err) :=
    fun err => by simp [runReturn, setCall]
  unfold runJobLocked at h ⊢
  split at h
  · exact absurd (hret _) (h _)
  · rename_i hl
    rw [if_neg hl]
    split at h
    · rename_i hi; rw [if_pos hi]; rfl
    · rename_i hi
      rw [if_neg hi]
      split at h
      · exact absurd (hret _) (h _)
      · rename_i hd
        rw [if_neg hd]
        split at h
        · rename_i hcov
          rw [if_pos hcov, handleCoverEarly, (coverPush_same ..).accepted, coverEarly_accepted]
        · rename_i hcov
          rw [if_neg hcov]
          split at h
          · rename_i hser
            rw [if_pos hser]
            unfold handleSerialExecution at h ⊢
            split at h
            · exact absurd (hret _) (h _)
            · rename_i hf; rw [if_neg hf]; rfl
          · exact absurd (hret _) (h _)

theorem returns_accepted {e : Event} {n : Nat} {d : RunData} (hc : e.checks s = some (n, d))
    (hs : step s e = some s') (h : ∀ err, s'.call n ≠ .runDone (.error err)) :
    s'.accepted = s.accepted ++ [newTrigger s d] := by
  cases e with
  | runJob d' =>
    simp only [Event.checks] at hc
    split at hc
    · rename_i hcond
      cases hc
      cases hs
      simp only [runJob, hcond.1, hcond.2, if_true] at h ⊢
      exact runJobLocked_accepts h
    · cases hc
  | resumeCall m =>
    simp only [Event.checks] at hc
    split at hc
    · rename_i d' hcall
      cases hc
      simp only [step, resumeCall, hcall] at hs
      split at hs
      · split at hs
        · cases hs; exact runJobLocked_accepts h
        · cases hs
      · cases hs
    · cases hc
  | _ => cases hc

/-- In a run in which the handler of `x` does not escape the `except` branches, `x` has at most one
callback, and exactly one when it is neither in the books any more nor in the hands of a call that
still reports it. A `run_job` accepts its trigger or raises, and one that raises touches nothing. -/
theorem reported_once (s : Executor) :
    (∀ x, Reachable (CalmFor x) s → x ∈ s.accepted → s.callbackCount x ≤ 1 ∧
      (x ∉ s.current x.jobId → x ∉ s.queue x.jobId → s.coverReplacements x.jobId ≠ some x →
        s.drained x = 0 → s.callbackCount x = 1)) ∧
    (∀ (e : Event) s' n d, e.checks s = some (n, d) → step s e = some s' →
      (∀ err, s'.call n ≠ .runDone (.error err)) →
        s'.accepted = s.accepted ++ [newTrigger s d]) ∧
    (∀ (e : Event) s' n d err, e.runs s = some (n, d) → step s e = some s' →
      s'.call n = .runDone (.error err) → Untouched s s') := by
  refine ⟨fun x h hx => ?_, fun e s' n d hc hs hr => returns_accepted hc hs hr,
    fun e s' n d err hr hs hc => raises_untouched hr hs hc⟩
  have hi := calm_inv (fun _ _ he => he.1) h
  have hbal := calm_balance h
  have hone : s.accepted.count x = 1 := List.count_eq_one_of_mem (accepted_nodup hi.inv.books) hx
  have hrep := hi.reported x
  refine ⟨?_, fun hc hq hr hd => ?_⟩
  · simp only [held] at hbal
    omega
  · have hline := hi.inv.held_line (x := x) (by
      simp only [line, pending, List.mem_append, Option.mem_toList]
      rintro (h1 | h1 | h1)
      · exact hc h1
      · exact hr h1
      · exact hq h1)
    omega

theorem mixed_ordinary : ∀ e ∈ mixed, ∀ s, Ordinary s e := by
  intro e he s
  simp only [mixed, List.mem_cons, List.not_mem_nil, or_false] at he
  rcases he with rfl | rfl | rfl | rfl | rfl | rfl | rfl
  · exact ⟨⟨trivial, trivial, trivial⟩, trivial⟩
  · exact ⟨⟨trivial, trivial, trivial⟩, trivial⟩
  · exact ⟨⟨rfl, trivial, trivial⟩, trivial⟩
  · exact ⟨⟨trivial, trivial, trivial⟩, trivial⟩
  · exact ⟨⟨rfl, trivial, trivial⟩, rfl⟩
  · exact ⟨⟨rfl, trivial, trivial⟩, trivial⟩
  · exact ⟨⟨rfl, trivial, trivial⟩, trivial⟩

/-- The queued trigger that had to give way has its one callback. -/
theorem reported_once_mixed : mixedState.callbackCount ⟨1, serialJob 2⟩ = 1 :=
  ((reported_once mixedState).1 ⟨1, serialJob 2⟩
    (reachable_after mixed (.of_forall (fun e he s => (mixed_ordinary e he s).calmFor) _) rfl)
    (by decide)).2 (by decide) (by decide) (by decide) rfl

/-! ## An exception without a text -/

/-- Handlers end by a return, an `Exception`, a timeout or a cancellation. -/
def Event.excepting : Event → Prop
  | .handlerEnds _ (.error exc) _ => exc ≠ .base
  | _ => True

/-- The handler of task 0 ends by an `Exception` whose `__str__` raises another. -/
def unprintableRun : List Event :=
  [.runJob (serialJob 1), .start 0 .quiet,
    .handlerEnds 0 (.error (.unprintable (.exception []))) .quiet, .resumeCleanup 0 .quiet]

def unprintableState : Executor := (after unprintableRun).get rfl

theorem unprintableState_reachable :
    Reachable (fun s e => Calm s e ∧ e.excepting) unprintableState := by
  refine reachable_after unprintableRun (.of_forall ?_ _) rfl
  intro e he s
  simp only [unprintableRun, List.mem_cons, List.not_mem_nil, or_false] at he
  rcases he with rfl | rfl | rfl | rfl
  · exact ⟨⟨trivial, trivial, trivial⟩, trivial⟩
  · exact ⟨⟨rfl, trivial, trivial⟩, trivial⟩
  · exact ⟨⟨rfl, trivial, trivial⟩, fun h => by cases h⟩
  · exact ⟨⟨rfl, trivial, trivial⟩, trivial⟩

/-- `str(err)` raises in the `except` branch: the trigger has left the books without a callback. -/
theorem unprintable_unreported :
    ∃ s, Reachable (fun s e => Calm s e ∧ e.excepting) s ∧ ∃ x ∈ s.accepted,
      x ∉ s.current x.jobId ∧ x ∉ s.queue x.jobId ∧ s.coverReplacements x.jobId ≠ some x ∧
        s.drained x = 0 ∧ s.callbackCount x = 0 :=
  ⟨unprintableState, unprintableState_reachable, ⟨0, serialJob 1⟩, List.mem_singleton.mpr rfl,
    by decide, by decide, by decide, rfl, rfl⟩

end Executor
end Pyxxl
