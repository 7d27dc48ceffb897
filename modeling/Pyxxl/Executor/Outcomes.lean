import Pyxxl.Executor.Cancelled

/-!
# Pyxxl.Executor.Outcomes

Every way a started task can end, against what becomes of it (`outcome_settles`).

* `Provided t s e`: what the event does for `t` besides its logger and its handler does not fail:
  the manager takes every request, and the observers return.
* `Harmless t s e`: no outcome of the other calls of `_run` loses the report or `_finish`.
* `Doomed t s`: one has, and `t` will not be reported and finished any more.
-/

namespace Pyxxl
namespace Executor

open Transition

variable {strict : Nat → Prop} {s s' : Executor} {e : Event} {t : Nat} {x : Trigger}

/-- How the calls around the task end in the event. -/
def Event.aux : Event → Option (Nat × Aux)
  | .start t aux | .handlerEnds t _ aux | .resumeTask t aux | .resumeCleanup t aux => some (t, aux)
  | _ => none

structure Provided (t : Nat) (s : Executor) (e : Event) : Prop where
  opened : KeepsOpen s e
  observers : ∀ aux, e.aux = some (t, aux) → aux.succeeded = none ∧ aux.failed = none

/-- What the end of the handler raises in the `try` body. -/
def raised : Except Exc PyVal → Aux → Option Exc
  | .error e, _ => some e
  | .ok _, aux => aux.finishLog

/-- An `except` branch catches the exception, its log call returns, and so does its `str(err)`. -/
def Caught (o : Option Exc) (aux : Aux) : Prop := ∀ e, o = some e → aux.catches e

structure Harmless (t : Nat) (s : Executor) (e : Event) : Prop where
  /-- Its handler is registered when it starts, and its logger can be had. -/
  begins : ∀ aux, e = .start t aux →
    s.handler (s.obj t).data.data.executorHandler = true ∧ aux.getLogger = none ∧
      Caught aux.startLog aux
  ends : ∀ res aux, e = .handlerEnds t res aux → Caught (raised res aux) aux
  /-- So it is for a `cancel()` in the `enqueue` of the `try` body. -/
  resumes : ∀ aux ts, e = .resumeTask t aux → (s.obj t).task = .thrownPushing true ts →
    aux.errLog = none
  /-- No `cancel()` reaches it in the `enqueue` of an `except` branch, or at the job lock. -/
  gentle : e.target s = some t → (s.obj t).task.pastHandler = false

/-- The task is finished and reported once, and its job goes on. -/
structure Settled (t : Nat) (s : Executor) : Prop where
  finished : s.finished.count t = 1
  reported : s.callbackCount (s.obj t).data = 1
  left : s.tasks (s.obj t).data.jobId ≠ some t
  /-- The job is free, or has its next task. -/
  next : s.tasks (s.obj t).data.jobId = none → s.pending (s.obj t).data.jobId = []

/-! ## Harmless events -/

/-- The event without what the code does not come to in it. -/
def Event.mended : Event → Event
  | .start t aux =>
    .start t { getLogger := aux.getLogger, startLog := aux.startLog, failed := aux.failed }
  | .handlerEnds t (.error e) aux => .handlerEnds t (.error e) { failed := aux.failed }
  | .handlerEnds t (.ok v) aux =>
    .handlerEnds t (.ok v) { finishLog := aux.finishLog, failed := aux.failed }
  | .resumeTask t aux => .resumeTask t { failed := aux.failed }
  | e => e

/-- Only a call cancels a task. -/
theorem target_call (h : e.target s = some t) : e.task = none := by
  cases e <;> first | rfl | cases h

theorem mended_target (e : Event) : e.mended.target s = e.target s := by
  cases e with
  | handlerEnds t res aux => cases res <;> rfl
  | _ => rfl

theorem exceptBranch_mended (ts : Int) (e : Exc) {aux aux' : Aux} (h : aux'.errLog = aux.errLog)
    (hf : aux'.failed = aux.failed) : s.exceptBranch t ts e aux' = s.exceptBranch t ts e aux := by
  have hmsg : exceptMessage (s.obj t) e aux' = exceptMessage (s.obj t) e aux := by
    simp only [exceptMessage, h]
  simp only [exceptBranch, hmsg, hf]

theorem startRun_mended {aux : Aux} (h : Caught aux.startLog aux) :
    s.startRun t { getLogger := aux.getLogger, startLog := aux.startLog, failed := aux.failed } =
      s.startRun t aux := by
  simp only [startRun]
  split
  · split
    · rfl
    · rename_i e _ hl
      exact exceptBranch_mended _ e (h e hl).2.symm rfl
    · rfl
  · rfl

/-- A harmless event is one that does no harm in the sense of `Unharmed`. -/
theorem Harmless.mended (hp : Provided t s e) (hh : Harmless t s e) (he : e.task = some t) :
    step s e.mended = step s e := by
  cases e with
  | start u aux =>
    cases he
    simp only [step, Event.mended, startRun_mended (hh.begins aux rfl).2.2]
  | handlerEnds u res aux =>
    cases he
    have hs := (hp.observers aux rfl).1
    have hc := hh.ends res aux rfl
    cases res with
    | error e =>
      simp only [step, Event.mended, handlerEnds]
      split
      · exact congrArg some (exceptBranch_mended _ e (hc e rfl).2.symm rfl)
      · rfl
    | ok v =>
      simp only [step, Event.mended, handlerEnds]
      split
      · cases hl : aux.finishLog with
        | some e =>
          exact congrArg some (exceptBranch_mended _ e (hc e hl).2.symm rfl)
        | none => simp only [afterSuccess, hs]
      · rfl
  | resumeTask u aux =>
    cases he
    have hs := (hp.observers aux rfl).1
    simp only [step, Event.mended, resumeTask]
    split
    · simp only [afterSuccess, hs]
    · rename_i inTry ts hc
      cases inTry with
      | true => exact congrArg some (exceptBranch_mended _ _ (hh.resumes aux ts rfl hc).symm rfl)
      | false => rfl
    · rfl
    · rfl
    · rfl
  | _ => rfl

theorem KeepsOpen.mended (h : KeepsOpen s e) : KeepsOpen s e.mended := by
  cases e with
  | handlerEnds t res aux => cases res <;> simp [KeepsOpen, Event.mended]
  | stopCalled close => exact h
  | _ => simp [KeepsOpen, Event.mended]

theorem Harmless.unharmed (hp : Provided t s e) (hh : Harmless t s e) : Unharmed t s e.mended where
  opened := .inl hp.opened.mended
  gentle hg := hh.gentle (by rwa [mended_target] at hg)
  begins aux' hb := by
    cases e with
    | start u aux =>
      cases hb
      obtain ⟨h₁, h₂, h₃⟩ := hh.begins aux rfl
      exact ⟨h₂, ⟨fun e hs => (h₃ e hs).1, (by simp), rfl, rfl⟩, h₁⟩
    | handlerEnds u res aux => cases res <;> cases hb
    | _ => cases hb
  ends res' aux' hb := by
    cases e with
    | handlerEnds u res aux =>
      cases res with
      | error e =>
        cases hb
        refine ⟨⟨by simp, by simp, rfl, rfl⟩, fun exc he => ?_⟩
        cases he
        exact (hh.ends _ aux rfl _ rfl).1
      | ok v =>
        cases hb
        exact ⟨⟨by simp, fun exc hl => (hh.ends _ aux rfl exc hl).1, rfl, rfl⟩, by simp⟩
    | _ => cases hb
  resumes aux' hb := by
    cases e with
    | handlerEnds u res aux => cases res <;> cases hb
    | resumeTask u aux => cases hb; exact ⟨by simp, by simp, rfl, rfl⟩
    | _ => cases hb

/-- What happens elsewhere does `t` no harm but by a `cancel()`. -/
theorem Harmless.elsewhere (hp : Provided t s e) (hh : Harmless t s e) (he : e.task ≠ some t) :
    Unharmed t s e where
  opened := .inl hp.opened
  gentle := hh.gentle
  begins aux hb := by subst hb; exact absurd rfl he
  ends res aux hb := by subst hb; exact absurd rfl he
  resumes aux hb := by subst hb; exact absurd rfl he

theorem Settling.harmless (h : Settling t s) (hp : Provided t s e) (hh : Harmless t s e)
    (hs : Executor.step s e = some s') : Settling t s' := by
  by_cases he : e.task = some t
  · exact h.step hp.opened.mended (hh.unharmed hp) ((hh.mended hp he).trans hs)
  · exact h.step hp.opened (hh.elsewhere hp he) hs

/-! ## Harm -/

/-- `t` has begun, and its report or its `_finish` is lost. -/
inductive Doomed (t : Nat) (s : Executor) : Prop where
  /-- No callback was enqueued, and none is owed any more. -/
  | unreported (hst : (s.obj t).started = true) (h : s.held (s.obj t).data = 0)
  /-- A `CancelledError` is to be raised in the `enqueue` of an `except` branch. -/
  | pushing (ts : Int) (hc : (s.obj t).task = .thrownPushing false ts)
      (h : s.held (s.obj t).data = 1)
  /-- One is to be raised at the job lock. -/
  | locking (hc : (s.obj t).task = .thrownLocking)
  | unfinished (hst : (s.obj t).started = true) (exc : Option Exc)
      (hc : (s.obj t).task = .done exc) (h : t ∉ s.finished)

/-- What the `except` branches do not catch, or do not get to report, costs the callback. -/
theorem exceptBranch_lost (hb : Books s) (hr : Running s t) (h1 : owes (s.obj t) = 1) (ts : Int)
    {e : Exc} {aux : Aux} (ha : ¬aux.catches e) :
    (s.exceptBranch t ts e aux).held (s.obj t).data + 1 = s.held (s.obj t).data := by
  have howed : owedTo (s.obj t).data (s.obj t) = 1 := by rw [owedTo_of_owes h1, if_pos rfl]
  have hclean : ∀ exc, (s.cleanupTask t exc).held (s.obj t).data + 1 = s.held (s.obj t).data := by
    intro exc
    have := held_cleanupTask (x := (s.obj t).data) hb hr exc
    rwa [howed] at this
  obtain ⟨e', hm⟩ := exceptMessage_error ha (s.obj t)
  simp only [exceptBranch, hm]
  exact hclean _

theorem startRun_cases (s : Executor) (t : Nat) (aux : Aux) :
    (∃ exc, s.startRun t aux = (s.entered t).endTask t exc) ∨
      s.handler (s.obj t).data.data.executorHandler = true ∧ aux.getLogger = none ∧
        (aux.startLog = none ∨ ∃ e, aux.startLog = some e ∧ s.startRun t aux =
          (s.entered t).exceptBranch t (s.callbackTimestamp (s.obj t).data.data) e aux) := by
  simp only [startRun]
  split
  · rename_i hh
    split
    · exact .inl ⟨_, rfl⟩
    · rename_i e hl hsl; exact .inr ⟨hh, hl, .inr ⟨e, hsl, rfl⟩⟩
    · rename_i hl hsl; exact .inr ⟨hh, hl, .inl hsl⟩
  · exact .inl ⟨_, rfl⟩

/-- A task that is not cleaned up when it ends is not finished. -/
theorem startRun_unfinished (hi : Inv strict s) (ht : t < s.nextTask) {b : Bool}
    (hc : (s.obj t).task = .scheduled b) (exc : Option Exc) :
    Doomed t ((s.entered t).endTask t exc) := by
  have hr : Running (s.entered t) t := entered_running hi ht hc
  refine .unfinished ?_ exc ?_ hr.unfinished
  · simpa [endTask] using hr.started
  · simp [endTask]

/-- The callback of `t` was lost in the event. -/
theorem Settling.lost (h : Settling t s) (hs : Executor.step s e = some s') (he : e.task = some t)
    (hst : (s'.obj t).started = true)
    (hl : s'.held (s.obj t).data + 1 = s.held (s.obj t).data) : Doomed t s' := by
  have ht := task_lt h.inv hs he
  have hone := h.held_one ht
  refine .unreported hst ?_
  rw [(step_keeps h.inv hs ht).1]
  omega

theorem Settling.begins_doomed (h : Settling t s) {aux : Aux}
    (hs : Executor.step s (.start t aux) = some s')
    (hh : ¬(s.handler (s.obj t).data.data.executorHandler = true ∧ aux.getLogger = none ∧
      Caught aux.startLog aux)) : Doomed t s' := by
  have ht := task_lt h.inv hs rfl
  have hstep := hs
  simp only [Executor.step] at hs
  split at hs
  · rename_i hc
    cases hs
    rcases startRun_cases s t aux with ⟨exc, hend⟩ | ⟨hhandler, hl, hsl | ⟨e, hsl, hbranch⟩⟩
    · rw [hend]; exact startRun_unfinished h.inv ht hc exc
    · exact absurd ⟨hhandler, hl, fun e he => by rw [hsl] at he; cases he⟩ hh
    · have hgood := enter_good h.inv ht hc (s.callbackTimestamp (s.obj t).data.data)
      have hlost := exceptBranch_lost (s := s.entered t) hgood.1.books (entered_running h.inv ht hc)
        (entered_owes s t) (s.callbackTimestamp (s.obj t).data.data) fun hcaught =>
          hh ⟨hhandler, hl, fun e' he => by rw [hsl] at he; cases he; exact hcaught⟩
      rw [entered_obj, held_entered hc, ← hbranch] at hlost
      exact h.lost hstep rfl (startRun_begun ht aux) hlost
  · cases hs

theorem Settling.ends_doomed (h : Settling t s) (hp : Provided t s e) {res : Except Exc PyVal}
    {aux : Aux} (he : e = .handlerEnds t res aux) (hs : Executor.step s e = some s')
    (hh : ¬Caught (raised res aux) aux) : Doomed t s' := by
  subst he
  have ht := task_lt h.inv hs rfl
  have hstep := hs
  simp only [Executor.step] at hs
  split at hs
  · rename_i ts hc
    cases hs
    have hr := running_of_inHandler h.inv ht hc
    have h1 : owes (s.obj t) = 1 := by simp [owes, hc]
    refine h.lost hstep rfl ((MayFinish.handlerEnds ..).begun ht ▸ hr.started) ?_
    cases res with
    | error e =>
      exact exceptBranch_lost h.inv.books hr h1 ts fun hcaught =>
        hh fun e' he => by cases he; exact hcaught
    | ok v =>
      cases hl : aux.finishLog with
      | none => exact absurd (fun e he => by simp [raised, hl] at he) hh
      | some e =>
        simp only [handlerEnds, hl]
        exact exceptBranch_lost h.inv.books hr h1 ts fun hcaught =>
          hh fun e' he => by simp only [raised, hl, Option.some.injEq] at he; exact he ▸ hcaught
  · cases hs

theorem Settling.resumes_doomed (h : Settling t s) {aux : Aux} {ts : Int}
    (hs : Executor.step s (.resumeTask t aux) = some s')
    (hc : (s.obj t).task = .thrownPushing true ts) (hl : aux.errLog ≠ none) : Doomed t s' := by
  have ht := task_lt h.inv hs rfl
  have hok := h.inv.tasks t ht
  simp only [TaskOk, hc] at hok
  obtain ⟨hst, hcl, hcu, hnf⟩ := hok.1
  have hbegun := (MayFinish.resumeTask hs).begun ht
  refine h.lost hs rfl (by rw [hbegun]; exact hst) ?_
  simp only [Executor.step, resumeTask, hc, if_true, Option.some.injEq] at hs
  rw [← hs]
  exact exceptBranch_lost h.inv.books ⟨ht, hst, hcl, hcu, hnf⟩ (by simp [owes, hc]) ts
    fun hcaught => hl hcaught.2

theorem Settling.cancel_doomed (h : Settling t s) (hs : Executor.step s e = some s')
    (hg : e.target s = some t) (hpast : (s.obj t).task.pastHandler = true) : Doomed t s' := by
  have hcall := target_call hg
  have ht : t < s.nextTask := h.inv.lt_of_obj fun ho => by rw [ho] at hpast; cases hpast
  obtain ⟨reason, ho⟩ := (step_kills h.inv.books hs hcall).killed t hg
  cases hc : (s.obj t).task with
  | pushing inTry r =>
    cases inTry with
    | true => rw [hc] at hpast; cases hpast
    | false =>
      refine .pushing r.timestamp (by rw [ho]; simp [killed, Coro.cancelled, hc]) ?_
      rw [(step_keeps h.inv hs ht).1, h.apart.held_step h.inv hs ht fun he => by
        rw [hcall] at he; cases he]
      exact h.held_one ht
  | locking exc => exact .locking (by rw [ho]; simp [killed, Coro.cancelled, hc])
  | _ => rw [hc] at hpast; cases hpast

/-- Every event is harmless to `t`, or dooms it. -/
theorem Settling.harmless_or_doomed (h : Settling t s) (hp : Provided t s e)
    (hs : Executor.step s e = some s') : Harmless t s e ∨ Doomed t s' := by
  by_cases hd : Doomed t s'
  · exact .inr hd
  refine .inl ⟨fun aux he => ?_, fun res aux he => ?_, fun aux ts he hc => ?_, fun hg => ?_⟩
  · subst he
    by_contra hh
    exact hd (h.begins_doomed hs hh)
  · by_contra hh
    exact hd (h.ends_doomed hp he hs hh)
  · subst he
    by_contra hl
    exact hd (h.resumes_doomed hs hc hl)
  · by_contra hpast
    exact hd (h.cancel_doomed hs hg (by simpa using hpast))

theorem Doomed.started (h : Doomed t s) (hi : Inv strict s) (ht : t < s.nextTask) :
    (s.obj t).started = true := by
  have hok := hi.tasks t ht
  cases h with
  | unreported hst => exact hst
  | pushing ts hc => simp only [TaskOk, hc] at hok; exact hok.1.1
  | locking hc => simp only [TaskOk, hc] at hok; exact hok.1.1
  | unfinished hst => exact hst

/-- Nothing that happens elsewhere saves `t`. -/
theorem Doomed.elsewhere (h : Doomed t s) (hi : Inv strict s) (hap : Apart s)
    (hs : Executor.step s e = some s') (ht : t < s.nextTask) (he : e.task ≠ some t) :
    Doomed t s' := by
  have hi' := (step_good hi.weak (fun _ hf => hf.elim) hs).1
  have hheld := hap.held_step hi hs ht fun hown => absurd hown he
  obtain ⟨hdata, hbegun⟩ := step_keeps hi hs ht
  have htask : (s'.obj t).task = (s.obj t).task ∨ (s'.obj t).task = (s.obj t).task.cancelled := by
    rcases step_obj hi.books hs ht he with ho | ⟨-, reason, ho⟩
    · exact .inl (by rw [ho])
    · exact .inr (by rw [ho]; rfl)
  rw [← hdata] at hheld
  cases h with
  | unreported hst h => exact .unreported (hbegun hst) (by rw [hheld, hdata]; exact h)
  | pushing ts hc h =>
    rw [hc] at htask
    exact .pushing ts (htask.elim id id) (by rw [hheld, hdata]; exact h)
  | locking hc =>
    rw [hc] at htask
    exact .locking (htask.elim id id)
  | unfinished hst exc hc hnf =>
    rw [hc] at htask
    refine .unfinished (hbegun hst) exc (htask.elim id id) fun hf => ?_
    rcases step_finished hi.weak hi' hs with h | ⟨u, hu, h, -⟩
    · rw [h] at hf; exact hnf hf
    · rw [h, List.mem_append, List.mem_singleton] at hf
      rcases hf with hf | rfl
      · exact hnf hf
      · exact he hu

/-- The end of a task that has begun is all its done-callback looks at. -/
theorem resumeCleanup_begun (hi : Inv strict s) (ht : t < s.nextTask) {aux : Aux}
    (hst : (s.obj t).started = true) (hs : s.resumeCleanup t aux = some s') :
    s' = s.setCleanup t .ended := by
  have hok := hi.tasks t ht
  unfold resumeCleanup at hs
  split at hs
  · split at hs
    · cases hs; simp [onExecutorTaskDone, hst]
    · cases hs
  · rename_i hc
    obtain ⟨exc, hd⟩ := hok.ended (by rw [hc]; simp)
    simp [TaskOk, hd, hc, hst] at hok
  · rename_i r hc
    obtain ⟨exc, hd⟩ := hok.ended (by rw [hc]; simp)
    simp [TaskOk, hd, hc, hst] at hok
  · rename_i hc
    obtain ⟨exc, hd⟩ := hok.ended (by rw [hc]; simp)
    simp [TaskOk, hd, hc, hst] at hok
  · cases hs
  · cases hs

/-- What runs in an event of a task that has begun. -/
theorem own_event (hi : Inv strict s) (hst : (s.obj t).started = true)
    (hs : Executor.step s e = some s') (he : e.task = some t) :
    (∃ ts, (s.obj t).task = .inHandler ts) ∨
      (∃ aux, e = .resumeTask t aux ∧ s.resumeTask t aux = some s') ∨
      (∃ aux, e = .resumeCleanup t aux) ∧ (∃ exc, (s.obj t).task = .done exc) ∧
        s' = s.setCleanup t .ended := by
  have ht := task_lt hi hs he
  have hok := hi.tasks t ht
  have hsched : ∀ b, (s.obj t).task ≠ .scheduled b := by
    intro b hc
    simp [TaskOk, hc, hst] at hok
  cases e with
  | start u aux =>
    cases he
    simp only [Executor.step] at hs
    split at hs
    · rename_i hc; exact absurd hc (hsched _)
    · cases hs
  | abort u =>
    cases he
    simp only [Executor.step] at hs
    split at hs
    · rename_i hc; exact absurd hc (hsched _)
    · cases hs
  | handlerEnds u res aux =>
    cases he
    simp only [Executor.step] at hs
    split at hs
    · rename_i ts hc; exact .inl ⟨ts, hc⟩
    · cases hs
  | resumeTask u aux => cases he; exact .inr (.inl ⟨aux, rfl, hs⟩)
  | resumeCleanup u aux =>
    cases he
    refine .inr (.inr ⟨⟨aux, rfl⟩, hok.ended fun hc => ?_, resumeCleanup_begun hi ht hst hs⟩)
    simp [Executor.step, resumeCleanup, hc] at hs
  | _ => cases he

/-- A task that owes no callback enqueues none. -/
theorem held_unowed (hi : Inv strict s) (hap : Apart s) (hst : (s.obj t).started = true)
    (hs : Executor.step s e = some s') (he : e.task = some t) (hw : owes (s.obj t) = 0) :
    s'.held (s.obj t).data = s.held (s.obj t).data := by
  have ht := task_lt hi hs he
  rcases own_event hi hst hs he with ⟨ts, hc⟩ | ⟨aux, rfl, hres⟩ | ⟨⟨aux, rfl⟩, -, -⟩
  · simp [owes, hc] at hw
  · -- at the job lock nothing is called that could fail
    have hquiet : s.resumeTask t .quiet = s.resumeTask t aux := by
      unfold resumeTask
      split
      · rename_i hc; simp [owes, hc] at hw
      · rename_i hc; simp [owes, hc] at hw
      · rfl
      · rfl
      · rfl
    refine hap.held_step (e := .resumeTask t .quiet) hi (hquiet.trans hres) ht fun _ => ?_
    exact ⟨Aux.caught_quiet, fun ts hc => by simp [owes, hc] at hw⟩
  · exact hap.held_step hi hs ht fun _ => trivial

/-- Nor does what `t` itself still does. -/
theorem Doomed.own (h : Doomed t s) (hi : Inv strict s) (hap : Apart s)
    (hs : Executor.step s e = some s') (he : e.task = some t) : Doomed t s' := by
  have ht := task_lt hi hs he
  have hst := h.started hi ht
  have hok := hi.tasks t ht
  have hown := own_event hi hst hs he
  obtain ⟨hdata, hbegun⟩ := step_keeps hi hs ht
  cases h with
  | unreported _ h =>
    have hle : s.owed (s.obj t).data ≤ s.held (s.obj t).data := by simp only [Executor.held]; omega
    rw [hap.owed ht, h, Nat.le_zero] at hle
    refine .unreported (hbegun hst) ?_
    rw [hdata, held_unowed hi hap hst hs he hle]
    exact h
  | pushing ts hc h =>
    simp only [TaskOk, hc] at hok
    rw [hc] at hown
    obtain ⟨ts', hd⟩ | ⟨aux, -, hres⟩ | ⟨-, ⟨exc, hd⟩, -⟩ := hown
    · cases hd
    · simp only [resumeTask, hc, Bool.false_eq_true, if_false, Option.some.injEq] at hres
      have hclean := held_cleanupTask (x := (s.obj t).data) hi.books
        ⟨ht, hok.1.1, hok.1.2.1, hok.1.2.2.1, hok.1.2.2.2⟩ (some .cancelled)
      rw [owedTo_of_owes (by simp [owes, hc]), if_pos rfl, hres] at hclean
      refine .unreported (hbegun hst) ?_
      rw [hdata]
      omega
    · cases hd
  | locking hc =>
    simp only [TaskOk, hc] at hok
    rw [hc] at hown
    obtain ⟨ts', hd⟩ | ⟨aux, -, hres⟩ | ⟨-, ⟨exc, hd⟩, -⟩ := hown
    · cases hd
    · simp only [resumeTask, hc, Option.some.injEq] at hres
      rw [← hres]
      exact .unfinished (by simpa [endTask] using hst) (some .cancelled) (by simp [endTask])
        hok.1.2.2.2
    · cases hd
  | unfinished _ exc hc hnf =>
    rw [hc] at hown
    obtain ⟨ts', hd⟩ | ⟨aux, -, hres⟩ | ⟨-, -, rfl⟩ := hown
    · cases hd
    · simp [resumeTask, hc] at hres
    · exact .unfinished (by simpa [setCleanup] using hst) exc (by simpa [setCleanup] using hc) hnf

theorem Doomed.lt (h : Doomed t s) (hi : Inv strict s) : t < s.nextTask := by
  refine hi.lt_of_obj fun ho => ?_
  cases h with
  | unreported hst => rw [ho] at hst; cases hst
  | pushing ts hc => rw [ho] at hc; cases hc
  | locking hc => rw [ho] at hc; cases hc
  | unfinished hst => rw [ho] at hst; cases hst

theorem Doomed.run (h : Doomed t s) (hi : Inv (fun _ => False) s) (hap : Apart s) :
    ∀ {es : List Event}, run step s es = some s' → Doomed t s' := by
  intro es
  induction es generalizing s with
  | nil => intro hr; cases hr; exact h
  | cons e es ih =>
    intro hr
    simp only [Transition.run] at hr
    split at hr
    · rename_i s₁ hs
      have hi₁ := (step_good hi (fun _ hf => hf.elim) hs).1
      refine ih ?_ hi₁ (hap.step hi hi₁ hs) hr
      by_cases he : e.task = some t
      · exact h.own hi hap hs he
      · exact h.elsewhere hi hap hs (h.lt hi) he
    · cases hr

/-! ## The whole run -/

/-- A run is harmless to `t` throughout, or dooms it. -/
theorem harmless_run (h : Settling t s) : ∀ {es : List Event},
    Allowed step (Provided t) s es → run step s es = some s' →
      Allowed step (Harmless t) s es ∧ Settling t s' ∨
        ¬Allowed step (Harmless t) s es ∧ Doomed t s' := by
  intro es
  induction es generalizing s with
  | nil => intro _ hr; cases hr; exact .inl ⟨trivial, h⟩
  | cons e es ih =>
    intro hp hr
    simp only [Transition.run] at hr
    split at hr
    · rename_i s₁ hs
      rw [allowed_cons hs] at hp ⊢
      by_cases hh : Harmless t s e
      · rcases ih (h.harmless hp.1 hh hs) hp.2 hr with ⟨hes, h'⟩ | ⟨hes, h'⟩
        · exact .inl ⟨⟨hh, hes⟩, h'⟩
        · exact .inr ⟨fun ha => hes ha.2, h'⟩
      · have hd := (h.harmless_or_doomed hp.1 hs).resolve_left hh
        have hi₁ := (step_good h.inv.weak (fun _ hf => hf.elim) hs).1
        exact .inr ⟨fun ha => hh ha.1, hd.run hi₁ (h.apart.step h.inv.weak hi₁ hs) hr⟩
    · cases hr

/-- A doomed task that has ended is not settled. -/
theorem Doomed.unsettled (h : Doomed t s) {exc : Option Exc} (hd : (s.obj t).task = .done exc) :
    ¬Settled t s := by
  intro hset
  cases h with
  | unreported _ h =>
    have hle : s.callbackCount (s.obj t).data ≤ s.held (s.obj t).data := by
      simp only [Executor.held, reported, callbackCount]
      omega
    have hone := hset.reported
    omega
  | pushing ts hc => rw [hc] at hd; cases hd
  | locking hc => rw [hc] at hd; cases hd
  | unfinished _ _ _ hnf =>
    have hone := hset.finished
    rw [List.count_eq_zero.mpr hnf] at hone
    cases hone

/-- In a run that does for `t` what it may expect of the manager and of the observers, once `t`
has begun and has ended it is settled if and only if every event of the run was harmless to it. -/
theorem outcome_settles {handler : String → Bool} {m : Int} {es : List Event}
    (hp : Allowed step (Provided t) (init handler m) es)
    (hr : run step (init handler m) es = some s) (hst : (s.obj t).started = true)
    {exc : Option Exc} (hd : (s.obj t).task = .done exc) :
    Settled t s ↔ Allowed step (Harmless t) (init handler m) es := by
  rcases harmless_run (settling_init handler m) hp hr with ⟨ha, h⟩ | ⟨ha, h⟩
  · obtain ⟨hfin, hleft, -, hcall⟩ := (h.rested hst hd).settled
    refine ⟨fun _ => ha, fun _ => ⟨hfin, hcall, hleft, fun hfree => ?_⟩⟩
    exact (h.inv.books.job _).lone hfree
  · exact ⟨fun hset => absurd hset (h.unsettled hd), fun h' => absurd h' ha⟩

/-- The event is none of those that `Provided` excludes. -/
def Event.obliging : Event → Bool
  | .stopCalled close => !close
  | .start _ aux | .handlerEnds _ _ aux | .resumeTask _ aux | .resumeCleanup _ aux =>
    aux.succeeded.isNone && aux.failed.isNone
  | _ => true

theorem provided_of_obliging (h : e.obliging = true) : Provided t s e where
  opened := by
    intro he
    subst he
    simp [Event.obliging] at h
  observers aux ha := by
    cases e <;> cases ha <;> simpa [Event.obliging] using h

/-- The handler of task 0 raises. -/
def errorRun : List Event :=
  [.runJob (serialJob 1), .start 0 .quiet, .handlerEnds 0 (.error (.exception [])) .quiet]

/-- `reset_handler` takes the handler away before the first step. -/
def handlerGone : List Event :=
  [.runJob (serialJob 1), .setHandler (fun _ => false), .start 0 .quiet, .resumeCleanup 0 .quiet]

/-- The log file cannot be opened. -/
def loggerFails : List Event :=
  [.runJob (serialJob 1), .start 0 { getLogger := some (.exception []) }, .resumeCleanup 0 .quiet]

/-- The log call of the `except` branch raises. -/
def errLogFails : List Event :=
  [.runJob (serialJob 1), .start 0 .quiet,
    .handlerEnds 0 (.error (.exception [])) { errLog := some (.exception []) },
    .resumeCleanup 0 .quiet]

/-- The handler calls `sys.exit()`. -/
def handlerExits : List Event :=
  [.runJob (serialJob 1), .start 0 .quiet, .handlerEnds 0 (.error .base) .quiet,
    .resumeCleanup 0 .quiet]

/-- The handler raises an `Exception` whose `__str__` raises. -/
def textFails : List Event :=
  [.runJob (serialJob 1), .start 0 .quiet,
    .handlerEnds 0 (.error (.unprintable (.exception []))) .quiet, .resumeCleanup 0 .quiet]

theorem provided_run {es : List Event} (h : ∀ e ∈ es, e.obliging = true) :
    Allowed step (Provided t) s es := .of_forall (fun e he _ => provided_of_obliging (h e he)) s

theorem errorRun_harmless : Allowed step (Harmless 0) (init (fun _ => true) 0) errorRun := by
  refine ⟨⟨?_, ?_, ?_, ?_⟩, fun s₁ h₁ => ?_⟩
  · rintro aux ⟨⟩
  · rintro res aux ⟨⟩
  · rintro aux ts ⟨⟩
  · exact fun _ => rfl
  cases h₁
  refine ⟨⟨?_, ?_, ?_, fun _ => rfl⟩, fun s₂ h₂ => ?_⟩
  · rintro aux ⟨⟩; exact ⟨rfl, rfl, fun e he => by cases he⟩
  · rintro res aux ⟨⟩
  · rintro aux ts ⟨⟩
  cases h₂
  refine ⟨⟨?_, ?_, ?_, fun _ => rfl⟩, fun _ _ => trivial⟩
  · rintro aux ⟨⟩
  · rintro res aux ⟨⟩; exact fun e he => by cases he; exact ⟨rfl, rfl⟩
  · rintro aux ts ⟨⟩

theorem outcome_settles_error : Settled 0 ((after errorRun).get rfl) :=
  (outcome_settles (provided_run (by decide)) rfl rfl
    (show (((after errorRun).get rfl).obj 0).task = .done none from rfl)).mpr errorRun_harmless

/-- A started task whose handler is gone or whose logger cannot be had keeps its job for ever and
is not reported; one that dies in an `except` branch, or of what none of them catches, is not
reported. -/
theorem outcome_unsettled :
    (∀ es ∈ [handlerGone, loggerFails, errLogFails, handlerExits, textFails],
      Allowed step (Provided 0) (init (fun _ => true) 0) es) ∧
    (∀ es ∈ [handlerGone, loggerFails], ∃ s exc, after es = some s ∧
      (s.obj 0).started = true ∧ (s.obj 0).task = .done exc ∧ (s.obj 0).cleanup = .ended ∧
        ¬Settled 0 s ∧ s.finished = [] ∧ s.tasks 1 = some 0 ∧ s.callbacks = []) ∧
    ∀ es ∈ [errLogFails, handlerExits, textFails], ∃ s exc, after es = some s ∧
      (s.obj 0).started = true ∧ (s.obj 0).task = .done exc ∧ (s.obj 0).cleanup = .ended ∧
        ¬Settled 0 s ∧ s.finished = [0] ∧ s.callbacks = [] := by
  refine ⟨fun es he => ?_, fun es he => ?_, fun es he => ?_⟩
  · have hall : ∀ es ∈ [handlerGone, loggerFails, errLogFails, handlerExits, textFails], ∀ e ∈ es,
        e.obliging = true := by decide
    exact provided_run (hall es he)
  · simp only [List.mem_cons, List.not_mem_nil, or_false] at he
    rcases he with rfl | rfl
    · exact ⟨_, _, rfl, rfl, rfl, rfl, fun h => absurd h.finished (by decide), rfl, rfl, rfl⟩
    · exact ⟨_, _, rfl, rfl, rfl, rfl, fun h => absurd h.finished (by decide), rfl, rfl, rfl⟩
  · simp only [List.mem_cons, List.not_mem_nil, or_false] at he
    rcases he with rfl | rfl | rfl
    · exact ⟨_, _, rfl, rfl, rfl, rfl, fun h => absurd h.reported (by decide), rfl, rfl⟩
    · exact ⟨_, _, rfl, rfl, rfl, rfl, fun h => absurd h.reported (by decide), rfl, rfl⟩
    · exact ⟨_, _, rfl, rfl, rfl, rfl, fun h => absurd h.reported (by decide), rfl, rfl⟩

end Executor
end Pyxxl
