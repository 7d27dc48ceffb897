import Pyxxl.Executor.Cover
import Pyxxl.Executor.Resting

/-!
# Pyxxl.Executor.Cancelled

A task that has started and is cancelled on its way, any number of times. As long as no `cancel()`
reaches it in an `except` branch of `_run` or at the job lock of `_cleanup_task`, it is finished
and reported exactly once (`started_settles`). One that is reached there loses its callback, or
never leaves its job (`cancelled_unsettled`).
-/

namespace Pyxxl
namespace Executor

open Transition

variable {strict : Nat → Prop} {s s' : Executor} {e : Event} {t : Nat} {x : Trigger}

theorem callbackCount_le (hs : step s e = some s') : s.callbackCount x ≤ s'.callbackCount x :=
  ((step_callbacks hs).map Prod.fst).sublist.count_le x

/-! ## The condition on the steps -/

/-- Nothing in the event keeps the report or `_finish` from `t` once it has started. -/
structure Unharmed (t : Nat) (s : Executor) (e : Event) : Prop where
  /-- The callback manager is not closed, unless the task has ended. -/
  opened : KeepsOpen s e ∨ t < s.nextTask ∧ ∃ exc, (s.obj t).task = .done exc
  /-- No `cancel()` reaches it in the `enqueue` of an `except` branch, or while it waits for the
  job lock in `_cleanup_task`. -/
  gentle : e.target s = some t → (s.obj t).task.pastHandler = false
  /-- When it starts, its handler is registered and its logger is there. -/
  begins : ∀ aux, e = .start t aux → aux.getLogger = none ∧ aux.caught ∧
    s.handler (s.obj t).data.data.executorHandler = true
  /-- What the handler raises is caught by a branch that has a text for it, and neither the report
  of an error nor `succeeded_callback` fails. -/
  ends : ∀ res aux, e = .handlerEnds t res aux →
    aux.caught ∧ ∀ exc, res = .error exc → exc.reportable = true
  resumes : ∀ aux, e = .resumeTask t aux → aux.caught

/-- Strict for `t` from its first step on. -/
def Begun (s : Executor) (t u : Nat) : Prop := u = t ∧ (s.obj u).started = true

theorem TaskOk.mono {strict strict' fin : Prop} {o : XXLTask} (h : TaskOk strict o fin)
    (hm : strict' → strict) : TaskOk strict' o fin := by
  unfold TaskOk at h ⊢
  split at h
  · exact h
  · exact h
  · exact h
  · exact ⟨h.1, fun hs => h.2 (hm hs)⟩
  · exact h
  · exact ⟨h.1, fun hs => h.2 (hm hs)⟩
  · split at h
    · exact h
    · exact ⟨h.1, h.2.1, fun hs => h.2.2 (hm hs)⟩
    · exact h
    · exact h
    · exact h
    · exact fun hs => h (hm hs)

theorem Inv.mono {strict' : Nat → Prop} (h : Inv strict s)
    (hm : ∀ u, u < s.nextTask → strict' u → strict u) : Inv strict' s :=
  ⟨h.books, fun u hu => (h.tasks u hu).mono (hm u hu), h.fresh⟩

theorem Inv.weak (h : Inv strict s) : Inv (fun _ => False) s := h.mono fun _ _ hf => hf.elim

/-- A task that begins in an event had not begun before, and the event is its own. -/
theorem begins_scheduled (hi : Inv strict s) (hs : step s e = some s')
    (h : (s.obj t).started = false) (h' : (s'.obj t).started = true) :
    t < s.nextTask ∧ e.task = some t ∧ ∃ b, (s.obj t).task = .scheduled b := by
  have hlt : t < s.nextTask := by
    by_contra hge
    rcases step_new hi hs (Nat.le_of_not_lt hge) with ho | ⟨y, ho⟩
    · rw [ho] at h'; cases h'
    · rw [ho] at h'; cases h'
  have hown : e.task = some t := by
    by_contra he
    rcases step_obj hi.books hs hlt he with ho | ⟨-, reason, ho⟩
    · rw [ho, h] at h'; cases h'
    · simp [ho, killed, h] at h'
  refine ⟨hlt, hown, ?_⟩
  have hok := hi.tasks t hlt
  cases hc : (s.obj t).task with
  | scheduled b => exact ⟨b, rfl⟩
  | done exc =>
    cases e with
    | resumeCleanup u aux =>
      cases hown
      rw [(MayFinish.resumeCleanup hs).begun hlt, h] at h'
      cases h'
    | start u aux => cases hown; simp [step, hc] at hs
    | abort u => cases hown; simp [step, hc] at hs
    | handlerEnds u res aux => cases hown; simp [step, hc] at hs
    | resumeTask u aux => cases hown; simp [step, resumeTask, hc] at hs
    | _ => cases hown
  | inHandler ts => simp only [TaskOk, hc, h] at hok; exact absurd hok.1 (by simp)
  | pushing inTry r => simp only [TaskOk, hc, h] at hok; exact absurd hok.1 (by simp)
  | thrownPushing inTry ts => simp only [TaskOk, hc, h] at hok; exact absurd hok.1.1 (by simp)
  | locking exc => simp only [TaskOk, hc, h] at hok; exact absurd hok.1 (by simp)
  | thrownLocking => simp only [TaskOk, hc, h] at hok; exact absurd hok.1.1 (by simp)

/-- A step that leaves `t` begun keeps the invariant in its strict form for `t`. -/
theorem begun_step (hi : Inv (Begun s t) s) (hu : Unharmed t s e) (hs : step s e = some s') :
    Inv (Begun s' t) s' := by
  by_cases hst' : (s'.obj t).started = true
  · have hstrict : Inv (fun u => u = t) s := by
      by_cases hst : (s.obj t).started = true
      · exact hi.mono fun u _ he => ⟨he, he ▸ hst⟩
      · obtain ⟨hlt, -, b, hc⟩ := begins_scheduled hi hs (by simpa using hst) hst'
        refine ⟨hi.books, fun u hlt => ?_, hi.fresh⟩
        by_cases he : u = t
        · subst he
          have hok := hi.tasks u hlt
          simp only [TaskOk, hc] at hok ⊢
          exact hok
        · exact (hi.tasks u hlt).mono fun h => absurd h he
    have hcare : ∀ u, u = t → Careful s e u := by
      rintro u rfl
      refine ⟨hu.gentle, fun aux he => ?_, fun aux he hst => ?_⟩
      · obtain ⟨h1, -, h3⟩ := hu.begins aux he
        exact ⟨h1, h3⟩
      · subst he
        rw [(MayFinish.resumeCleanup hs).begun (task_lt hi hs rfl), hst] at hst'
        cases hst'
    exact (step_good hstrict hcare hs).1.mono fun u _ hu => hu.1
  · have hweak : Inv (fun _ => False) s := hi.mono fun _ _ hf => hf.elim
    refine (step_good hweak (fun _ hf => hf.elim) hs).1.mono fun u _ hu => ?_
    obtain ⟨rfl, hst⟩ := hu
    exact hst' hst

theorem Unharmed.reports (hu : Unharmed t s e) (hi : Inv (Begun s t) s) (he : e.task = some t)
    (hs : step s e = some s') : e.reports s t := by
  cases e with
  | start u aux => cases he; exact hu.begins aux rfl
  | handlerEnds u res aux => cases he; exact hu.ends res aux rfl
  | resumeTask u aux =>
    cases he
    refine ⟨hu.resumes aux rfl, fun ts hc => ?_⟩
    have hok := hi.tasks t (task_lt hi hs rfl)
    simp only [TaskOk, hc] at hok
    exact absurd (hok.2 ⟨rfl, hok.1.1⟩) (by simp)
  | _ => exact trivial

/-! ## What holds of the task -/

/-- The state of a run that does `t` no harm. -/
structure Settling (t : Nat) (s : Executor) : Prop where
  inv : Inv (Begun s t) s
  codes : Codes s
  apart : Apart s
  balance : Balanced s
  /-- Once `t` has begun, its trigger is in one place. -/
  one : t < s.nextTask → (s.obj t).started = true → s.held (s.obj t).data = 1
  /-- Once `t` owes no callback any more, there is one. -/
  paid : t < s.nextTask → (s.obj t).started = true → owes (s.obj t) = 0 →
    0 < s.callbackCount (s.obj t).data

theorem settling_init (handler : String → Bool) (m : Int) : Settling t (init handler m) where
  inv := inv_init handler m
  codes := codes_init handler m
  apart := apart_init handler m
  balance _ _ := rfl
  one ht := absurd ht (Nat.not_lt_zero t)
  paid ht := absurd ht (Nat.not_lt_zero t)

theorem Apart.owed (h : Apart s) (ht : t < s.nextTask) :
    s.owed (s.obj t).data = owes (s.obj t) := by
  have hrest : ∀ u, u < s.nextTask → u ≠ t → owedTo (s.obj t).data (s.obj u) = 0 := by
    intro u hu hne
    exact if_neg fun he => hne (h.inj u t hu ht he)
  rw [Executor.owed, tally_single _ ht hrest, owedTo, if_pos rfl]

theorem Apart.held (h : Apart s) (hc : Codes s) (ht : t < s.nextTask) :
    s.held (s.obj t).data =
      s.callbackCount (s.obj t).data + s.drained (s.obj t).data + owes (s.obj t) := by
  have hp := List.count_eq_zero.mpr (h.pending t ht)
  simp only [Executor.held, reported, hc.undropped, List.map_nil, List.count_nil,
    h.owed ht, callbackCount]
  omega

/-- An event keeps the trigger of `t` where it is, or moves it on. -/
theorem Apart.held_step (h : Apart s) (hi : Inv strict s) (hs : Executor.step s e = some s')
    (ht : t < s.nextTask) (hr : e.task = some t → e.reports s t) :
    s'.held (s.obj t).data = s.held (s.obj t).data := by
  have heven := step_even (x := (s.obj t).data) hi hs fun u hown hd => by
    obtain rfl := h.inj u t (task_lt hi hs hown) ht hd
    exact hr hown
  have hi' := (step_good hi.weak (fun _ hf => hf.elim) hs).1
  have hknown := h.known t ht
  have hc := List.count_eq_one_of_mem (accepted_nodup hi.books) hknown
  have hc' := List.count_eq_one_of_mem (accepted_nodup hi'.books) (step_accepted hi hs hknown)
  unfold Even at heven
  omega

theorem owes_killed (reason : PyStr) (o : XXLTask) : owes (killed reason o) = owes o := by
  cases hc : o.task <;> simp [owes, killed, Coro.cancelled, hc]

theorem Settling.held_one (h : Settling t s) (ht : t < s.nextTask) :
    s.held (s.obj t).data = 1 := by
  by_cases hst : (s.obj t).started = true
  · exact h.one ht hst
  · rw [h.balance _ (h.apart.unstarted ht (by simpa using hst))]
    exact List.count_eq_one_of_mem (accepted_nodup h.inv.books) (h.apart.known t ht)

theorem Settling.step (h : Settling t s) (ho : KeepsOpen s e) (hu : Unharmed t s e)
    (hs : step s e = some s') : Settling t s' := by
  have hi' := begun_step h.inv hu hs
  have hcodes := h.codes.step h.inv ho hs
  have hap := h.apart.step h.inv.weak hi'.weak hs
  -- a task that has begun was there before the event
  have hlt : (s'.obj t).started = true → t < s.nextTask := by
    intro hst'
    by_contra hge
    rcases step_new h.inv hs (Nat.le_of_not_lt hge) with ho | ⟨y, ho⟩
    · rw [ho] at hst'; cases hst'
    · rw [ho] at hst'; cases hst'
  have hone : t < s'.nextTask → (s'.obj t).started = true → s'.held (s'.obj t).data = 1 := by
    intro ht' hst'
    have ht := hlt hst'
    rw [(step_keeps h.inv hs ht).1, h.apart.held_step h.inv hs ht fun hown =>
      hu.reports h.inv hown hs]
    exact h.held_one ht
  refine ⟨hi', hcodes, hap, h.balance.step h.inv.weak hi'.weak hs, hone, fun ht' hst' hw' => ?_⟩
  have ht := hlt hst'
  have hdata := (step_keeps h.inv hs ht).1
  have hheld := h.apart.held h.codes ht
  have hheld' := hap.held hcodes ht'
  have hle := callbackCount_le (x := (s.obj t).data) hs
  rw [hone ht' hst', hdata] at hheld'
  rw [h.held_one ht] at hheld
  rw [hdata]
  by_cases hown : e.task = some t
  · -- the event is the task's own: what it owed is paid by a callback, for no call has changed
    have hdrained : s'.drained (s.obj t).data = s.drained (s.obj t).data := by
      obtain ⟨hcall, hnext⟩ := (step_acts hs hown).calls
      simp only [drained, hcall, hnext]
    by_cases hst : (s.obj t).started = true
    · by_cases hw : owes (s.obj t) = 0
      · have := h.paid ht hst hw
        omega
      · omega
    · obtain ⟨-, -, b, hc⟩ := begins_scheduled h.inv hs (by simpa using hst) hst'
      have hw : owes (s.obj t) = 1 := by simp [owes, hc]
      omega
  · have hsame : (s'.obj t).started = (s.obj t).started ∧ owes (s'.obj t) = owes (s.obj t) := by
      rcases step_obj h.inv.books hs ht hown with ho | ⟨-, reason, ho⟩
      · rw [ho]; exact ⟨rfl, rfl⟩
      · rw [ho]; exact ⟨rfl, owes_killed ..⟩
    rw [hsame.1] at hst'
    rw [hsame.2] at hw'
    have := h.paid ht hst' hw'
    omega

/-! ## The end of the task -/

/-- `t` has begun and ended, and has its report and its `_finish` behind it. -/
structure Rested (t : Nat) (s : Executor) : Prop where
  inv : Inv (fun _ => False) s
  apart : Apart s
  lt : t < s.nextTask
  started : (s.obj t).started = true
  ended : (s.obj t).cleanup ≠ .idle
  finished : t ∈ s.finished
  one : s.held (s.obj t).data = 1
  paid : 0 < s.callbackCount (s.obj t).data

theorem Settling.rested (h : Settling t s) (hst : (s.obj t).started = true) {exc : Option Exc}
    (hd : (s.obj t).task = .done exc) : Rested t s := by
  have ht : t < s.nextTask := h.inv.lt_of_obj fun ho => by rw [ho] at hst; cases hst
  have hok := h.inv.tasks t ht
  have hidle := hok.not_idle hd
  have hw : owes (s.obj t) = 0 := by
    simp only [TaskOk, hd] at hok
    simp only [owes, hd]
    split at hok <;> simp_all
  refine ⟨h.inv.weak, h.apart, ht, hst, hidle, ?_, h.one ht hst, h.paid ht hst hw⟩
  simp only [TaskOk, hd] at hok
  split at hok
  · exact hok.elim
  · exact hok.2.2 ⟨rfl, hst⟩ hst
  · rw [hok.1] at hst; cases hst
  · rw [hok.1] at hst; cases hst
  · rw [hok.1] at hst; cases hst
  · exact hok ⟨rfl, hst⟩

/-- No event takes anything of that away. -/
theorem Rested.step (h : Rested t s) (hs : step s e = some s') : Rested t s' := by
  have hi' := (step_good h.inv (fun _ hf => hf.elim) hs).1
  obtain ⟨exc, hd⟩ := (h.inv.tasks t h.lt).ended h.ended
  obtain ⟨hdata, hbegun⟩ := step_keeps h.inv hs h.lt
  -- what the task itself may still do is to look at its end
  have hreports : e.task = some t → e.reports s t := by
    intro he
    cases e with
    | start u aux => cases he; simp [Executor.step, hd] at hs
    | handlerEnds u res aux => cases he; simp [Executor.step, hd] at hs
    | resumeTask u aux => cases he; simp [Executor.step, resumeTask, hd] at hs
    | _ => exact trivial
  have hfin : t ∈ s'.finished := by
    rcases step_finished h.inv hi' hs with hf | ⟨u, -, hf, -⟩
    · rw [hf]; exact h.finished
    · rw [hf]; exact List.mem_append_left _ h.finished
  refine ⟨hi', h.apart.step h.inv hi' hs, ?_, hbegun h.started, ?_, hfin, ?_, ?_⟩
  · exact Nat.lt_of_lt_of_le h.lt (step_nextTask h.inv.books hs)
  · exact step_ended h.inv h.lt h.ended hs
  · rw [hdata, h.apart.held_step h.inv hs h.lt hreports]
    exact h.one
  · rw [hdata]
    exact Nat.lt_of_lt_of_le h.paid (callbackCount_le hs)

theorem Rested.settled (h : Rested t s) :
    s.finished.count t = 1 ∧ s.tasks (s.obj t).data.jobId ≠ some t ∧
      (s.obj t).data ∉ s.line (s.obj t).data.jobId ∧ s.callbackCount (s.obj t).data = 1 := by
  have hcur : s.tasks (s.obj t).data.jobId ≠ some t := fun hc =>
    ((h.inv.books.job _).current t hc).2.2 h.finished
  have hline : (s.obj t).data ∉ s.line (s.obj t).data.jobId := by
    rw [line, List.mem_append, not_or]
    refine ⟨fun hm => ?_, h.apart.pending t h.lt⟩
    cases hu : s.tasks (s.obj t).data.jobId with
    | none => simp [current, hu] at hm
    | some u =>
      simp only [current, hu, List.mem_singleton] at hm
      have hlt := h.inv.books.tasks_lt hu
      exact hcur (by rw [h.apart.inj t u h.lt hlt hm]; rw [← hm]; exact hu)
  refine ⟨List.count_eq_one_of_mem h.inv.books.once h.finished, hcur, hline, ?_⟩
  have hle : s.callbackCount (s.obj t).data ≤ s.held (s.obj t).data := by
    simp only [Executor.held, reported, callbackCount]
    omega
  have hone := h.one
  have hpaid := h.paid
  omega

/-- Where `t` stands in a run that does it no harm: before its end, after it, or dead before its
first step. -/
inductive Fares (t : Nat) (s : Executor) : Prop where
  | settling (h : Settling t s) (hd : ¬(t < s.nextTask ∧ ∃ exc, (s.obj t).task = .done exc))
  | rested (h : Rested t s)
  | unbegun (hi : Inv (fun _ => False) s) (ht : t < s.nextTask)
      (hst : (s.obj t).started = false) (hd : (s.obj t).cleanup ≠ .idle)

theorem Settling.fares (h : Settling t s) : Fares t s := by
  by_cases hd : t < s.nextTask ∧ ∃ exc, (s.obj t).task = .done exc
  · obtain ⟨ht, exc, hd⟩ := hd
    by_cases hst : (s.obj t).started = true
    · exact .rested (h.rested hst hd)
    · exact .unbegun h.inv.weak ht (by simpa using hst) ((h.inv.tasks t ht).not_idle hd)
  · exact .settling h hd

theorem Fares.step (h : Fares t s) (hu : Unharmed t s e) (hs : step s e = some s') :
    Fares t s' := by
  cases h with
  | settling h hd => exact (h.step (hu.opened.resolve_right hd) hu hs).fares
  | rested h => exact .rested (h.step hs)
  | unbegun hi ht hst hd =>
    refine .unbegun (step_good hi (fun _ hf => hf.elim) hs).1
      (Nat.lt_of_lt_of_le ht (step_nextTask hi.books hs)) ?_ (step_ended hi ht hd hs)
    by_contra hst'
    obtain ⟨exc, hdone⟩ := (hi.tasks t ht).ended hd
    obtain ⟨-, -, b, hc⟩ := begins_scheduled hi hs hst (by simpa using hst')
    rw [hdone] at hc
    cases hc

/-- A task that has begun and ended is past all harm. -/
theorem Fares.rest (h : Fares t s) (hst : (s.obj t).started = true) {exc : Option Exc}
    (hd : (s.obj t).task = .done exc) : Rested t s := by
  cases h with
  | settling h hd' =>
    have ht : t < s.nextTask := h.inv.lt_of_obj fun ho => by rw [ho] at hst; cases hst
    exact absurd ⟨ht, exc, hd⟩ hd'
  | rested h => exact h
  | unbegun _ _ hst' => rw [hst] at hst'; cases hst'

/-- In a run that does `t` no harm in the sense of `Unharmed`, however often and wherever else it
is cancelled: once `t` has begun and its coroutine has ended, `_finish` has run for it exactly
once, it is not the current task of its job, its trigger has left the books and its log id with
it, and exactly one callback was enqueued for it. -/
theorem started_settles (h : Reachable (Unharmed t) s) (hst : (s.obj t).started = true)
    {exc : Option Exc} (hd : (s.obj t).task = .done exc) :
    s.finished.count t = 1 ∧ s.tasks (s.obj t).data.jobId ≠ some t ∧
      (s.obj t).data ∉ s.line (s.obj t).data.jobId ∧
      ((s.obj t).data.logId ∈ s.jobLogIds (s.obj t).data.jobId →
        ∃ y ∈ s.line (s.obj t).data.jobId, y ≠ (s.obj t).data ∧ y.logId = (s.obj t).data.logId) ∧
      s.callbackCount (s.obj t).data = 1 := by
  have hrest : Rested t s := by
    obtain ⟨handler, m, hr⟩ := h
    exact (hr.invariant (P := Fares t) (fun _ _ _ hi hu hs => hi.step hu hs)
      (settling_init handler m).fares).rest hst hd
  obtain ⟨hfin, hcur, hline, hcall⟩ := hrest.settled
  refine ⟨hfin, hcur, hline, fun hl => ?_, hcall⟩
  rw [← hrest.inv.books.holds_iff, holds_iff_line] at hl
  obtain ⟨y, hy, hl⟩ := hl
  exact ⟨y, hy, fun he => hline (he ▸ hy), hl⟩

/-! ## Where the cancellation does harm -/

/-- Nothing fails in the event, no handler is touched and the manager is not closed. -/
def Event.undisturbed : Event → Bool
  | .handlerEnds _ (.error exc) aux => exc.reportable && aux = .quiet
  | .handlerEnds _ (.ok _) aux => aux = .quiet
  | .start _ aux | .resumeTask _ aux | .resumeCleanup _ aux => aux = .quiet
  | .setHandler _ => false
  | .stopCalled close => !close
  | _ => true

/-- Task 0 is cancelled twice while its handler runs. -/
def twiceCancelled : List Event :=
  [.runJob (coverJob 1), .start 0 .quiet, .runJob (coverJob 2), .cancelJob 1 false [],
    .handlerEnds 0 (.error .cancelled) .quiet]

/-- Task 0 is cancelled in the `enqueue` of the branch that reports its error. -/
def callbackLost : List Event :=
  [.runJob (coverJob 1), .start 0 .quiet, .stopLock 0, .handlerEnds 0 (.error (.exception [])) .quiet,
    .cancelJob 1 true [], .resumeTask 0 .quiet]

/-- Task 0 is cancelled at the job lock: call 2, a `COVER_EARLY`, held it while it pushed the
failure of the queued trigger, and call 3, the `cancel_job`, came next. -/
def finishLost : List Event :=
  [.runJob (coverJob 1), .start 0 .quiet, .runJob (serialJob 2), .stopLock 0, .runJob (coverJob 3),
    .handlerEnds 0 (.error .cancelled) .quiet, .cancelJob 1 true [], .stopUnlock 0, .resumeCall 2,
    .resumeTask 0 .quiet, .resumeCall 3, .resumeTask 0 .quiet]

theorem Unharmed.of_call (he : e.task = none) (ho : KeepsOpen s e)
    (h : (s.obj t).task.pastHandler = false) : Unharmed t s e where
  opened := .inl ho
  gentle _ := h
  begins aux hs := by rw [hs] at he; cases he
  ends res aux hs := by rw [hs] at he; cases he
  resumes aux hs := by rw [hs] at he; cases he

theorem twiceCancelled_unharmed :
    Allowed step (Unharmed 0) (init (fun _ => true) 0) twiceCancelled := by
  have hopen : ∀ e ∈ twiceCancelled, ∀ s, KeepsOpen s e := by
    intro e he s hc
    subst hc
    simp [twiceCancelled] at he
  refine ⟨.of_call rfl (hopen _ (by simp [twiceCancelled]) _) rfl, fun s₁ h₁ => ?_⟩
  cases h₁
  refine ⟨⟨.inl (hopen _ (by simp [twiceCancelled]) _), fun _ => rfl, ?_, ?_, ?_⟩, fun s₂ h₂ => ?_⟩
  · rintro aux ⟨⟩; exact ⟨rfl, Aux.caught_quiet, rfl⟩
  · rintro res aux ⟨⟩
  · rintro aux ⟨⟩
  cases h₂
  refine ⟨.of_call rfl (hopen _ (by simp [twiceCancelled]) _) rfl, fun s₃ h₃ => ?_⟩
  cases h₃
  refine ⟨.of_call rfl (hopen _ (by simp [twiceCancelled]) _) rfl, fun s₄ h₄ => ?_⟩
  cases h₄
  refine ⟨⟨.inl (hopen _ (by simp [twiceCancelled]) _), fun _ => rfl, ?_, ?_, ?_⟩, fun _ _ => trivial⟩
  · rintro aux ⟨⟩
  · rintro res aux ⟨⟩; exact ⟨Aux.caught_quiet, fun exc he => by cases he; rfl⟩
  · rintro aux ⟨⟩

def twiceCancelledState : Executor := (after twiceCancelled).get rfl

/-- Cancelled twice in its handler, the task is still finished and reported once. -/
theorem started_settles_twice :
    twiceCancelledState.finished.count 0 = 1 ∧ twiceCancelledState.tasks 1 ≠ some 0 ∧
      ⟨0, coverJob 1⟩ ∉ twiceCancelledState.line 1 ∧
      (1 ∈ twiceCancelledState.jobLogIds 1 → ∃ y ∈ twiceCancelledState.line 1,
        y ≠ ⟨0, coverJob 1⟩ ∧ y.logId = 1) ∧
      twiceCancelledState.callbackCount ⟨0, coverJob 1⟩ = 1 :=
  started_settles (t := 0) (reachable_after twiceCancelled twiceCancelled_unharmed rfl) rfl
    (show (twiceCancelledState.obj 0).task = .done none from rfl)

/-- A `cancel()` of a started task whose error is being reported loses the report; one that finds
it at the job lock leaves it the current task of its job for ever. -/
theorem cancelled_unsettled :
    (∃ s, Reachable (fun _ e => e.undisturbed = true) s ∧ (s.obj 0).started = true ∧
      (s.obj 0).task = .done (some .cancelled) ∧ s.callbackCount (s.obj 0).data = 0) ∧
    ∃ s, Reachable (fun _ e => e.undisturbed = true) s ∧ (s.obj 0).started = true ∧
      (s.obj 0).task = .done (some .cancelled) ∧ 0 ∉ s.finished ∧ s.tasks 1 = some 0 := by
  have hlost : ∀ e ∈ callbackLost, e.undisturbed = true := by decide
  have hstuck : ∀ e ∈ finishLost, e.undisturbed = true := by decide
  exact ⟨⟨_, reachable_after callbackLost (.of_forall (fun e he _ => hlost e he) _) rfl, rfl,
    rfl, rfl⟩, _, reachable_after finishLost (.of_forall (fun e he _ => hstuck e he) _) rfl, rfl, rfl,
    List.not_mem_nil, rfl⟩

end Executor
end Pyxxl
