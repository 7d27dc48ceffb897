import Pyxxl.Executor.Ledger
import Pyxxl.Executor.Order

/-!
# Pyxxl.Executor.Reports

The coroutine of a task hands over exactly one callback: `step_even` for every event, and from it
by induction the balance of a whole run.
-/

namespace Pyxxl
namespace Executor

open Transition

variable {strict : Nat → Prop} {s s' : Executor} {t n : Nat} {x : Trigger}

/-- What the logger and the observer do leaves the `except` branches one callback to send. -/
structure Aux.caught (aux : Aux) : Prop where
  startLog : ∀ e, aux.startLog = some e → e.reportable = true
  finishLog : ∀ e, aux.finishLog = some e → e.reportable = true
  errLog : aux.errLog = none
  succeeded : aux.succeeded = none

theorem Aux.caught_quiet : Aux.quiet.caught := ⟨by simp [quiet], by simp [quiet], rfl, rfl⟩

theorem Aux.caught.catches_startLog {aux : Aux} (h : aux.caught) {e : Exc}
    (he : aux.startLog = some e) : aux.catches e := ⟨h.startLog e he, h.errLog⟩

theorem Aux.caught.catches_finishLog {aux : Aux} (h : aux.caught) {e : Exc}
    (he : aux.finishLog = some e) : aux.catches e := ⟨h.finishLog e he, h.errLog⟩

/-- The task's last callback is out: `_finish` runs and the task object is moved on. -/
theorem held_finishLocked (hb : Books s) (ht : t < s.nextTask) (hnf : t ∉ s.finished)
    (f : XXLTask → XXLTask) (hf : owedTo x (f (s.obj t)) = 0) :
    ((s.finishLocked t).modTask t f).held x + owedTo x (s.obj t) = s.held x := by
  have hcur := hb.unfinished t ht hnf
  have hfin := finish_finishes hb hcur
  have hobj : (s.finishLocked t).obj t = s.obj t := hfin.obj_of_lt ht
  have hheld : (s.finishLocked t).held x = s.held x := held_finish (x := x) hb hcur
  have hlt : t < (s.finishLocked t).nextTask := Nat.lt_of_lt_of_le ht hfin.nextTask_le
  rw [← hheld, ← hobj]
  exact held_settle hlt f (by rw [hobj]; exact hf)

theorem held_endTask (ht : t < s.nextTask) (hs : (s.obj t).started = true) (e : Option Exc) :
    (s.endTask t e).held x + owedTo x (s.obj t) = s.held x :=
  held_settle ht _ (by simp [owedTo, owes, hs])

theorem held_cleanupTask (hb : Books s) (hr : Running s t) (exc : Option Exc) :
    (s.cleanupTask t exc).held x + owedTo x (s.obj t) = s.held x := by
  have hsame : SameBooks s ((s.markCleaned t).lockJob (s.obj t).data.jobId (.task t)) :=
    (SameBooks.markCleaned t).trans (.lockJob _ _)
  have hheld : ((s.markCleaned t).lockJob (s.obj t).data.jobId (.task t)).held x = s.held x :=
    (SameLedger.markCleaned (s := s) t).held
  have hobj : ((s.markCleaned t).lockJob (s.obj t).data.jobId (.task t)).obj t =
      { s.obj t with cleaned := true } := by simp [markCleaned, lockJob, modTask]
  have howed : owedTo x { s.obj t with cleaned := true } = owedTo x (s.obj t) := rfl
  simp only [cleanupTask, hr.cleaned, Bool.false_eq_true, if_false]
  split
  · have := held_finishLocked (x := x) (hb.congr hsame) hr.lt hr.unfinished
      (fun o => { o with task := .done exc, cleanup := .doneCallback })
      (by rw [hobj]; simp [owedTo, owes, hr.started])
    rw [hobj, howed, hheld] at this
    exact this
  · have := held_settle (x := x)
      (s := (s.markCleaned t).lockJob (s.obj t).data.jobId (.task t)) hr.lt
      (fun o => { o with task := .locking exc }) (by simp [owedTo, owes])
    rw [hobj, howed, hheld] at this
    exact this

theorem owedTo_of_owes {o : XXLTask} (h1 : owes o = 1) :
    owedTo x o = if o.data = x then 1 else 0 := by simp only [owedTo, h1]

/-- A coroutine that waits in `enqueue` still owes its callback. -/
theorem held_push (h1 : owes (s.obj t) = 1) {y : Trigger}
    {r r' : CallbackRequest} {inTry : Bool} (he : s.enqueue (.task t) y r = (s', false)) :
    (s'.setCoro t (.pushing inTry r')).held x = s.held x := by
  have hq := held_enqueue (x := x) he
  simp only [Bool.false_eq_true, false_and, if_false, Nat.add_zero] at hq
  rw [← hq]
  refine held_move _ fun y => ?_
  rw [(enqueue_same he).2, owedTo_of_owes h1]
  simp [owedTo, owes]

/-- The `except` branches report what they catch, unless what stands in them raises first. -/
theorem held_exceptBranch (hb : Books s) (hr : Running s t) (h1 : owes (s.obj t) = 1) (ts : Int)
    {e : Exc} {aux : Aux} (ha : (s.obj t).data = x → aux.catches e) :
    (s.exceptBranch t ts e aux).held x = s.held x := by
  have howed := owedTo_of_owes (x := x) h1
  unfold exceptBranch
  split
  · rename_i e' he'
    have hc := held_cleanupTask (x := x) hb hr (some e')
    have h0 : owedTo x (s.obj t) = 0 := by
      rw [howed, if_neg fun hx => ?_]
      obtain ⟨msg, hm⟩ := exceptMessage_ok (ha hx) (s.obj t)
      rw [hm] at he'
      cases he'
    omega
  · split
    · rename_i s' he
      obtain ⟨hsame, hobj⟩ := enqueue_same he
      have hc := held_cleanupTask (x := x) (hb.congr hsame) (hr.same hsame hobj) aux.failed
      have hq := held_enqueue (x := x) he
      simp only [true_and] at hq
      rw [hobj] at hc
      omega
    · rename_i s' he
      exact held_push h1 he

/-- After the code-200 callback, unless `succeeded_callback` raises. -/
theorem held_afterSuccess (hb : Books s) (hr : Running s t) (h1 : owes (s.obj t) = 1) (ts : Int)
    (aux : Aux) (ha : (s.obj t).data = x → aux.succeeded = none) :
    (s.afterSuccess t ts aux).held x + owedTo x (s.obj t) = s.held x := by
  unfold afterSuccess
  split
  · rename_i e he
    have hne : (s.obj t).data ≠ x := fun hx => by rw [ha hx] at he; cases he
    rw [owedTo_of_owes h1, if_neg hne]
    exact held_exceptBranch hb hr h1 ts fun hx => absurd hx hne
  · exact held_cleanupTask hb hr none

theorem held_handlerEnds (hb : Books s) (hr : Running s t) (h1 : owes (s.obj t) = 1) (ts : Int)
    (res : Except Exc PyVal) {aux : Aux}
    (ha : (s.obj t).data = x → aux.caught ∧ ∀ e, res = .error e → e.reportable = true) :
    (s.handlerEnds t ts res aux).held x = s.held x := by
  unfold handlerEnds
  split
  · exact held_exceptBranch hb hr h1 ts fun hx => ⟨(ha hx).2 _ rfl, (ha hx).1.errLog⟩
  · rename_i hl
    exact held_exceptBranch hb hr h1 ts fun hx => (ha hx).1.catches_finishLog hl
  · split
    · rename_i s' he
      obtain ⟨hsame, hobj⟩ := enqueue_same he
      have hc := held_afterSuccess (x := x) (hb.congr hsame) (hr.same hsame hobj)
        (by rw [hobj]; exact h1) ts aux (by rw [hobj]; exact fun hx => (ha hx).1.succeeded)
      have hq := held_enqueue (x := x) he
      have ho := owedTo_of_owes (x := x) h1
      simp only [true_and] at hq
      rw [hobj] at hc
      omega
    · rename_i s' he
      exact held_push h1 he

/-! No branch takes away what was reported before. -/

theorem le_held_exceptBranch (hb : Books s) (hr : Running s t) (h1 : owes (s.obj t) = 1) (ts : Int)
    (e : Exc) (aux : Aux) : s.held x ≤ (s.exceptBranch t ts e aux).held x + owedTo x (s.obj t) := by
  unfold exceptBranch
  split
  · rename_i e' _
    exact (held_cleanupTask hb hr (some e')).ge
  · split
    · rename_i s' he
      obtain ⟨hsame, hobj⟩ := enqueue_same he
      have hc := held_cleanupTask (x := x) (hb.congr hsame) (hr.same hsame hobj) aux.failed
      have hq := held_enqueue (x := x) he
      rw [hobj] at hc
      omega
    · rename_i s' he
      refine Nat.le_add_right_of_le (ge_of_eq ?_)
      exact held_push h1 he

theorem le_held_afterSuccess (hb : Books s) (hr : Running s t) (h1 : owes (s.obj t) = 1) (ts : Int)
    (aux : Aux) : s.held x ≤ (s.afterSuccess t ts aux).held x + owedTo x (s.obj t) := by
  unfold afterSuccess
  split
  · exact le_held_exceptBranch hb hr h1 ts _ aux
  · exact (held_cleanupTask hb hr none).ge

/-- What the task owes is sent, with the code 200 or, by the branch that catches the error, 500. -/
theorem le_held_handlerEnds (hb : Books s) (hr : Running s t) (h1 : owes (s.obj t) = 1) (ts : Int)
    (res : Except Exc PyVal) {aux : Aux} (hres : ∀ e, res = .error e → aux.catches e)
    (hlog : ∀ v e, res = .ok v → aux.finishLog = some e → aux.catches e) :
    s.held x ≤ (s.handlerEnds t ts res aux).held x := by
  unfold handlerEnds
  split
  · exact (held_exceptBranch hb hr h1 ts fun _ => hres _ rfl).ge
  · rename_i he
    exact (held_exceptBranch hb hr h1 ts fun _ => hlog _ _ rfl he).ge
  · split
    · rename_i s' he
      obtain ⟨hsame, hobj⟩ := enqueue_same he
      have hc := le_held_afterSuccess (x := x) (hb.congr hsame) (hr.same hsame hobj)
        (by rw [hobj]; exact h1) ts aux
      have hq := held_enqueue (x := x) he
      have ho := owedTo_of_owes (x := x) h1
      simp only [true_and] at hq
      rw [hobj] at hc
      omega
    · rename_i s' he
      exact (held_push h1 he).ge

/-- The first step, up to the `try`. -/
def entered (s : Executor) (t : Nat) : Executor :=
  (s.markStarted t).setCoro t (.inHandler (s.callbackTimestamp (s.obj t).data.data))

theorem entered_obj (s : Executor) (t : Nat) : (s.entered t).obj t =
    { s.obj t with
      started := true, task := .inHandler (s.callbackTimestamp (s.obj t).data.data) } := by
  simp [entered, markStarted, setCoro, modTask]

theorem entered_owes (s : Executor) (t : Nat) : owes ((s.entered t).obj t) = 1 := by
  rw [entered_obj]; simp [owes]

theorem held_entered {b : Bool} (hc : (s.obj t).task = .scheduled b) :
    (s.entered t).held x = s.held x := by
  refine (held_move _ fun y => ?_).trans
    (held_move (s := s) (t := t) (fun o => { o with started := true }) fun y => ?_)
  · simp [markStarted, modTask, owedTo, owes, hc]
  · simp [owedTo, owes, hc]

theorem held_startRun (hi : Inv strict s) (ht : t < s.nextTask) {b : Bool}
    (hc : (s.obj t).task = .scheduled b) {aux : Aux}
    (hlog : (s.obj t).data = x → aux.getLogger = none ∧ ∀ e, aux.startLog = some e → aux.catches e)
    (hreg : (s.obj t).data = x → s.handler (s.obj t).data.data.executorHandler = true) :
    (s.startRun t aux).held x = s.held x := by
  have hgood := enter_good hi ht hc (s.callbackTimestamp (s.obj t).data.data)
  have hr : Running (s.entered t) t := entered_running hi ht hc
  have hend : ∀ e : Option Exc, (s.obj t).data ≠ x →
      ((s.entered t).endTask t e).held x = s.held x := by
    intro e hne
    have := held_endTask (x := x) hr.lt hr.started e
    rw [owedTo_of_owes (entered_owes s t), entered_obj, if_neg hne, held_entered hc] at this
    exact this
  simp only [startRun]
  split
  · rename_i hh
    split
    · rename_i e _ hl
      exact hend _ fun hx => by rw [(hlog hx).1] at hl; cases hl
    · rename_i e hl hsl
      refine (held_exceptBranch hgood.1.books hr (entered_owes s t) _ fun hx => ?_).trans
        (held_entered hc)
      change ((s.entered t).obj t).data = x at hx
      rw [entered_obj] at hx
      exact (hlog hx).2 e hsl
    · exact held_entered hc
  · rename_i hh
    exact hend _ fun hx => hh (hreg hx)

theorem startRun_accepted (hc : (s.obj t).task = .scheduled false) (aux : Aux) :
    (s.startRun t aux).accepted = s.accepted := by
  cases startRun_delta aux hc with
  | same h => exact h.accepted
  | start u _ _ _ h => exact h.accepted
  | startFinish u _ s₁ _ _ _ h₁ h₂ =>
    rw [h₂.accepted, (finish_history s₁ u).2.1, h₁.accepted]
    rfl
  | finish u s₁ _ _ h₁ h₂ => rw [h₂.accepted, (finish_history s₁ u).2.1, h₁.accepted]
  | run _ _ _ hc => cases hc
  | queue _ _ _ hc => cases hc
  | cover _ _ _ hc => cases hc
  | drop _ _ hk => cases hk

/-- The event neither loses nor doubles the callback of task `t`. -/
def Event.reports (s : Executor) (t : Nat) : Event → Prop
  | .start _ aux => aux.getLogger = none ∧ aux.caught ∧
      s.handler (s.obj t).data.data.executorHandler = true
  | .handlerEnds _ res aux => aux.caught ∧ ∀ e, res = .error e → e.reportable = true
  | .resumeTask _ aux => aux.caught ∧ ∀ ts, (s.obj t).task ≠ .thrownPushing false ts
  | _ => True

theorem held_resumeTask (hi : Inv strict s) (ht : t < s.nextTask) {aux : Aux}
    (ha : (s.obj t).data = x → (Event.resumeTask t aux).reports s t)
    (hs : s.resumeTask t aux = some s') : s'.held x = s.held x := by
  have hok := hi.tasks t ht
  unfold resumeTask at hs
  split at hs
  · rename_i inTry r hc
    simp only [TaskOk, hc] at hok
    have hr : Running s t := ⟨ht, hok.1, hok.2.1, hok.2.2.1, hok.2.2.2⟩
    have hsame : SameBooks s (s.unlockWorker.put (s.obj t).data r) :=
      SameBooks.unlockWorker.trans (.put _ _)
    have h1 : owes (s.obj t) = 1 := by simp [owes, hc]
    have howed := owedTo_of_owes (x := x) h1
    have hput : (s.unlockWorker.put (s.obj t).data r).held x =
        s.held x + if (s.obj t).data = x then 1 else 0 := held_put (s := s.unlockWorker) _ r
    split at hs
    · cases inTry with
      | true =>
        cases hs
        have hafter := held_afterSuccess (x := x) (hi.books.congr hsame) (hr.same hsame rfl) h1
          r.timestamp aux fun hx => (ha hx).1.succeeded
        have ho : owedTo x ((s.unlockWorker.put (s.obj t).data r).obj t) = owedTo x (s.obj t) := rfl
        omega
      | false =>
        cases hs
        have hclean := held_cleanupTask (x := x) (hi.books.congr hsame) (hr.same hsame rfl)
          aux.failed
        have ho : owedTo x ((s.unlockWorker.put (s.obj t).data r).obj t) = owedTo x (s.obj t) := rfl
        omega
    · cases hs
  · rename_i inTry ts hc
    simp only [TaskOk, hc] at hok
    obtain ⟨hok, -⟩ := hok
    have hr : Running s t := ⟨ht, hok.1, hok.2.1, hok.2.2.1, hok.2.2.2⟩
    have h1 : owes (s.obj t) = 1 := by simp [owes, hc]
    cases inTry with
    | true =>
      cases hs
      exact held_exceptBranch hi.books hr h1 ts fun hx => ⟨rfl, (ha hx).1.errLog⟩
    | false =>
      cases hs
      have hclean := held_cleanupTask (x := x) hi.books hr (some .cancelled)
      rw [owedTo_of_owes h1, if_neg fun hx => (ha hx).2 ts hc] at hclean
      exact hclean
  · rename_i exc hc
    simp only [TaskOk, hc] at hok
    split at hs
    · cases hs
      have hfin := held_finishLocked (x := x) hi.books ht hok.2.2.2
        (fun o => { o with task := .done exc, cleanup := .doneCallback })
        (by simp [owedTo, owes, hok.1])
      have h0 : owedTo x (s.obj t) = 0 := by simp [owedTo, owes, hc]
      rw [h0] at hfin
      exact hfin
    · cases hs
  · rename_i hc
    simp only [TaskOk, hc] at hok
    cases hs
    have hend := held_endTask (x := x) ht hok.1.1 (some .cancelled)
    have h0 : owedTo x (s.obj t) = 0 := by simp [owedTo, owes, hc]
    rw [h0] at hend
    exact hend
  · cases hs

/-! ## Cleanup tasks -/

theorem held_cleanupPushed (hb : Books s) (ht : t < s.nextTask) (hc : Cleaning s t) (aux : Aux) :
    (s.cleanupPushed t aux).held x + owedTo x (s.obj t) = s.held x := by
  have he := hc.ended
  unfold cleanupPushed
  split
  · exact held_settle ht _ (by simp [owedTo, owes, he])
  · split
    · exact held_finishLocked (x := x) (hb.congr (.lockJob (s.obj t).data.jobId (.cleanup t))) ht
        hc.unfinished (fun o => { o with cleanup := .ended }) (by simp [owedTo, owes, lockJob, he])
    · exact held_settle (s := s.lockJob (s.obj t).data.jobId (.cleanup t)) ht _
        (by simp [owedTo, owes, lockJob, he])

theorem held_cleanupRun (hi : Inv strict s) (ht : t < s.nextTask)
    (hc : (s.obj t).cleanup = .scheduled) (aux : Aux) :
    (s.cleanupRun t aux).held x = s.held x := by
  have hok := hi.tasks t ht
  obtain ⟨exc, he⟩ := hok.ended (by rw [hc]; simp)
  simp only [TaskOk, he, hc] at hok
  obtain ⟨hst, hcl, hnf, rfl⟩ := hok
  have h1 : owes (s.obj t) = 1 := by simp [owes, he, hc]
  have hmark : (s.markCleaned t).held x = s.held x := (SameLedger.markCleaned t).held
  have hobj : (s.markCleaned t).obj t = { s.obj t with cleaned := true } := modTask_self
  have h1' : owes { s.obj t with cleaned := true } = 1 := h1
  have hcl₀ : Cleaning (s.markCleaned t) t := by
    refine ⟨?_, ?_, ?_, hnf⟩ <;> simp [markCleaned, he, hst]
  simp only [cleanupRun, hcl, Bool.false_eq_true, if_false]
  split
  · rename_i s' hs
    obtain ⟨hsame, hobj'⟩ := enqueue_same hs
    have hpush := held_cleanupPushed (x := x) (hi.books.congr ((SameBooks.markCleaned t).trans hsame))
      (by rw [hsame.nextTask]; exact ht) (hcl₀.same hsame (by rw [hobj'])) aux
    have hq := held_enqueue (x := x) hs
    simp only [true_and] at hq
    have ho : owedTo x (s'.obj t) = if (s.obj t).data = x then 1 else 0 := by
      rw [hobj', hobj]
      exact owedTo_of_owes h1'
    omega
  · rename_i s' hs
    have hq := held_enqueue (x := x) hs
    simp only [Bool.false_eq_true, false_and, if_false, Nat.add_zero] at hq
    rw [← hmark, ← hq]
    refine held_move _ fun y => ?_
    rw [(enqueue_same hs).2, hobj, owedTo_of_owes h1']
    simp [owedTo, owes, he]

theorem held_resumeCleanup (hi : Inv strict s) (ht : t < s.nextTask) {aux : Aux}
    (hs : s.resumeCleanup t aux = some s') : s'.held x = s.held x := by
  have hok := hi.tasks t ht
  unfold resumeCleanup at hs
  split at hs
  · rename_i hc
    split at hs
    · rename_i exc he
      cases hs
      simp only [TaskOk, he, hc] at hok
      unfold onExecutorTaskDone
      split
      · rename_i hcond
        -- a task that never began was cancelled, and has not been cleaned
        have hst : (s.obj t).started = true := by
          by_contra hst
          have := hok.1 (by simpa using hst)
          simp [this.1, this.2, hst] at hcond
        exact held_move _ fun y => by simp [owedTo, owes, he, hc, hst]
      · rename_i hcond
        simp only [not_or, Bool.not_eq_true] at hcond
        exact held_move _ fun y => by simp [owedTo, owes, he, hc, hcond.2.1]
    · cases hs
  · rename_i hc
    cases hs
    exact held_cleanupRun hi ht hc aux
  · rename_i r hc
    obtain ⟨exc, he⟩ := hok.ended (by rw [hc]; simp)
    simp only [TaskOk, he, hc] at hok
    split at hs
    · cases hs
      have hpush := held_cleanupPushed (x := x) (s := s.unlockWorker.put (s.obj t).data r)
        (hi.books.congr (SameBooks.unlockWorker.trans (.put _ _))) ht
        ⟨by rw [← hok.2.2.2]; exact he, hok.1, hok.2.1, hok.2.2.1⟩ aux
      have hput : (s.unlockWorker.put (s.obj t).data r).held x =
          s.held x + if (s.obj t).data = x then 1 else 0 := held_put (s := s.unlockWorker) _ r
      have ho : owedTo x ((s.unlockWorker.put (s.obj t).data r).obj t) =
          if (s.obj t).data = x then 1 else 0 := owedTo_of_owes (by
            show owes (s.obj t) = 1
            simp [owes, he, hc])
      omega
    · cases hs
  · rename_i hc
    obtain ⟨exc, he⟩ := hok.ended (by rw [hc]; simp)
    simp only [TaskOk, he, hc] at hok
    split at hs
    · cases hs
      have hfin := held_finishLocked (x := x) hi.books ht hok.2.2.1
        (fun o => { o with cleanup := .ended }) (by simp [owedTo, owes, he])
      have h0 : owedTo x (s.obj t) = 0 := by simp [owedTo, owes, he, hc]
      rw [h0] at hfin
      exact hfin
    · cases hs
  · cases hs
  · cases hs

/-! ## Every event -/

theorem step_even (hi : Inv strict s) {e : Event} (hs : step s e = some s')
    (ha : ∀ t, e.task = some t → (s.obj t).data = x → e.reports s t) : Even s s' x := by
  have htask : ∀ t, e.task = some t → t < s.nextTask := fun t he => task_lt hi hs he
  cases e with
  | runJob d => cases hs; exact even_runJob hi.books d
  | cancelJob j includeQueue reason => cases hs; exact even_cancelJob hi.books j includeQueue reason
  | resumeCall n =>
    simp only [step] at hs
    split at hs
    · rename_i hn; exact even_resumeCall hi.books hn hs
    · cases hs
  | start t aux =>
    simp only [step] at hs
    split at hs
    · rename_i ht
      cases hs
      refine even_of_held ?_ (startRun_accepted ht aux)
      exact held_startRun hi (htask t rfl) ht
        (fun hx => ⟨(ha t rfl hx).1, fun e => (ha t rfl hx).2.1.catches_startLog⟩)
        fun hx => (ha t rfl hx).2.2
    · cases hs
  | abort t =>
    simp only [step] at hs
    split at hs
    · rename_i ht
      cases hs
      have hok := hi.tasks t (htask t rfl)
      simp only [TaskOk, ht] at hok
      exact even_of_held (held_move _ fun y => by simp [owedTo, owes, ht, hok.1]) rfl
    · cases hs
  | handlerEnds t res aux =>
    simp only [step] at hs
    split at hs
    · rename_i ts ht
      cases hs
      exact even_of_held (held_handlerEnds hi.books (running_of_inHandler hi (htask t rfl) ht)
        (by simp [owes, ht]) ts res (ha t rfl)) (MayFinish.handlerEnds ..).accepted
    · cases hs
  | resumeTask t aux =>
    exact even_of_held (held_resumeTask hi (htask t rfl) (ha t rfl) hs)
      (MayFinish.resumeTask hs).accepted
  | resumeCleanup t aux =>
    exact even_of_held (held_resumeCleanup hi (htask t rfl) hs) (MayFinish.resumeCleanup hs).accepted
  | setHandler handler => cases hs; exact .refl
  | stopCalled close => cases hs; exact .refl
  | stopLock n => cases hs; exact .refl
  | stopUnlock n =>
    simp only [step] at hs
    split at hs
    · cases hs; exact .refl
    · cases hs
  | tick now => cases hs; exact .refl

end Executor
end Pyxxl
