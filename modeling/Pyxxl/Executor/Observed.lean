import Pyxxl.Executor.Observers
import Pyxxl.Executor.Outcomes

/-!
# Pyxxl.Executor.Observed

Which observers an event calls, in the order it calls them.

* `Event.calls`: follows the code of `_run` and `_cleanup_task` up to the next suspension.
* `step_uncalled`: an observer that is not called has no part in the event.
* `calls_owed`: where nothing goes wrong (`Harmless`), a task calls an observer in the event in
  which it hands over its callback.
-/

namespace Pyxxl
namespace Executor

variable {strict : Nat → Prop} {s s' : Executor} {e : Event} {t : Nat}

inductive Observer where
  | succeededCallback
  | failedCallback
  deriving DecidableEq

/-- In the `except` branches. -/
def exceptCalls (s : Executor) (t : Nat) (e : Exc) (aux : Aux) : List Observer :=
  match exceptMessage (s.obj t) e aux with
  | .ok _ => if s.closed || s.workerLock.isEmpty then [.failedCallback] else []
  | .error _ => []

def afterSuccessCalls (s : Executor) (t : Nat) (aux : Aux) : List Observer :=
  match aux.succeeded with
  | some e => .succeededCallback :: s.exceptCalls t e aux
  | none => [.succeededCallback]

def handlerEndsCalls (s : Executor) (t : Nat) (res : Except Exc PyVal) (aux : Aux) :
    List Observer :=
  match res, aux.finishLog with
  | .error e, _ => s.exceptCalls t e aux
  | .ok _, some e => s.exceptCalls t e aux
  | .ok _, none => if s.closed || s.workerLock.isEmpty then s.afterSuccessCalls t aux else []

def startRunCalls (s : Executor) (t : Nat) (aux : Aux) : List Observer :=
  if s.handler (s.obj t).data.data.executorHandler then
    match aux.getLogger, aux.startLog with
    | none, some e => s.exceptCalls t e aux
    | _, _ => []
  else []

def resumeTaskCalls (s : Executor) (t : Nat) (aux : Aux) : List Observer :=
  match (s.obj t).task with
  | .pushing true _ => s.unlockWorker.afterSuccessCalls t aux
  | .pushing false _ => [.failedCallback]
  | .thrownPushing true _ => s.exceptCalls t .cancelled aux
  | _ => []

def resumeCleanupCalls (s : Executor) (t : Nat) : List Observer :=
  match (s.obj t).cleanup with
  | .scheduled =>
    if !(s.obj t).cleaned && (s.closed || s.workerLock.isEmpty) then [.failedCallback] else []
  | .pushing _ => [.failedCallback]
  | _ => []

def Event.calls (s : Executor) : Event → List Observer
  | .start t aux => s.startRunCalls t aux
  | .handlerEnds t res aux => s.handlerEndsCalls t res aux
  | .resumeTask t aux => s.resumeTaskCalls t aux
  | .resumeCleanup t _ => s.resumeCleanupCalls t
  | _ => []

/-- How each observer ends, if it is called. -/
def Aux.answer (f : Observer → Option Exc) (aux : Aux) : Aux :=
  { aux with succeeded := f .succeededCallback, failed := f .failedCallback }

def Event.answer (f : Observer → Option Exc) : Event → Event
  | .start t aux => .start t (aux.answer f)
  | .handlerEnds t res aux => .handlerEnds t res (aux.answer f)
  | .resumeTask t aux => .resumeTask t (aux.answer f)
  | .resumeCleanup t aux => .resumeCleanup t (aux.answer f)
  | e => e

/-! ## Who is not called has no part in it -/

theorem enqueue_returns (s : Executor) (p : Pid) (x : Trigger) (r : CallbackRequest) :
    (s.enqueue p x r).2 = (s.closed || s.workerLock.isEmpty) := by
  unfold enqueue
  split
  · rename_i hc; simp [hc]
  · rename_i hc
    split
    · rename_i hw; simp [hw]
    · rename_i hw; simp [hc, hw]

theorem exceptBranch_uncalled {f g : Observer → Option Exc} (ts : Int) (e : Exc) (aux : Aux)
    (h : ∀ o ∈ s.exceptCalls t e (aux.answer f), f o = g o) :
    s.exceptBranch t ts e (aux.answer f) = s.exceptBranch t ts e (aux.answer g) := by
  have hmsg : ∀ f, exceptMessage (s.obj t) e (aux.answer f) = exceptMessage (s.obj t) e aux :=
    fun _ => by cases e <;> rfl
  simp only [exceptBranch, exceptCalls, hmsg] at h ⊢
  cases hm : exceptMessage (s.obj t) e aux with
  | error e' => rfl
  | ok msg =>
    simp only [hm, ← enqueue_returns s (.task t) (s.obj t).data
      (callbackRequest (s.obj t).data ts 500 (.str msg))] at h ⊢
    cases he : s.enqueue (.task t) (s.obj t).data
        (callbackRequest (s.obj t).data ts 500 (.str msg)) with
    | mk s' b =>
      cases b with
      | false => rfl
      | true =>
        have hf : (aux.answer f).failed = (aux.answer g).failed :=
          h .failedCallback (by simp [he])
        simp only [hf]

theorem afterSuccess_uncalled {f g : Observer → Option Exc} (ts : Int) (aux : Aux)
    (h : ∀ o ∈ s.afterSuccessCalls t (aux.answer f), f o = g o) :
    s.afterSuccess t ts (aux.answer f) = s.afterSuccess t ts (aux.answer g) := by
  have hsucc : f .succeededCallback = g .succeededCallback := by
    refine h _ ?_
    unfold afterSuccessCalls
    split <;> simp
  have hf : (aux.answer f).succeeded = f .succeededCallback := rfl
  have hg : (aux.answer g).succeeded = f .succeededCallback := hsucc.symm
  simp only [afterSuccess, hf, hg]
  cases he : f .succeededCallback with
  | none => rfl
  | some e =>
    refine exceptBranch_uncalled ts e aux fun o hm => h o ?_
    simp only [afterSuccessCalls, hf, he]
    exact List.mem_cons_of_mem _ hm

/-- What `enqueue` does when it returns is not seen by the branch that follows. -/
theorem enqueue_exceptCalls {p : Pid} {x : Trigger} {r : CallbackRequest}
    (he : s.enqueue p x r = (s', true)) (e : Exc) (aux : Aux) :
    s'.exceptCalls t e aux = s.exceptCalls t e aux := by
  unfold enqueue at he
  split at he
  · cases he; rfl
  · split at he
    · cases he; rfl
    · cases he

theorem entered_exceptCalls (e : Exc) (aux : Aux) :
    (s.entered t).exceptCalls t e aux = s.exceptCalls t e aux := by
  have hmsg : exceptMessage ((s.entered t).obj t) e aux = exceptMessage (s.obj t) e aux := by
    rw [entered_obj]
    cases e <;> rfl
  simp only [exceptCalls, hmsg]
  rfl

theorem handlerEnds_uncalled {f g : Observer → Option Exc} (ts : Int) (res : Except Exc PyVal)
    (aux : Aux) (h : ∀ o ∈ s.handlerEndsCalls t res (aux.answer f), f o = g o) :
    s.handlerEnds t ts res (aux.answer f) = s.handlerEnds t ts res (aux.answer g) := by
  have hlog : ∀ f, (aux.answer f).finishLog = aux.finishLog := fun _ => rfl
  simp only [handlerEnds, handlerEndsCalls, hlog] at h ⊢
  cases res with
  | error e => exact exceptBranch_uncalled ts e aux h
  | ok v =>
    cases hl : aux.finishLog with
    | some e =>
      simp only [hl] at h
      exact exceptBranch_uncalled ts e aux h
    | none =>
      simp only [hl, ← enqueue_returns s (.task t) (s.obj t).data
        (callbackRequest (s.obj t).data ts 200 v)] at h ⊢
      cases he : s.enqueue (.task t) (s.obj t).data
          (callbackRequest (s.obj t).data ts 200 v) with
      | mk s' b =>
        cases b with
        | false => rfl
        | true =>
          refine afterSuccess_uncalled ts aux fun o hm => h o ?_
          simp only [he, if_true]
          simp only [afterSuccessCalls, enqueue_exceptCalls he] at hm ⊢
          exact hm

theorem startRun_uncalled {f g : Observer → Option Exc} (aux : Aux)
    (h : ∀ o ∈ s.startRunCalls t (aux.answer f), f o = g o) :
    s.startRun t (aux.answer f) = s.startRun t (aux.answer g) := by
  have hlogger : ∀ f, (aux.answer f).getLogger = aux.getLogger := fun _ => rfl
  have hlog : ∀ f, (aux.answer f).startLog = aux.startLog := fun _ => rfl
  simp only [startRun, startRunCalls, hlogger, hlog] at h ⊢
  split
  · rename_i hh
    simp only [hh, if_true] at h
    cases hl : aux.getLogger with
    | some e => rfl
    | none =>
      cases hs : aux.startLog with
      | none => rfl
      | some e =>
        simp only [hl, hs] at h
        exact exceptBranch_uncalled (s := s.entered t) _ e aux fun o hm =>
          h o (by rwa [entered_exceptCalls] at hm)
  · rfl

theorem resumeTask_uncalled {f g : Observer → Option Exc} (aux : Aux)
    (h : ∀ o ∈ s.resumeTaskCalls t (aux.answer f), f o = g o) :
    s.resumeTask t (aux.answer f) = s.resumeTask t (aux.answer g) := by
  unfold resumeTask
  cases hc : (s.obj t).task with
  | pushing inTry r =>
    simp only [resumeTaskCalls, hc] at h
    cases inTry with
    | true =>
      simp only [if_true]
      rw [afterSuccess_uncalled (s := s.unlockWorker.put (s.obj t).data r) r.timestamp aux h]
    | false =>
      have hf : (aux.answer f).failed = (aux.answer g).failed := h .failedCallback (by simp)
      simp only [Bool.false_eq_true, if_false, hf]
  | thrownPushing inTry ts =>
    simp only [resumeTaskCalls, hc] at h
    cases inTry with
    | true => exact congrArg some (exceptBranch_uncalled ts .cancelled aux h)
    | false => rfl
  | _ => rfl

theorem resumeCleanup_uncalled {f g : Observer → Option Exc} (aux : Aux)
    (h : ∀ o ∈ s.resumeCleanupCalls t, f o = g o) :
    s.resumeCleanup t (aux.answer f) = s.resumeCleanup t (aux.answer g) := by
  have hpushed : f .failedCallback = g .failedCallback → ∀ s₁ : Executor,
      s₁.cleanupPushed t (aux.answer f) = s₁.cleanupPushed t (aux.answer g) := by
    intro hf s₁
    have hf' : (aux.answer f).failed = (aux.answer g).failed := hf
    simp only [cleanupPushed, hf']
  unfold resumeCleanup
  cases hc : (s.obj t).cleanup with
  | scheduled =>
    refine congrArg some ?_
    simp only [resumeCleanupCalls, hc] at h
    simp only [cleanupRun]
    split
    · rfl
    · rename_i hcl
      have hret := enqueue_returns (s.markCleaned t) (.cleanup t) (s.obj t).data (s.cancelRequest t)
      cases he : (s.markCleaned t).enqueue (.cleanup t) (s.obj t).data (s.cancelRequest t) with
      | mk s' b =>
        cases b with
        | false => rfl
        | true =>
          have hpass : (s.closed || s.workerLock.isEmpty) = true := by
            rw [he] at hret
            exact hret.symm
          exact hpushed (h .failedCallback (by simp [hcl, hpass])) s'
  | pushing r =>
    simp only [resumeCleanupCalls, hc] at h
    simp only [hpushed (h .failedCallback (by simp))]
  | _ => rfl

/-- How the observers would end that the event does not call makes no difference to it. -/
theorem step_uncalled {f g : Observer → Option Exc}
    (h : ∀ o ∈ (e.answer f).calls s, f o = g o) :
    step s (e.answer f) = step s (e.answer g) := by
  cases e with
  | start t aux =>
    simp only [step, Event.answer]
    rw [startRun_uncalled aux h]
  | handlerEnds t res aux =>
    simp only [step, Event.answer]
    split
    · rename_i ts _; exact congrArg some (handlerEnds_uncalled ts res aux h)
    · rfl
  | resumeTask t aux => exact resumeTask_uncalled aux h
  | resumeCleanup t aux => exact resumeCleanup_uncalled aux h
  | _ => rfl

/-! ## One call for one callback -/

theorem owes_begun {o : XXLTask} (hst : o.started = true) (exc : Option Exc)
    (h : o.task = .locking exc ∨ o.task = .done exc ∧ o.cleanup = .doneCallback) :
    owes o = 0 := by
  rcases h with h | ⟨h, hc⟩
  · simp [owes, h]
  · simp [owes, h, hc, hst]

theorem cleanupTask_owes (hr : Running s t) (exc : Option Exc) :
    owes ((s.cleanupTask t exc).obj t) = 0 := by
  have hst : ((s.cleanupTask t exc).obj t).started = true := by
    rw [(MayFinish.cleanupTask s t exc).begun hr.lt]
    exact hr.started
  refine owes_begun hst exc ?_
  simp only [cleanupTask, hr.cleaned, Bool.false_eq_true, if_false]
  split
  · exact .inr ⟨by simp [endTask], by simp [endTask]⟩
  · exact .inl (by simp [setCoro])

theorem exceptBranch_calls (hr : Running s t) (ts : Int) {e : Exc} {aux : Aux}
    (ha : aux.catches e) :
    (s.exceptCalls t e aux).length + owes ((s.exceptBranch t ts e aux).obj t) = 1 := by
  obtain ⟨msg, hmsg⟩ := exceptMessage_ok ha (s.obj t)
  simp only [exceptCalls, exceptBranch, hmsg]
  rw [← enqueue_returns s (.task t) (s.obj t).data
    (callbackRequest (s.obj t).data ts 500 (.str msg))]
  cases he : s.enqueue (.task t) (s.obj t).data
      (callbackRequest (s.obj t).data ts 500 (.str msg)) with
  | mk s' b =>
    obtain ⟨hsame, hobj⟩ := enqueue_same he
    cases b with
    | true =>
      simp only [if_true, List.length_singleton]
      rw [cleanupTask_owes (hr.same hsame hobj)]
    | false => simp [setCoro, owes]

theorem afterSuccess_calls (hr : Running s t) (ts : Int) {aux : Aux}
    (h : aux.succeeded = none) :
    (s.afterSuccessCalls t aux).length + owes ((s.afterSuccess t ts aux).obj t) = 1 := by
  simp only [afterSuccessCalls, afterSuccess, h, List.length_singleton]
  rw [cleanupTask_owes hr]

theorem handlerEnds_calls (hr : Running s t) (ts : Int) {res : Except Exc PyVal}
    {aux : Aux} (h : aux.succeeded = none) (hc : Caught (raised res aux) aux) :
    (s.handlerEndsCalls t res aux).length + owes ((s.handlerEnds t ts res aux).obj t) = 1 := by
  cases res with
  | error e => exact exceptBranch_calls hr ts (hc e rfl)
  | ok v =>
    cases hl : aux.finishLog with
    | some e =>
      simp only [handlerEndsCalls, handlerEnds, hl]
      exact exceptBranch_calls hr ts (hc e (by simp [raised, hl]))
    | none =>
      simp only [handlerEndsCalls, handlerEnds, hl]
      rw [← enqueue_returns s (.task t) (s.obj t).data (callbackRequest (s.obj t).data ts 200 v)]
      cases he : s.enqueue (.task t) (s.obj t).data
          (callbackRequest (s.obj t).data ts 200 v) with
      | mk s' b =>
        obtain ⟨hsame, hobj⟩ := enqueue_same he
        cases b with
        | true =>
          have := afterSuccess_calls (hr.same hsame hobj) ts h
          simp only [afterSuccessCalls, h] at this ⊢
          exact this
        | false => simp [setCoro, owes]

theorem startRun_calls (hi : Inv strict s) (ht : t < s.nextTask) {b : Bool}
    (hc : (s.obj t).task = .scheduled b) {aux : Aux}
    (hh : s.handler (s.obj t).data.data.executorHandler = true) (hl : aux.getLogger = none)
    (hs : Caught aux.startLog aux) :
    (s.startRunCalls t aux).length + owes ((s.startRun t aux).obj t) = 1 := by
  have hr : Running (s.entered t) t := entered_running hi ht hc
  simp only [startRunCalls, startRun, hh, if_true, hl]
  cases hsl : aux.startLog with
  | some e =>
    have h := exceptBranch_calls hr (s.callbackTimestamp (s.obj t).data.data) (hs e hsl)
    rw [entered_exceptCalls] at h
    exact h
  | none => simp [setCoro, owes]

/-- `_cleanup_task` has called `_finish`, and the coroutine ends. -/
theorem endTask_owes (hst : (s.obj t).started = true) (exc : Option Exc) :
    owes ((s.endTask t exc).obj t) = 0 :=
  owes_begun (by simpa [endTask] using hst) exc (.inr ⟨by simp [endTask], by simp [endTask]⟩)

theorem resumeTask_calls (hi : Inv strict s) (hstrict : strict t) (ht : t < s.nextTask) {aux : Aux}
    (h : aux.succeeded = none)
    (hl : ∀ ts, (s.obj t).task = .thrownPushing true ts → aux.errLog = none)
    (hs : s.resumeTask t aux = some s') :
    (s.resumeTaskCalls t aux).length + owes (s'.obj t) = owes (s.obj t) := by
  have hok := hi.tasks t ht
  unfold resumeTask at hs
  split at hs
  · rename_i inTry r hc
    simp only [TaskOk, hc] at hok
    have hr : Running s t := ⟨ht, hok.1, hok.2.1, hok.2.2.1, hok.2.2.2⟩
    have hr' : Running (s.unlockWorker.put (s.obj t).data r) t :=
      hr.same (SameBooks.unlockWorker.trans (.put _ _)) rfl
    split at hs
    · cases inTry with
      | true =>
        cases hs
        have hafter := afterSuccess_calls hr' r.timestamp h
        simp only [resumeTaskCalls, hc, afterSuccessCalls, h] at hafter ⊢
        rw [show owes (s.obj t) = 1 by simp [owes, hc]]
        exact hafter
      | false =>
        cases hs
        rw [cleanupTask_owes hr']
        simp [resumeTaskCalls, hc, owes]
    · cases hs
  · rename_i inTry ts hc
    simp only [TaskOk, hc] at hok
    obtain ⟨hok, htry⟩ := hok
    obtain rfl := htry hstrict
    cases hs
    rw [show owes (s.obj t) = 1 by simp [owes, hc], resumeTaskCalls, hc]
    exact exceptBranch_calls ⟨ht, hok.1, hok.2.1, hok.2.2.1, hok.2.2.2⟩ ts ⟨rfl, hl ts hc⟩
  · rename_i exc hc
    simp only [TaskOk, hc] at hok
    split at hs
    · cases hs
      have hobj : (s.finishLocked t).obj t = s.obj t := obj_finish ht t
      rw [endTask_owes (by rw [hobj]; exact hok.1)]
      simp [resumeTaskCalls, hc, owes]
    · cases hs
  · rename_i hc
    simp only [TaskOk, hc] at hok
    exact absurd hstrict hok.2
  · cases hs

theorem cleanupPushed_owes (hc : Cleaning s t) (ht : t < s.nextTask) {aux : Aux}
    (h : aux.failed = none) : owes ((s.cleanupPushed t aux).obj t) = 0 := by
  have he := hc.ended
  simp only [cleanupPushed, h]
  split
  · have hobj : ((s.lockJob (s.obj t).data.jobId (.cleanup t)).finishLocked t).obj t = s.obj t :=
      obj_finish (s := s.lockJob (s.obj t).data.jobId (.cleanup t)) ht t
    simp [setCleanup, hobj, owes, he]
  · simp [setCleanup, lockJob, owes, he]

theorem resumeCleanup_calls (hi : Inv strict s) (ht : t < s.nextTask) {aux : Aux}
    (h : (s.obj t).started = false → aux.failed = none) (hs : s.resumeCleanup t aux = some s') :
    (s.resumeCleanupCalls t).length + owes (s'.obj t) = owes (s.obj t) := by
  have hok := hi.tasks t ht
  unfold resumeCleanup at hs
  split at hs
  · rename_i hc
    split at hs
    · rename_i exc hd
      cases hs
      simp only [TaskOk, hd, hc] at hok
      by_cases hst : (s.obj t).started = true
      · simp [resumeCleanupCalls, onExecutorTaskDone, hc, hst, setCleanup, owes, hd]
      · obtain ⟨rfl, hcl⟩ := hok.1 (by simpa using hst)
        simp [resumeCleanupCalls, onExecutorTaskDone, hc, hst, hcl, setCleanup, owes, hd]
    · cases hs
  · rename_i hc
    cases hs
    obtain ⟨exc, hd⟩ := hok.ended (by rw [hc]; simp)
    simp only [TaskOk, hd, hc] at hok
    obtain ⟨hst, hcl, hnf, rfl⟩ := hok
    have hcleaning : Cleaning (s.markCleaned t) t := by
      refine ⟨?_, ?_, ?_, hnf⟩ <;> simp [markCleaned, hd, hst]
    have h1 : owes (s.obj t) = 1 := by simp [owes, hd, hc]
    simp only [resumeCleanupCalls, hc, hcl, cleanupRun, Bool.false_eq_true, if_false, h1,
      Bool.not_false, Bool.true_and]
    rw [← enqueue_returns s (.cleanup t) (s.obj t).data (s.cancelRequest t)]
    have hret : (s.enqueue (.cleanup t) (s.obj t).data (s.cancelRequest t)).2 =
        ((s.markCleaned t).enqueue (.cleanup t) (s.obj t).data (s.cancelRequest t)).2 := by
      simp only [enqueue_returns]
      rfl
    rw [hret]
    cases he : (s.markCleaned t).enqueue (.cleanup t) (s.obj t).data (s.cancelRequest t) with
    | mk s' b =>
      obtain ⟨hsame, hobj⟩ := enqueue_same he
      cases b with
      | true =>
        simp only [if_true, List.length_singleton]
        rw [cleanupPushed_owes (hcleaning.same hsame (by rw [hobj]))
          (by rw [hsame.nextTask]; exact ht) (h hst)]
      | false => simp [setCleanup, hobj, markCleaned, owes, hd]
  · rename_i r hc
    obtain ⟨exc, hd⟩ := hok.ended (by rw [hc]; simp)
    simp only [TaskOk, hd, hc] at hok
    obtain ⟨hst, hcl, hnf, rfl⟩ := hok
    split at hs
    · cases hs
      have hcleaning : Cleaning (s.unlockWorker.put (s.obj t).data r) t := ⟨hd, hst, hcl, hnf⟩
      simp only [resumeCleanupCalls, hc, List.length_singleton]
      rw [cleanupPushed_owes hcleaning ht (h hst)]
      simp [owes, hd, hc]
    · cases hs
  · rename_i hc
    obtain ⟨exc, hd⟩ := hok.ended (by rw [hc]; simp)
    split at hs
    · cases hs
      have hobj : (s.finishLocked t).obj t = s.obj t := obj_finish ht t
      simp [resumeCleanupCalls, hc, setCleanup, hobj, owes, hd]
    · cases hs
  · cases hs
  · cases hs

/-- The done-callback of a task that has begun. -/
def Event.idle (s : Executor) (t : Nat) (e : Event) : Prop :=
  (s.obj t).started = true ∧ ∃ aux, e = .resumeCleanup t aux

/-- As long as nothing harms the task and no observer raises, it calls one observer exactly where
it hands over its callback. -/
theorem calls_owed (hi : Inv strict s) (hstrict : strict t) (hs : step s e = some s')
    (he : e.task = some t) (hh : Harmless t s e)
    (ho : ∀ aux, e.aux = some (t, aux) →
      e.idle s t ∨ aux.succeeded = none ∧ aux.failed = none) :
    (e.calls s).length + owes (s'.obj t) = owes (s.obj t) := by
  have ht := task_lt hi hs he
  cases e with
  | start u aux =>
    cases he
    simp only [step] at hs
    split at hs
    · rename_i hc
      cases hs
      obtain ⟨hhandler, hl, hsl⟩ := hh.begins aux rfl
      rw [show owes (s.obj t) = 1 by simp [owes, hc]]
      exact startRun_calls hi ht hc hhandler hl hsl
    · cases hs
  | abort u =>
    cases he
    simp only [step] at hs
    split at hs
    · rename_i hc
      cases hs
      have hok := (hi.tasks t ht).scheduled hc
      simp [Event.calls, endTask, owes, hc, hok.1]
    · cases hs
  | handlerEnds u res aux =>
    cases he
    simp only [step] at hs
    split at hs
    · rename_i ts hc
      cases hs
      rw [show owes (s.obj t) = 1 by simp [owes, hc]]
      rcases ho aux rfl with ⟨-, aux', h⟩ | ho
      · cases h
      · exact handlerEnds_calls (running_of_inHandler hi ht hc) ts ho.1 (hh.ends res aux rfl)
    · cases hs
  | resumeTask u aux =>
    cases he
    rcases ho aux rfl with ⟨-, aux', h⟩ | ho
    · cases h
    · exact resumeTask_calls hi hstrict ht ho.1 (hh.resumes aux · rfl) hs
  | resumeCleanup u aux =>
    cases he
    refine resumeCleanup_calls hi ht (fun hst => ?_) hs
    rcases ho aux rfl with ⟨hst', -⟩ | ho
    · rw [hst] at hst'; cases hst'
    · exact ho.2
  | _ => cases he

theorem idle_calls (hi : Inv strict s) (h : e.idle s t) : e.calls s = [] := by
  obtain ⟨hst, aux, rfl⟩ := h
  have ht : t < s.nextTask := hi.lt_of_obj fun ho => by rw [ho] at hst; cases hst
  have hok := hi.tasks t ht
  simp only [Event.calls, resumeCleanupCalls]
  split
  · rename_i hc
    obtain ⟨exc, hd⟩ := hok.ended (by rw [hc]; simp)
    simp [TaskOk, hd, hc, hst] at hok
  · rename_i r hc
    obtain ⟨exc, hd⟩ := hok.ended (by rw [hc]; simp)
    simp [TaskOk, hd, hc, hst] at hok
  · rfl

end Executor
end Pyxxl
