import Pyxxl.Executor.Free

/-!
# Pyxxl.Executor.Sent

Which callbacks an event sends. Callbacks are only added, and each of them names its trigger
(`Names`) with a message the event has for it (`Event.words`), unless it is one that has waited for
the worker lock (`Event.waits`): then it was made in an earlier event (`step_sends`).
-/

namespace Pyxxl
namespace Executor

variable {s s' s'' : Executor} {e : Event} {t n : Nat} {o : Option CallbackRequest}
  {msgs : PyVal → Prop}

/-- The request is about the trigger, with one of the two codes, and has no file yet. -/
structure Names (p : Trigger × CallbackRequest) : Prop where
  logId : p.2.logId = p.1.logId
  code : p.2.code = 200 ∨ p.2.code = 500
  unfiled : p.2.persistedPath = none

/-- The request that the coroutine resumed in the event has waited with. -/
def Event.waits (s : Executor) : Event → Option CallbackRequest
  | .resumeCall n =>
    match s.call n with
    | .coverPush _ _ r _ _ => some r
    | .cancelPush _ r _ _ _ => some r
    | _ => none
  | .resumeTask t _ =>
    match (s.obj t).task with
    | .pushing _ r => some r
    | _ => none
  | .resumeCleanup t _ =>
    match (s.obj t).cleanup with
    | .pushing r => some r
    | _ => none
  | _ => none

/-- An `except` branch that catches `exc` in task `t` reports it with the message `v`. -/
def Tells (s : Executor) (t : Nat) (exc : Exc) (aux : Aux) (v : PyVal) : Prop :=
  (exceptMessage (s.obj t) exc aux).map .str = .ok v

/-- The event may make a request with the message `v`. -/
def Event.words (s : Executor) (e : Event) (v : PyVal) : Prop :=
  match e with
  | .runJob _ => v = .str (queuedMessage coverReason)
  | .cancelJob _ _ reason => v = .str (queuedMessage reason)
  | .resumeCall n =>
    match s.call n with
    | .runLock _ => v = .str (queuedMessage coverReason)
    | .coverPush _ _ _ _ reason => v = .str (queuedMessage reason)
    | .cancelLock _ _ reason => v = .str (queuedMessage reason)
    | .cancelPush _ _ _ reason _ => v = .str (queuedMessage reason)
    | _ => False
  | .start t aux => ∃ exc, aux.startLog = some exc ∧ Tells s t exc aux v
  | .handlerEnds t res aux => res = .ok v ∨ ∃ exc,
      (res = .error exc ∨ aux.finishLog = some exc ∨ aux.succeeded = some exc) ∧
        Tells s t exc aux v
  | .resumeTask t aux => ∃ exc, (exc = .cancelled ∨ aux.succeeded = some exc) ∧
      Tells s t exc aux v
  | .resumeCleanup t _ => v = .str (cancelMessageForTask (s.obj t))
  | _ => False

/-- What is added to `callbacks`, where `o` has waited. -/
def Sends (msgs : PyVal → Prop) (o : Option CallbackRequest) (s s' : Executor) : Prop :=
  ∃ new, s'.callbacks = s.callbacks ++ new ∧
    ∀ p ∈ new, Names p ∧ msgs p.2.msg ∨ o = some p.2

namespace Sends

theorem same (h : s'.callbacks = s.callbacks) : Sends msgs o s s' :=
  ⟨[], by rw [h, List.append_nil], fun p hp => by cases hp⟩

theorem trans (h₁ : Sends msgs o s s') (h₂ : Sends msgs o s' s'') : Sends msgs o s s'' := by
  obtain ⟨new, he, hn⟩ := h₁
  obtain ⟨new', he', hn'⟩ := h₂
  refine ⟨new ++ new', by rw [he', he, List.append_assoc], fun p hp => ?_⟩
  exact (List.mem_append.mp hp).elim (hn p) (hn' p)

theorem put {x : Trigger} {r : CallbackRequest}
    (h : Names (x, r) ∧ msgs r.msg ∨ o = some r) : Sends msgs o s (s.put x r) :=
  ⟨[(x, r)], rfl, fun p hp => by rw [List.mem_singleton.mp hp]; exact h⟩

theorem isPrefix (h : Sends msgs o s s') : s.callbacks <+: s'.callbacks := by
  obtain ⟨new, he, -⟩ := h
  rw [he]
  exact List.prefix_append _ _

end Sends

theorem callbackRequest_names (x : Trigger) (ts : Int) {code : Int} (msg : PyVal)
    (h : code = 200 ∨ code = 500) : Names (x, callbackRequest x ts code msg) := ⟨rfl, h, rfl⟩

theorem enqueue_sends {p : Pid} {x : Trigger} {r : CallbackRequest} {b : Bool}
    (hr : Names (x, r)) (hv : msgs r.msg) (he : s.enqueue p x r = (s', b)) :
    Sends msgs o s s' ∧ s'.obj = s.obj := by
  unfold enqueue at he
  split at he
  · cases he; exact ⟨.same rfl, rfl⟩
  · split at he
    · cases he; exact ⟨.put (.inl ⟨hr, hv⟩), rfl⟩
    · cases he; exact ⟨.same rfl, rfl⟩

/-! ## Tasks -/

theorem finishLocked_callbacks (s : Executor) (t : Nat) :
    (s.finishLocked t).callbacks = s.callbacks := (finish_callbacks s t).1

theorem cleanupTask_callbacks (s : Executor) (t : Nat) (exc : Option Exc) :
    (s.cleanupTask t exc).callbacks = s.callbacks := by
  unfold cleanupTask
  split
  · rfl
  · split
    · exact finishLocked_callbacks ((s.markCleaned t).lockJob (s.obj t).data.jobId (.task t)) t
    · rfl

theorem exceptBranch_sends (ts : Int) {exc : Exc} (aux : Aux)
    (hv : ∀ v, Tells s t exc aux v → msgs v) :
    Sends msgs o s (s.exceptBranch t ts exc aux) := by
  unfold exceptBranch
  split
  · exact .same (cleanupTask_callbacks ..)
  · rename_i msg hmsg
    have hnames := callbackRequest_names (s.obj t).data ts (.str msg) (.inr rfl)
    have hword : msgs (.str msg) := hv _ (by rw [Tells, hmsg]; rfl)
    split
    · rename_i he
      exact (enqueue_sends hnames hword he).1.trans (.same (cleanupTask_callbacks ..))
    · rename_i he
      exact (enqueue_sends hnames hword he).1.trans (.same rfl)

theorem afterSuccess_sends (ts : Int) {aux : Aux}
    (hv : ∀ exc v, aux.succeeded = some exc → Tells s t exc aux v → msgs v) :
    Sends msgs o s (s.afterSuccess t ts aux) := by
  unfold afterSuccess
  split
  · rename_i exc he
    exact exceptBranch_sends ts aux fun v h => hv exc v he h
  · exact .same (cleanupTask_callbacks ..)

theorem handlerEnds_sends (s : Executor) (t : Nat) (ts : Int) (res : Except Exc PyVal)
    (aux : Aux) : Sends ((Event.handlerEnds t res aux).words s) o s (s.handlerEnds t ts res aux) := by
  unfold handlerEnds
  split
  · exact exceptBranch_sends ts aux fun v h => .inr ⟨_, .inl rfl, h⟩
  · rename_i he
    exact exceptBranch_sends ts aux fun v h => .inr ⟨_, .inr (.inl he), h⟩
  · rename_i v _
    have hnames := callbackRequest_names (s.obj t).data ts v (.inl rfl)
    have hword : (Event.handlerEnds t (.ok v) aux).words s v := .inl rfl
    split
    · rename_i he
      obtain ⟨hsend, hobj⟩ := enqueue_sends hnames hword he
      refine hsend.trans (afterSuccess_sends ts fun exc w hs h => ?_)
      rw [Tells, hobj] at h
      exact .inr ⟨exc, .inr (.inr hs), h⟩
    · rename_i he
      exact (enqueue_sends hnames hword he).1.trans (.same rfl)

theorem startRun_sends (s : Executor) (t : Nat) (aux : Aux) :
    Sends ((Event.start t aux).words s) o s (s.startRun t aux) := by
  simp only [startRun]
  split
  · split
    · exact .same rfl
    · rename_i exc _ he
      refine Sends.trans ?_ (exceptBranch_sends _ aux fun v h => ⟨exc, he, ?_⟩)
      · exact .same rfl
      · -- beginning changes nothing of the message
        have ho : ∀ ts, exceptMessage (((s.markStarted t).setCoro t (.inHandler ts)).obj t) exc aux =
            exceptMessage (s.obj t) exc aux := by
          intro ts
          cases exc <;> simp [exceptMessage, cancelMessageForTask, markStarted, setCoro, modTask]
        rw [Tells, ho] at h
        exact h
    · exact .same rfl
  · exact .same rfl

theorem resumeTask_sends {aux : Aux} (hs : s.resumeTask t aux = some s') :
    Sends ((Event.resumeTask t aux).words s) ((Event.resumeTask t aux).waits s) s s' := by
  unfold resumeTask at hs
  split at hs
  · rename_i inTry r hc
    have hput : Sends ((Event.resumeTask t aux).words s) ((Event.resumeTask t aux).waits s) s
        (s.unlockWorker.put (s.obj t).data r) := by
      refine Sends.trans (.same ?_) (.put (.inr ?_))
      · rfl
      · simp only [Event.waits, hc]
    split at hs
    · cases inTry with
      | true =>
        cases hs
        exact hput.trans (afterSuccess_sends _ fun exc v he h => ⟨exc, .inr he, h⟩)
      | false => cases hs; exact hput.trans (.same (cleanupTask_callbacks ..))
    · cases hs
  · rename_i inTry ts _
    cases inTry with
    | true => cases hs; exact exceptBranch_sends ts aux fun v h => ⟨.cancelled, .inl rfl, h⟩
    | false => cases hs; exact .same (cleanupTask_callbacks ..)
  · split at hs
    · cases hs; exact .same (finishLocked_callbacks s t)
    · cases hs
  · cases hs; exact .same rfl
  · cases hs

theorem cleanupPushed_callbacks (s : Executor) (t : Nat) (aux : Aux) :
    (s.cleanupPushed t aux).callbacks = s.callbacks := by
  unfold cleanupPushed
  split
  · rfl
  · split
    · exact finishLocked_callbacks (s.lockJob (s.obj t).data.jobId (.cleanup t)) t
    · rfl

theorem resumeCleanup_sends {aux : Aux} (hs : s.resumeCleanup t aux = some s') :
    Sends ((Event.resumeCleanup t aux).words s) ((Event.resumeCleanup t aux).waits s) s s' := by
  unfold resumeCleanup at hs
  split at hs
  · split at hs
    · cases hs
      unfold onExecutorTaskDone
      split
      · exact .same rfl
      · exact .same rfl
    · cases hs
  · cases hs
    have hnames : Names ((s.obj t).data, s.cancelRequest t) :=
      callbackRequest_names _ _ _ (.inr rfl)
    have hword : (Event.resumeCleanup t aux).words s (s.cancelRequest t).msg := rfl
    unfold cleanupRun
    split
    · exact .same rfl
    · split
      · rename_i he
        exact (enqueue_sends (s := s.markCleaned t) hnames hword he).1.trans
          (.same (cleanupPushed_callbacks ..))
      · rename_i he
        exact (enqueue_sends (s := s.markCleaned t) hnames hword he).1.trans (.same rfl)
  · rename_i r hc
    split at hs
    · cases hs
      have hput : Sends ((Event.resumeCleanup t aux).words s) ((Event.resumeCleanup t aux).waits s) s
          (s.unlockWorker.put (s.obj t).data r) := by
        refine Sends.trans (.same ?_) (.put (.inr ?_))
        · rfl
        · simp only [Event.waits, hc]
      exact hput.trans (.same (cleanupPushed_callbacks ..))
    · cases hs
  · split at hs
    · cases hs; exact .same (finishLocked_callbacks s t)
    · cases hs
  · cases hs
  · cases hs

/-! ## Calls -/

theorem pushFailed_sends {p : Pid} {reason : PyStr} (hv : msgs (.str (queuedMessage reason))) :
    ∀ {xs : List Trigger} {s s' : Executor}
      {rest : Option (Trigger × CallbackRequest × List Trigger)},
      pushFailedQueuedTasks p reason xs s = (s', rest) → Sends msgs o s s' := by
  intro xs
  induction xs with
  | nil => intro s s' rest hs; cases hs; exact .same rfl
  | cons y ys ih =>
    intro s s' rest hs
    have hnames : Names (y, s.failedRequest reason y) := callbackRequest_names _ _ _ (.inr rfl)
    simp only [pushFailedQueuedTasks] at hs
    split at hs
    · rename_i he; exact (enqueue_sends hnames hv he).1.trans (ih hs)
    · rename_i he; cases hs; exact (enqueue_sends hnames hv he).1

theorem coverPush_sends (s : Executor) (n : Nat) (d : RunData) {reason : PyStr}
    (rest : List Trigger) (hv : msgs (.str (queuedMessage reason))) :
    Sends msgs o s (s.coverPush n d reason rest) := by
  unfold coverPush
  split
  · rename_i s' hs; exact (pushFailed_sends hv hs).trans (.same rfl)
  · rename_i s' _ _ _ hs; exact (pushFailed_sends hv hs).trans (.same rfl)

theorem cancelPush_sends (s : Executor) (n : Nat) {reason : PyStr} (u : Option Nat)
    (rest : List Trigger) (hv : msgs (.str (queuedMessage reason))) :
    Sends msgs o s (s.cancelPush n reason u rest) := by
  unfold cancelPush
  split
  · rename_i s' hs
    split
    · exact (pushFailed_sends hv hs).trans (.same rfl)
    · exact (pushFailed_sends hv hs).trans (.same rfl)
  · rename_i s' _ _ _ hs; exact (pushFailed_sends hv hs).trans (.same rfl)

theorem cancel_callbacks (s : Executor) (t : Nat) : (s.cancel t).callbacks = s.callbacks := by
  unfold cancel
  split <;> rfl

theorem takePending_callbacks (s : Executor) (j : JobId) :
    (s.takePending j).1.callbacks = s.callbacks := by rw [takePending_fst]

theorem coverEarly_callbacks (s : Executor) (d : RunData) :
    (s.coverEarly d).1.callbacks = s.callbacks := by
  have h := takePending_callbacks s d.jobId
  simp only [coverEarly]
  split
  · rw [cancel_callbacks]; exact h
  · exact h

theorem runJobLocked_sends (s : Executor) (n : Nat) (d : RunData)
    (hv : msgs (.str (queuedMessage coverReason))) : Sends msgs o s (s.runJobLocked n d) := by
  unfold runJobLocked
  split
  · exact .same rfl
  · split
    · exact .same rfl
    · split
      · exact .same rfl
      · split
        · exact Sends.trans (.same (coverEarly_callbacks s d)) (coverPush_sends _ _ _ _ hv)
        · split
          · unfold handleSerialExecution
            split
            · exact .same rfl
            · exact .same rfl
          · exact .same rfl

theorem cancelLocked_callbacks (s : Executor) (j : JobId) (includeQueue : Bool) (reason : PyStr) :
    (s.cancelLocked j includeQueue reason).1.callbacks = s.callbacks := by
  have hkill : ∀ s₁ : Executor, (s₁.killCurrent j reason).callbacks = s₁.callbacks := by
    intro s₁
    unfold killCurrent
    split
    · exact cancel_callbacks _ _
    · rfl
  cases includeQueue with
  | false => exact hkill s
  | true => exact (hkill _).trans (takePending_callbacks s j)

theorem cancelJobLocked_sends (s : Executor) (n : Nat) (j : JobId) (includeQueue : Bool)
    {reason : PyStr} (hv : msgs (.str (queuedMessage reason))) :
    Sends msgs o s (s.cancelJobLocked n j includeQueue reason) := by
  have hlocked : Sends msgs o s ((s.cancelLocked j includeQueue reason).1.unlockJob j) :=
    .same (cancelLocked_callbacks s j includeQueue reason)
  exact hlocked.trans (cancelPush_sends _ _ _ _ hv)

theorem resumeCall_sends (hs : s.resumeCall n = some s') :
    Sends ((Event.resumeCall n).words s) ((Event.resumeCall n).waits s) s s' := by
  unfold resumeCall at hs
  split at hs
  · rename_i hc
    split at hs
    · cases hs
      exact runJobLocked_sends s n _ (by simp only [Event.words, hc])
    · cases hs
  · rename_i d x r rest reason hc
    split at hs
    · cases hs
      have hput : Sends ((Event.resumeCall n).words s) ((Event.resumeCall n).waits s) s
          (s.unlockWorker.put x r) := by
        refine Sends.trans (.same ?_) (.put (.inr ?_))
        · rfl
        · simp only [Event.waits, hc]
      exact hput.trans (coverPush_sends _ _ _ _ (by simp only [Event.words, hc]))
    · cases hs
  · rename_i hc
    split at hs
    · cases hs
      exact cancelJobLocked_sends s n _ _ (by simp only [Event.words, hc])
    · cases hs
  · rename_i x r rest reason u hc
    split at hs
    · cases hs
      have hput : Sends ((Event.resumeCall n).words s) ((Event.resumeCall n).waits s) s
          (s.unlockWorker.put x r) := by
        refine Sends.trans (.same ?_) (.put (.inr ?_))
        · rfl
        · simp only [Event.waits, hc]
      exact hput.trans (cancelPush_sends _ _ _ _ (by simp only [Event.words, hc]))
    · cases hs
  · split at hs
    · cases hs; exact .same rfl
    · cases hs; exact .same rfl
    · cases hs
  · cases hs
  · cases hs
  · cases hs

/-! ## Events -/

theorem step_sends (hs : step s e = some s') : Sends (e.words s) (e.waits s) s s' := by
  cases e with
  | runJob d =>
    cases hs
    simp only [runJob]
    split
    · split
      · exact runJobLocked_sends (s.openCall.lockJob d.jobId (.call s.nextCall)) _ d rfl
      · exact .same rfl
    · exact .same rfl
  | cancelJob j includeQueue reason =>
    cases hs
    simp only [cancelJob]
    split
    · exact cancelJobLocked_sends (s.openCall.lockJob j (.call s.nextCall)) _ j includeQueue rfl
    · exact .same rfl
  | resumeCall n =>
    simp only [step] at hs
    split at hs
    · exact resumeCall_sends hs
    · cases hs
  | start t aux =>
    simp only [step] at hs
    split at hs
    · cases hs; exact startRun_sends s t aux
    · cases hs
  | abort t =>
    simp only [step] at hs
    split at hs
    · cases hs; exact .same rfl
    · cases hs
  | handlerEnds t res aux =>
    simp only [step] at hs
    split at hs
    · cases hs; exact handlerEnds_sends s t _ res aux
    · cases hs
  | resumeTask t aux => exact resumeTask_sends hs
  | resumeCleanup t aux => exact resumeCleanup_sends hs
  | setHandler handler => cases hs; exact .same rfl
  | stopCalled close => cases hs; exact .same rfl
  | stopLock n => cases hs; exact .same rfl
  | stopUnlock n =>
    simp only [step] at hs
    split at hs
    · cases hs; exact .same rfl
    · cases hs
  | tick now => cases hs; exact .same rfl

theorem step_callbacks (hs : step s e = some s') : s.callbacks <+: s'.callbacks :=
  (step_sends hs).isPrefix

/-- Without `stop` no callback waits, and so each that is sent names its trigger. -/
theorem Free.sends {locks : JobId → List Pid} (h : Free locks s) (hs : s.step e = some s') :
    ∃ new, s'.callbacks = s.callbacks ++ new ∧ ∀ p ∈ new, Names p ∧ e.words s p.2.msg := by
  have hnone : e.waits s = none := by
    cases e with
    | resumeCall n =>
      have := h.call n
      simp only [Event.waits]
      split <;> simp_all [Call.parked]
    | resumeTask t aux =>
      have := h.coro t
      simp only [Event.waits]
      split <;> simp_all [Coro.parked]
    | resumeCleanup t aux =>
      have := h.cleanup t
      simp only [Event.waits]
      split <;> simp_all [Cleanup.parked]
    | _ => rfl
  obtain ⟨new, he, hn⟩ := step_sends hs
  refine ⟨new, he, fun p hp => (hn p hp).resolve_right fun hc => ?_⟩
  rw [hnone] at hc
  cases hc

end Executor
end Pyxxl
