import Pyxxl.Executor.Delta

/-!
# Pyxxl.Executor.Frame

What one event does to the `XXLTask` objects: it moves the task it runs, or cancels the one it is
delivered to, and leaves every other task as it was; a task it creates has not begun.
-/

namespace Pyxxl
namespace Executor

variable {s s' s'' : Executor} {e : Event} {o : Option Nat} {t : Nat}

def newTask (x : Trigger) : XXLTask := { task := .scheduled false, data := x }

/-- The coroutine after a `cancel()`. -/
def Coro.cancelled : Coro → Coro
  | .scheduled _ => .scheduled true
  | .pushing inTry r => .thrownPushing inTry r.timestamp
  | .locking _ => .thrownLocking
  | c => c

def killed (reason : PyStr) (o : XXLTask) : XXLTask :=
  { o with task := o.task.cancelled, cancelReason := some reason }

/-- No task but `o` was touched, and those created have not begun. -/
structure Frame (o : Option Nat) (s s' : Executor) : Prop where
  kept : ∀ u, o ≠ some u → s'.obj u = s.obj u ∨ s.nextTask ≤ u ∧ ∃ x, s'.obj u = newTask x
  mono : s.nextTask ≤ s'.nextTask

namespace Frame

theorem same (ho : s'.obj = s.obj) (hn : s'.nextTask = s.nextTask) : Frame o s s' :=
  ⟨fun u _ => .inl (by rw [ho]), hn.ge⟩

theorem refl : Frame o s s := same rfl rfl

theorem trans (h₁ : Frame o s s') (h₂ : Frame o s' s'') : Frame o s s'' where
  kept u hu := by
    rcases h₂.kept u hu with h | ⟨hle, h⟩
    · rw [h]; exact h₁.kept u hu
    · exact .inr ⟨Nat.le_trans h₁.mono hle, h⟩
  mono := Nat.le_trans h₁.mono h₂.mono

theorem modTask (t : Nat) (f : XXLTask → XXLTask) : Frame (some t) s (s.modTask t f) :=
  ⟨fun u hu => .inl (modTask_other fun he => hu (by rw [he])), Nat.le_refl _⟩

theorem createTask {x : Trigger} (ho : s'.obj = Function.update s.obj s.nextTask (newTask x))
    (hn : s'.nextTask = s.nextTask + 1) : Frame o s s' where
  kept u _ := by
    by_cases h : u = s.nextTask
    · subst h; exact .inr ⟨Nat.le_refl _, x, by rw [ho, Function.update_self]⟩
    · exact .inl (by rw [ho, Function.update_of_ne h])
  mono := by omega

theorem enqueue {p : Pid} {x : Trigger} {r : CallbackRequest} {b : Bool}
    (he : s.enqueue p x r = (s', b)) : Frame o s s' :=
  same (enqueue_same he).2 (enqueue_same he).1.nextTask

theorem finish (s : Executor) (t : Nat) : Frame o s (s.finish t) := by
  by_cases ht : s.tasks (s.obj t).data.jobId = some t
  · cases hc : s.coverReplacements (s.obj t).data.jobId with
    | some r =>
      simp only [Executor.finish, ht, if_true, popCoverReplacement, releaseLogId, hc]
      exact createTask rfl rfl
    | none =>
      cases hq : s.queue (s.obj t).data.jobId with
      | nil =>
        simp only [Executor.finish, ht, if_true, popCoverReplacement, releaseLogId, hc, hq]
        exact same rfl rfl
      | cons y rest =>
        simp only [Executor.finish, ht, if_true, popCoverReplacement, releaseLogId, hc, hq]
        exact createTask rfl rfl
  · simp only [Executor.finish, ht, if_false]
    exact same rfl rfl

end Frame

/-! ## Tasks -/

/-- `s'` comes from `s` by what the coroutine of `t` and its cleanup task do to the state between
two suspensions. -/
inductive Acts (t : Nat) : Executor → Executor → Prop
  | refl {s : Executor} : Acts t s s
  | trans {s s' s'' : Executor} : Acts t s s' → Acts t s' s'' → Acts t s s''
  | modTask (s : Executor) (f : XXLTask → XXLTask) : Acts t s (s.modTask t f)
  | markStarted (s : Executor) : Acts t s (s.markStarted t)
  | enqueue {s s' : Executor} {p : Pid} {x : Trigger} {r : CallbackRequest} {b : Bool} :
      s.enqueue p x r = (s', b) → Acts t s s'
  | put (s : Executor) (x : Trigger) (r : CallbackRequest) : Acts t s (s.put x r)
  | lockJob (s : Executor) (j : JobId) (p : Pid) : Acts t s (s.lockJob j p)
  | unlockJob (s : Executor) (j : JobId) : Acts t s (s.unlockJob j)
  | unlockWorker (s : Executor) : Acts t s s.unlockWorker
  | finish (s : Executor) : Acts t s (s.finish t)

namespace Acts

theorem finishLocked (s : Executor) (t : Nat) : Acts t s (s.finishLocked t) :=
  (finish s).trans (unlockJob _ _)

theorem endTask (s : Executor) (t : Nat) (exc : Option Exc) : Acts t s (s.endTask t exc) :=
  modTask s _

theorem setCoro (s : Executor) (t : Nat) (c : Coro) : Acts t s (s.setCoro t c) := modTask s _

theorem setCleanup (s : Executor) (t : Nat) (c : Cleanup) : Acts t s (s.setCleanup t c) :=
  modTask s _

theorem cleanupTask (s : Executor) (t : Nat) (exc : Option Exc) :
    Acts t s (s.cleanupTask t exc) := by
  unfold Executor.cleanupTask
  split
  · exact endTask ..
  · have hlock : Acts t s ((s.markCleaned t).lockJob (s.obj t).data.jobId (.task t)) :=
      (modTask s _).trans (lockJob _ _ _)
    split
    · exact (hlock.trans (finishLocked _ t)).trans (endTask ..)
    · exact hlock.trans (setCoro ..)

theorem exceptBranch (s : Executor) (t : Nat) (ts : Int) (e : Exc) (aux : Aux) :
    Acts t s (s.exceptBranch t ts e aux) := by
  unfold Executor.exceptBranch
  split
  · exact cleanupTask ..
  · split
    · rename_i he; exact (enqueue he).trans (cleanupTask ..)
    · rename_i he; exact (enqueue he).trans (setCoro ..)

theorem afterSuccess (s : Executor) (t : Nat) (ts : Int) (aux : Aux) :
    Acts t s (s.afterSuccess t ts aux) := by
  unfold Executor.afterSuccess
  split
  · exact exceptBranch ..
  · exact cleanupTask ..

theorem handlerEnds (s : Executor) (t : Nat) (ts : Int) (res : Except Exc PyVal) (aux : Aux) :
    Acts t s (s.handlerEnds t ts res aux) := by
  unfold Executor.handlerEnds
  split
  · exact exceptBranch ..
  · exact exceptBranch ..
  · split
    · rename_i he; exact (enqueue he).trans (afterSuccess ..)
    · rename_i he; exact (enqueue he).trans (setCoro ..)

theorem startRun (s : Executor) (t : Nat) (aux : Aux) : Acts t s (s.startRun t aux) := by
  have henter : Acts t s ((s.markStarted t).setCoro t
      (.inHandler (s.callbackTimestamp (s.obj t).data.data))) :=
    (markStarted s).trans (setCoro ..)
  simp only [Executor.startRun]
  split
  · split
    · exact henter.trans (endTask ..)
    · exact henter.trans (exceptBranch ..)
    · exact henter
  · exact henter.trans (endTask ..)

theorem resumeTask {aux : Aux} (hs : s.resumeTask t aux = some s') : Acts t s s' := by
  unfold Executor.resumeTask at hs
  split at hs
  · rename_i inTry r _
    have hput : Acts t s (s.unlockWorker.put (s.obj t).data r) := (unlockWorker s).trans (put ..)
    split at hs
    · cases inTry with
      | true => cases hs; exact hput.trans (afterSuccess ..)
      | false => cases hs; exact hput.trans (cleanupTask ..)
    · cases hs
  · rename_i inTry ts _
    cases inTry with
    | true => cases hs; exact exceptBranch ..
    | false => cases hs; exact cleanupTask ..
  · split at hs
    · cases hs; exact (finishLocked s t).trans (endTask ..)
    · cases hs
  · cases hs; exact endTask ..
  · cases hs

theorem cleanupPushed (s : Executor) (t : Nat) (aux : Aux) : Acts t s (s.cleanupPushed t aux) := by
  unfold Executor.cleanupPushed
  split
  · exact setCleanup ..
  · split
    · exact ((lockJob ..).trans (finishLocked _ t)).trans (setCleanup ..)
    · exact (lockJob ..).trans (setCleanup ..)

theorem resumeCleanup {aux : Aux} (hs : s.resumeCleanup t aux = some s') : Acts t s s' := by
  unfold Executor.resumeCleanup at hs
  split at hs
  · split at hs
    · cases hs
      unfold onExecutorTaskDone
      split
      · exact setCleanup ..
      · exact setCleanup ..
    · cases hs
  · cases hs
    have hmark : Acts t s (s.markCleaned t) := modTask s _
    unfold cleanupRun
    split
    · exact setCleanup ..
    · split
      · rename_i he; exact (hmark.trans (enqueue he)).trans (cleanupPushed ..)
      · rename_i he; exact (hmark.trans (enqueue he)).trans (setCleanup ..)
  · split at hs
    · cases hs
      exact ((unlockWorker s).trans (put ..)).trans (cleanupPushed ..)
    · cases hs
  · split at hs
    · cases hs; exact (finishLocked s t).trans (setCleanup ..)
    · cases hs
  · cases hs
  · cases hs

/-- A task touches no other task. -/
theorem frame (h : Acts t s s') : Frame (some t) s s' := by
  induction h with
  | refl => exact .refl
  | trans _ _ ih₁ ih₂ => exact ih₁.trans ih₂
  | modTask s f => exact .modTask t f
  | markStarted s =>
    have hmod : Frame (some t) s (s.modTask t fun o => { o with started := true }) := .modTask t _
    exact hmod.trans (.same rfl rfl)
  | enqueue he => exact .enqueue he
  | finish s => exact .finish s t
  | _ => exact .same rfl rfl

/-- A task touches no call. -/
theorem calls (h : Acts t s s') : s'.call = s.call ∧ s'.nextCall = s.nextCall := by
  induction h with
  | trans _ _ ih₁ ih₂ => exact ⟨ih₂.1.trans ih₁.1, ih₂.2.trans ih₁.2⟩
  | enqueue he => exact enqueue_calls he
  | finish s => exact (finish_callbacks s t).2.2.2
  | _ => exact ⟨rfl, rfl⟩

end Acts

/-! ## Calls -/

theorem kill_obj (t : Nat) (reason : PyStr) :
    ((s.setCancelReason t reason).cancel t).obj =
      Function.update s.obj t (killed reason (s.obj t)) := by
  funext u
  by_cases hu : u = t
  · subst hu
    cases hc : (s.obj u).task <;>
      simp [Executor.cancel, setCancelReason, setCoro, killed, Coro.cancelled, leaveWorker, leaveJob,
        modTask, hc]
  · rw [Function.update_of_ne hu, cancel_other hu]
    exact modTask_other hu

theorem pushFailed_frame {p : Pid} {reason : PyStr} {xs : List Trigger}
    {rest : Option (Trigger × CallbackRequest × List Trigger)}
    (hs : pushFailedQueuedTasks p reason xs s = (s', rest)) :
    s'.obj = s.obj ∧ s'.nextTask = s.nextTask := by
  have hobj := pushFailedQueuedTasks_obj p reason xs s
  rw [hs] at hobj
  exact ⟨hobj, (pushFailed_same hs).nextTask⟩

theorem coverPush_obj (s : Executor) (n : Nat) (d : RunData) (reason : PyStr)
    (rest : List Trigger) : (s.coverPush n d reason rest).obj = s.obj := by
  unfold coverPush
  split
  · rename_i hs; exact (pushFailed_frame hs).1
  · rename_i hs; exact (pushFailed_frame hs).1

theorem cancelPush_obj (s : Executor) (n : Nat) (reason : PyStr) (t : Option Nat)
    (rest : List Trigger) : (s.cancelPush n reason t rest).obj = s.obj := by
  unfold cancelPush
  split
  · rename_i hs
    split
    · exact (pushFailed_frame hs).1
    · exact (pushFailed_frame hs).1
  · rename_i hs; exact (pushFailed_frame hs).1

theorem takePending_obj (s : Executor) (j : JobId) : (s.takePending j).1.obj = s.obj := by
  rw [takePending_fst]

/-- The task objects, with `o` killed. -/
def killedObj (s : Executor) (reason : PyStr) : Option Nat → Nat → XXLTask
  | some t => Function.update s.obj t (killed reason (s.obj t))
  | none => s.obj

theorem killCurrent_obj (s : Executor) (j : JobId) (reason : PyStr) :
    (s.killCurrent j reason).obj = s.killedObj reason (s.tasks j) := by
  unfold killCurrent
  cases s.tasks j with
  | none => rfl
  | some t => exact kill_obj t reason

theorem cancelLocked_obj (s : Executor) (j : JobId) (includeQueue : Bool) (reason : PyStr) :
    (s.cancelLocked j includeQueue reason).1.obj = s.killedObj reason (s.tasks j) := by
  cases includeQueue with
  | false => exact killCurrent_obj s j reason
  | true =>
    have h := killCurrent_obj (s.takePending j).1 j reason
    have hobj : ∀ o, (s.takePending j).1.killedObj reason o = s.killedObj reason o := by
      intro o
      cases o <;> simp [killedObj, takePending_obj]
    rw [hobj, show (s.takePending j).1.tasks = s.tasks by rw [takePending_fst]] at h
    exact h

/-- A call moves no task but the one it cancels. -/
structure Kills (o : Option Nat) (s s' : Executor) : Prop where
  frame : Frame o s s'
  killed : ∀ t, o = some t → ∃ reason, s'.obj t = killed reason (s.obj t)

theorem Kills.nobody (h : Frame none s s') : Kills none s s' := ⟨h, fun _ ht => by cases ht⟩

theorem Kills.of_obj {t : Option Nat} (reason : PyStr) (hn : s'.nextTask = s.nextTask)
    (ho : s'.obj = s.killedObj reason t) : Kills t s s' := by
  cases t with
  | none => exact .nobody (.same ho hn)
  | some t =>
    refine ⟨⟨fun u hu => .inl ?_, hn.ge⟩, fun u hu => ⟨reason, ?_⟩⟩
    · rw [ho, killedObj, Function.update_of_ne fun he => hu (by rw [he])]
    · cases hu; rw [ho, killedObj, Function.update_self]

theorem runJobLocked_kills (hb : Books s) (n : Nat) (d : RunData) :
    Kills (if s.covers d then s.tasks d.jobId else none) s (s.runJobLocked n d) := by
  have hret : ∀ res, Frame none s (s.runReturn n d.jobId res) := fun res => .same rfl rfl
  generalize ho : (if s.covers d then s.tasks d.jobId else none) = o
  unfold runJobLocked
  split
  · rename_i hl
    rw [if_neg fun hc => hc.1 hl] at ho
    subst ho
    exact .nobody (hret _)
  · rename_i hl
    split
    · rename_i hi
      have hnone : s.tasks d.jobId = none := by
        simp only [idle, Bool.and_eq_true, Option.isNone_iff_eq_none] at hi
        exact hi.1.1
      rw [hnone, ite_self] at ho
      subst ho
      have hstart : Frame none s (s.startIdle d) := .createTask rfl rfl
      exact .nobody (hstart.trans (.same rfl rfl))
    · rename_i hi
      obtain ⟨t, ht⟩ := hb.busy (by simpa using hi)
      split
      · rename_i hd
        rw [if_neg fun hc => absurd (hc.2.symm.trans hd) (by decide)] at ho
        subst ho
        exact .nobody (hret _)
      · split
        · rename_i hcov
          rw [if_pos ⟨hl, hcov⟩, ht] at ho
          subst ho
          refine .of_obj coverReason ?_ ?_
          · rw [handleCoverEarly, (coverPush_same ..).nextTask, (coverEarly_sameBooks ht).nextTask,
              (fillCover_joins (takePending_pending s d.jobId)).nextTask, takePending_fst]
          · rw [handleCoverEarly, coverPush_obj, coverEarly_fst ht, kill_obj,
              (fillCover_joins (takePending_pending s d.jobId)).obj, takePending_obj, killedObj]
        · rename_i hcov
          rw [if_neg fun hc => hcov hc.2] at ho
          subst ho
          split
          · unfold handleSerialExecution
            split
            · exact .nobody (hret _)
            · exact .nobody (.same rfl rfl)
          · exact .nobody (hret _)

theorem cancelJobLocked_kills (s : Executor) (n : Nat) (j : JobId) (includeQueue : Bool)
    (reason : PyStr) : Kills (s.tasks j) s (s.cancelJobLocked n j includeQueue reason) := by
  refine .of_obj reason ?_ ?_
  · unfold cancelJobLocked
    refine (cancelPush_same ..).nextTask.trans ?_
    show (s.cancelLocked j includeQueue reason).1.nextTask = s.nextTask
    cases includeQueue with
    | false => exact (SameBooks.killCurrent j reason).nextTask
    | true =>
      have htake : (s.takePending j).1.nextTask = s.nextTask := by rw [takePending_fst]
      exact (SameBooks.killCurrent j reason).nextTask.trans htake
  · unfold cancelJobLocked
    exact (cancelPush_obj ..).trans (cancelLocked_obj s j includeQueue reason)

/-! ## Every event -/

theorem Kills.before (s' : Executor) (h₁ : Frame none s s') (ho : s'.obj = s.obj)
    (h₂ : Kills o s' s'') :
    Kills o s s'' where
  frame := by
    have hframe : Frame o s s' := ⟨fun u _ => h₁.kept u (by simp), h₁.mono⟩
    exact hframe.trans h₂.frame
  killed t ht := by rw [← ho]; exact h₂.killed t ht

/-- An event that runs no task kills the task it is delivered to and moves no other. -/
theorem step_kills (hb : Books s) (hs : step s e = some s') (he : e.task = none) :
    Kills (e.target s) s s' := by
  have hsame : ∀ s₂ : Executor, s₂.obj = s.obj → s₂.nextTask = s.nextTask → Kills none s s₂ :=
    fun s₂ ho hn => .nobody (.same ho hn)
  cases e with
  | runJob d =>
    cases hs
    have hlock : SameBooks s (s.openCall.lockJob d.jobId (.call s.nextCall)) :=
      SameBooks.openCall.trans (.lockJob _ _)
    simp only [runJob]
    split
    · rename_i hh
      split
      · rename_i hfree
        simp only [Event.target, Event.checks, hh, hfree, and_self, if_true]
        exact .before (s.openCall.lockJob d.jobId (.call s.nextCall)) (.same rfl rfl) rfl
          (runJobLocked_kills (hb.congr hlock) s.nextCall d)
      · rename_i hfree
        simp only [Event.target, Event.checks, Event.kills, hfree, and_false, if_false]
        exact hsame _ rfl rfl
    · rename_i hh
      have hh' : s.handler d.executorHandler = false := by simpa using hh
      simp only [Event.target, Event.checks, Event.kills, hh', Bool.false_eq_true, false_and,
        if_false]
      exact hsame _ rfl rfl
  | cancelJob j includeQueue reason =>
    cases hs
    simp only [cancelJob]
    split
    · rename_i hfree
      simp only [Event.target, Event.checks, Event.kills, hfree, if_true]
      exact .before (s.openCall.lockJob j (.call s.nextCall)) (.same rfl rfl) rfl
        (cancelJobLocked_kills (s.openCall.lockJob j (.call s.nextCall)) s.nextCall j includeQueue
          reason)
    · rename_i hfree
      simp only [Event.target, Event.checks, Event.kills, hfree, if_false]
      exact hsame _ rfl rfl
  | resumeCall n =>
    simp only [step] at hs
    split at hs
    · unfold resumeCall at hs
      split at hs
      · rename_i d hc
        split at hs
        · cases hs
          simp only [Event.target, Event.checks, hc]
          exact runJobLocked_kills hb n d
        · cases hs
      · rename_i d x r rest reason hc
        split at hs
        · cases hs
          simp only [Event.target, Event.checks, Event.kills, hc]
          exact hsame _ (coverPush_obj ..) (coverPush_same ..).nextTask
        · cases hs
      · rename_i j includeQueue reason hc
        split at hs
        · cases hs
          simp only [Event.target, Event.checks, Event.kills, hc]
          exact cancelJobLocked_kills s n j includeQueue reason
        · cases hs
      · rename_i x r rest reason u hc
        split at hs
        · cases hs
          simp only [Event.target, Event.checks, Event.kills, hc]
          exact hsame _ (cancelPush_obj ..) (cancelPush_same ..).nextTask
        · cases hs
      · rename_i u hc
        simp only [Event.target, Event.checks, Event.kills, hc]
        split at hs
        · cases hs; exact hsame _ rfl rfl
        · cases hs; exact hsame _ rfl rfl
        · cases hs
      · cases hs
      · cases hs
      · cases hs
    · cases hs
  | setHandler handler => cases hs; exact hsame _ rfl rfl
  | stopCalled close => cases hs; exact hsame _ rfl rfl
  | stopLock n => cases hs; exact hsame _ rfl rfl
  | stopUnlock n =>
    simp only [step] at hs
    split at hs
    · cases hs; exact hsame _ rfl rfl
    · cases hs
  | tick now => cases hs; exact hsame _ rfl rfl
  | _ => cases he

theorem step_acts (hs : step s e = some s') (he : e.task = some t) : Acts t s s' := by
  cases e with
  | start u aux =>
    cases he
    simp only [step] at hs
    split at hs
    · cases hs; exact .startRun ..
    · cases hs
  | abort u =>
    cases he
    simp only [step] at hs
    split at hs
    · cases hs; exact .endTask ..
    · cases hs
  | handlerEnds u res aux =>
    cases he
    simp only [step] at hs
    split at hs
    · cases hs; exact .handlerEnds ..
    · cases hs
  | resumeTask u aux => cases he; exact .resumeTask hs
  | resumeCleanup u aux => cases he; exact .resumeCleanup hs
  | _ => cases he

theorem step_frame (hs : step s e = some s') (he : e.task = some t) : Frame (some t) s s' :=
  (step_acts hs he).frame

/-- A task that exists stays as it was, unless the event runs it or is a `cancel()` of it. -/
theorem step_obj (hb : Books s) (hs : step s e = some s') (ht : t < s.nextTask)
    (he : e.task ≠ some t) :
    s'.obj t = s.obj t ∨ e.target s = some t ∧ ∃ reason, s'.obj t = killed reason (s.obj t) := by
  have hlt : ¬s.nextTask ≤ t := by omega
  cases ho : e.task with
  | some u =>
    rcases (step_frame hs ho).kept t (by rw [← ho]; exact he) with h | h
    · exact .inl h
    · exact absurd h.1 hlt
  | none =>
    have hk := step_kills hb hs ho
    by_cases hu : e.target s = some t
    · exact .inr ⟨hu, hk.killed t hu⟩
    · rcases hk.frame.kept t hu with h | h
      · exact .inl h
      · exact absurd h.1 hlt

/-- A task that appears in the event has not begun, unless the event itself ran it. -/
theorem step_new {strict : Nat → Prop} (hi : Inv strict s) (hs : step s e = some s')
    (ht : s.nextTask ≤ t) :
    s'.obj t = noTask ∨ ∃ x, s'.obj t = newTask x := by
  have hkept : s'.obj t = s.obj t ∨ s.nextTask ≤ t ∧ ∃ x, s'.obj t = newTask x := by
    cases ho : e.task with
    | some u =>
      refine (step_frame hs ho).kept t fun he => ?_
      have := task_lt hi hs ho
      cases he
      omega
    | none =>
      refine (step_kills hi.books hs ho).frame.kept t fun he => ?_
      have hcur : ∃ j, s.tasks j = some t := by
        unfold Event.target at he
        split at he
        · split at he
          · exact ⟨_, he⟩
          · cases he
        · exact ⟨_, he⟩
        · cases he
      obtain ⟨j, hj⟩ := hcur
      have := hi.books.tasks_lt hj
      omega
  rcases hkept with h | ⟨-, h⟩
  · rw [hi.fresh t ht] at h; exact .inl h
  · exact .inr h

end Executor
end Pyxxl
