import Pyxxl.Executor.Frame

/-!
# Pyxxl.Executor.Codes

What the callbacks say: as long as the manager is not closed none is dropped, and a trigger that
has not started gets no other code than 500.
-/

namespace Pyxxl
namespace Executor

variable {s s' : Executor} {t n : Nat}

/-- The request the call waits with reports a failure. -/
def Call.fails : Call → Prop
  | .coverPush _ _ r _ _ => r.code = 500
  | .cancelPush _ r _ _ _ => r.code = 500
  | _ => True

def Cleanup.fails : Cleanup → Prop
  | .pushing r => r.code = 500
  | _ => True

structure Codes (s : Executor) : Prop where
  opened : s.closed = false
  undropped : s.dropped = []
  sent : ∀ p ∈ s.callbacks, p.2.code = 500 ∨ p.1 ∈ s.started
  call : ∀ n, (s.call n).fails
  cleanup : ∀ t, (s.obj t).cleanup.fails

theorem codes_init (handler : String → Bool) (m : Int) : Codes (init handler m) where
  opened := rfl
  undropped := rfl
  sent p hp := by cases hp
  call _ := trivial
  cleanup _ := trivial

namespace Codes

/-- A step that sends nothing, and starts no cleanup. -/
theorem of_frame (h : Codes s) (hf : Frame none s s') (hcb : s'.callbacks = s.callbacks)
    (hd : s'.dropped = s.dropped) (hc : s'.closed = s.closed) (hcall : s'.call = s.call)
    (hst : s'.started = s.started) : Codes s' where
  opened := hc.trans h.opened
  undropped := hd.trans h.undropped
  sent := by rw [hcb, hst]; exact h.sent
  call := by rw [hcall]; exact h.call
  cleanup u := by
    rcases hf.kept u (by simp) with hu | ⟨-, x, hu⟩
    · rw [hu]; exact h.cleanup u
    · rw [hu]; exact trivial

theorem same (h : Codes s) (ho : s'.obj = s.obj) (hn : s'.nextTask = s.nextTask)
    (hcb : s'.callbacks = s.callbacks) (hd : s'.dropped = s.dropped) (hc : s'.closed = s.closed)
    (hcall : s'.call = s.call) (hst : s'.started = s.started) : Codes s' :=
  h.of_frame (.same ho hn) hcb hd hc hcall hst

theorem modTask (h : Codes s) (t : Nat) (f : XXLTask → XXLTask)
    (hk : (f (s.obj t)).cleanup.fails) : Codes (s.modTask t f) where
  opened := h.opened
  undropped := h.undropped
  sent := h.sent
  call := h.call
  cleanup u := by
    by_cases he : u = t
    · subst he; rw [modTask_self]; exact hk
    · rw [modTask_other he]; exact h.cleanup u

theorem setCall (h : Codes s) (n : Nat) {c : Call} (hc : c.fails) : Codes (s.setCall n c) where
  opened := h.opened
  undropped := h.undropped
  sent := h.sent
  call m := by
    by_cases he : m = n
    · subst he; simpa [Executor.setCall] using hc
    · simpa [Executor.setCall, he] using h.call m
  cleanup := h.cleanup

theorem put (h : Codes s) {x : Trigger} {r : CallbackRequest}
    (hr : r.code = 500 ∨ x ∈ s.started) : Codes (s.put x r) where
  opened := h.opened
  undropped := h.undropped
  sent p hp := by
    simp only [Executor.put, List.mem_append, List.mem_singleton] at hp
    rcases hp with hp | rfl
    · exact h.sent p hp
    · exact hr
  call := h.call
  cleanup := h.cleanup

theorem unlockWorker (h : Codes s) : Codes s.unlockWorker := h.same rfl rfl rfl rfl rfl rfl rfl

theorem unlockJob (h : Codes s) (j : JobId) : Codes (s.unlockJob j) :=
  h.same rfl rfl rfl rfl rfl rfl rfl

theorem enqueue (h : Codes s) {p : Pid} {x : Trigger} {r : CallbackRequest} {b : Bool}
    (hr : r.code = 500 ∨ x ∈ s.started) (he : s.enqueue p x r = (s', b)) : Codes s' := by
  unfold Executor.enqueue at he
  rw [h.opened] at he
  simp only [Bool.false_eq_true, if_false] at he
  split at he
  · cases he; exact h.put hr
  · cases he; exact h.same rfl rfl rfl rfl rfl rfl rfl

theorem finish (h : Codes s) (t : Nat) : Codes (s.finish t) := by
  obtain ⟨hcb, hd, hc, hcall, -⟩ := finish_callbacks s t
  exact h.of_frame (.finish s t) hcb hd hc hcall (finish_history s t).2.2

theorem finishLocked (h : Codes s) (t : Nat) : Codes (s.finishLocked t) :=
  (h.finish t).same rfl rfl rfl rfl rfl rfl rfl

/-! ## Tasks -/

theorem endTask (h : Codes s) (t : Nat) (exc : Option Exc) : Codes (s.endTask t exc) :=
  h.modTask t _ trivial

theorem cleanupTask (h : Codes s) (t : Nat) (exc : Option Exc) : Codes (s.cleanupTask t exc) := by
  unfold Executor.cleanupTask
  split
  · exact h.endTask t exc
  · have hlock : Codes ((s.markCleaned t).lockJob (s.obj t).data.jobId (.task t)) :=
      same (s := s.markCleaned t) (h.modTask t _ (h.cleanup t)) rfl rfl rfl rfl rfl rfl rfl
    split
    · exact (hlock.finishLocked t).endTask t exc
    · exact hlock.modTask t _ (hlock.cleanup t)

theorem exceptBranch (h : Codes s) (t : Nat) (ts : Int) (e : Exc) (aux : Aux) :
    Codes (s.exceptBranch t ts e aux) := by
  unfold Executor.exceptBranch
  split
  · exact h.cleanupTask t _
  · split
    · rename_i he; exact (h.enqueue (.inl rfl) he).cleanupTask t _
    · rename_i s' he
      have h' := h.enqueue (.inl rfl) he
      exact h'.modTask t _ (h'.cleanup t)

theorem afterSuccess (h : Codes s) (t : Nat) (ts : Int) (aux : Aux) :
    Codes (s.afterSuccess t ts aux) := by
  unfold Executor.afterSuccess
  split
  · exact h.exceptBranch t ts _ aux
  · exact h.cleanupTask t none

/-- Only a task that has started sends a code of its own. -/
theorem handlerEnds (h : Codes s) (t : Nat) (ts : Int) (res : Except Exc PyVal) (aux : Aux)
    (hst : (s.obj t).data ∈ s.started) : Codes (s.handlerEnds t ts res aux) := by
  unfold Executor.handlerEnds
  split
  · exact h.exceptBranch t ts _ aux
  · exact h.exceptBranch t ts _ aux
  · split
    · rename_i he; exact (h.enqueue (.inr hst) he).afterSuccess t ts aux
    · rename_i s' he
      have h' := h.enqueue (.inr hst) he
      exact h'.modTask t _ (h'.cleanup t)

theorem startRun (h : Codes s) (t : Nat) (aux : Aux) : Codes (s.startRun t aux) := by
  have hmark : Codes (s.markStarted t) := by
    have hm := h.modTask t (fun o => { o with started := true }) (h.cleanup t)
    exact ⟨hm.opened, hm.undropped, fun p hp => (hm.sent p hp).imp_right
      (List.mem_append_left _), hm.call, hm.cleanup⟩
  have henter := hmark.modTask t
    (fun o => { o with task := .inHandler (s.callbackTimestamp (s.obj t).data.data) })
    (hmark.cleanup t)
  simp only [Executor.startRun]
  split
  · split
    · exact endTask henter t _
    · exact exceptBranch henter t _ _ aux
    · exact henter
  · exact endTask henter t _

theorem resumeTask (h : Codes s) {aux : Aux}
    (hst : (s.obj t).started = true → (s.obj t).data ∈ s.started)
    (hrun : ∀ inTry r, (s.obj t).task = .pushing inTry r → (s.obj t).started = true)
    (hs : s.resumeTask t aux = some s') : Codes s' := by
  unfold Executor.resumeTask at hs
  split at hs
  · rename_i inTry r hc
    have hput : Codes (s.unlockWorker.put (s.obj t).data r) :=
      h.unlockWorker.put (.inr (hst (hrun inTry r hc)))
    split at hs
    · cases inTry with
      | true => cases hs; exact hput.afterSuccess t _ aux
      | false => cases hs; exact hput.cleanupTask t _
    · cases hs
  · rename_i inTry ts _
    cases inTry with
    | true => cases hs; exact h.exceptBranch t _ _ aux
    | false => cases hs; exact h.cleanupTask t _
  · split at hs
    · cases hs; exact (h.finishLocked t).endTask t _
    · cases hs
  · cases hs; exact h.endTask t _
  · cases hs

theorem cleanupPushed (h : Codes s) (t : Nat) (aux : Aux) : Codes (s.cleanupPushed t aux) := by
  have hlock : Codes (s.lockJob (s.obj t).data.jobId (.cleanup t)) :=
    h.same rfl rfl rfl rfl rfl rfl rfl
  unfold Executor.cleanupPushed
  split
  · exact h.modTask t _ trivial
  · split
    · exact (hlock.finishLocked t).modTask t _ trivial
    · exact hlock.modTask t _ trivial

theorem resumeCleanup (h : Codes s) {aux : Aux} (hs : s.resumeCleanup t aux = some s') :
    Codes s' := by
  have hfail := h.cleanup t
  unfold Executor.resumeCleanup at hs
  split at hs
  · split at hs
    · cases hs
      unfold onExecutorTaskDone
      split
      · exact h.modTask t _ trivial
      · exact h.modTask t _ trivial
    · cases hs
  · cases hs
    have hmark : Codes (s.markCleaned t) := h.modTask t _ (h.cleanup t)
    unfold cleanupRun
    split
    · exact h.modTask t _ trivial
    · split
      · rename_i he; exact (hmark.enqueue (.inl rfl) he).cleanupPushed t aux
      · rename_i he; exact (hmark.enqueue (.inl rfl) he).modTask t _ rfl
  · rename_i r hk
    rw [hk] at hfail
    split at hs
    · cases hs
      exact (h.unlockWorker.put (.inl hfail)).cleanupPushed t aux
    · cases hs
  · split at hs
    · cases hs; exact (h.finishLocked t).modTask t _ trivial
    · cases hs
  · cases hs
  · cases hs

/-! ## Calls -/

theorem pushFailed {p : Pid} {reason : PyStr} :
    ∀ {xs : List Trigger} {s s' : Executor}
      {rest : Option (Trigger × CallbackRequest × List Trigger)}, Codes s →
      pushFailedQueuedTasks p reason xs s = (s', rest) →
        Codes s' ∧ ∀ y r ys, rest = some (y, r, ys) → r.code = 500 := by
  intro xs
  induction xs with
  | nil => intro s s' rest h hs; cases hs; exact ⟨h, fun _ _ _ hr => by cases hr⟩
  | cons y ys ih =>
    intro s s' rest h hs
    simp only [pushFailedQueuedTasks] at hs
    split at hs
    · rename_i s₁ he; exact ih (h.enqueue (.inl rfl) he) hs
    · rename_i s₁ he
      cases hs
      exact ⟨h.enqueue (.inl rfl) he, fun _ _ _ hr => by cases hr; rfl⟩

theorem coverPush (h : Codes s) (n : Nat) (d : RunData) (reason : PyStr) (rest : List Trigger) :
    Codes (s.coverPush n d reason rest) := by
  unfold Executor.coverPush
  split
  · rename_i s' hs
    have h' : Codes (s'.unlockJob d.jobId) := (pushFailed h hs).1.same rfl rfl rfl rfl rfl rfl rfl
    exact h'.setCall n trivial
  · rename_i s' x r rest' hs
    obtain ⟨h', hr⟩ := pushFailed h hs
    exact h'.setCall n (hr x r rest' rfl)

theorem cancelPush (h : Codes s) (n : Nat) (reason : PyStr) (o : Option Nat)
    (rest : List Trigger) : Codes (s.cancelPush n reason o rest) := by
  unfold Executor.cancelPush
  split
  · rename_i s' hs
    split
    · exact (pushFailed h hs).1.setCall n trivial
    · exact (pushFailed h hs).1.setCall n trivial
  · rename_i s' x r rest' hs
    obtain ⟨h', hr⟩ := pushFailed h hs
    exact h'.setCall n (hr x r rest' rfl)

theorem runReturn (h : Codes s) (n : Nat) (j : JobId) (res : Except RunError Reply) :
    Codes (s.runReturn n j res) :=
  (h.unlockJob j).setCall n trivial

theorem kill (h : Codes s) (t : Nat) (reason : PyStr) :
    Codes ((s.setCancelReason t reason).cancel t) := by
  have hcancel : ∀ s₁ : Executor, Codes s₁ → Codes (s₁.cancel t) := by
    intro s₁ h₁
    have hleave : ∀ s₂ : Executor, Codes s₂ → ∀ c, Codes (s₂.setCoro t c) :=
      fun s₂ h₂ c => h₂.modTask t _ (h₂.cleanup t)
    unfold Executor.cancel
    split
    · exact hleave _ h₁ _
    · exact hleave (s₁.leaveWorker (.task t)) (h₁.same rfl rfl rfl rfl rfl rfl rfl) _
    · exact hleave (s₁.leaveJob (s₁.obj t).data.jobId (.task t))
        (h₁.same rfl rfl rfl rfl rfl rfl rfl) _
    · exact h₁
  exact hcancel _ (h.modTask t _ (h.cleanup t))

theorem killCurrent (h : Codes s) (j : JobId) (reason : PyStr) :
    Codes (s.killCurrent j reason) := by
  unfold Executor.killCurrent
  split
  · exact h.kill _ reason
  · exact h

theorem takePending (h : Codes s) (j : JobId) : Codes (s.takePending j).1 := by
  rw [takePending_fst]
  exact h.same rfl rfl rfl rfl rfl rfl rfl

theorem runJobLocked (hb : Books s) (h : Codes s) (n : Nat) (d : RunData) :
    Codes (s.runJobLocked n d) := by
  unfold Executor.runJobLocked
  split
  · exact h.runReturn n _ _
  · split
    · have hstart : Codes (s.startIdle d) :=
        h.of_frame (.createTask rfl rfl) rfl rfl rfl rfl rfl
      exact hstart.runReturn n _ _
    · rename_i hi
      obtain ⟨t, ht⟩ := hb.busy (by simpa using hi)
      split
      · exact h.runReturn n _ _
      · split
        · unfold handleCoverEarly
          refine coverPush ?_ n d _ _
          rw [coverEarly_fst ht]
          have hfill : Codes ((s.takePending d.jobId).1.fillCover d) :=
            (h.takePending d.jobId).same rfl rfl rfl rfl rfl rfl rfl
          exact hfill.kill t _
        · split
          · unfold handleSerialExecution
            split
            · exact h.runReturn n _ _
            · have hqueue : Codes (s.enqueueSerial d) := h.same rfl rfl rfl rfl rfl rfl rfl
              exact hqueue.runReturn n _ _
          · exact h.runReturn n _ _

theorem cancelJobLocked (h : Codes s) (n : Nat) (j : JobId) (includeQueue : Bool)
    (reason : PyStr) : Codes (s.cancelJobLocked n j includeQueue reason) := by
  have hlocked : Codes (s.cancelLocked j includeQueue reason).1 := by
    cases includeQueue with
    | false => exact h.killCurrent j reason
    | true => exact (h.takePending j).killCurrent j reason
  have hun : Codes ((s.cancelLocked j includeQueue reason).1.unlockJob j) :=
    hlocked.same rfl rfl rfl rfl rfl rfl rfl
  exact hun.cancelPush n reason _ _

theorem openCall (h : Codes s) : Codes s.openCall :=
  (h.setCall s.nextCall (c := .begun) trivial).same rfl rfl rfl rfl rfl rfl rfl

theorem runJob (hb : Books s) (h : Codes s) (d : RunData) : Codes (s.runJob d) := by
  have hlock : Codes (s.openCall.lockJob d.jobId (.call s.nextCall)) :=
    h.openCall.same rfl rfl rfl rfl rfl rfl rfl
  simp only [Executor.runJob]
  split
  · split
    · exact runJobLocked (hb.congr (SameBooks.openCall.trans (.lockJob _ _))) hlock _ d
    · exact hlock.setCall _ trivial
  · exact h.openCall.setCall _ trivial

theorem cancelJob (h : Codes s) (j : JobId) (includeQueue : Bool) (reason : PyStr) :
    Codes (s.cancelJob j includeQueue reason) := by
  have hlock : Codes (s.openCall.lockJob j (.call s.nextCall)) :=
    h.openCall.same rfl rfl rfl rfl rfl rfl rfl
  simp only [Executor.cancelJob]
  split
  · exact hlock.cancelJobLocked _ j includeQueue reason
  · exact hlock.setCall _ trivial

theorem resumeCall (hb : Books s) (h : Codes s) (hs : s.resumeCall n = some s') : Codes s' := by
  have hfail := h.call n
  unfold Executor.resumeCall at hs
  split at hs
  · split at hs
    · cases hs; exact runJobLocked hb h n _
    · cases hs
  · rename_i d x r rest reason hc
    rw [hc] at hfail
    split at hs
    · cases hs
      exact (h.unlockWorker.put (.inl hfail)).coverPush n d reason rest
    · cases hs
  · split at hs
    · cases hs; exact h.cancelJobLocked n _ _ _
    · cases hs
  · rename_i x r rest reason o hc
    rw [hc] at hfail
    split at hs
    · cases hs
      exact (h.unlockWorker.put (.inl hfail)).cancelPush n reason o rest
    · cases hs
  · split at hs
    · cases hs; exact h.setCall n trivial
    · cases hs; exact h.setCall n trivial
    · cases hs
  · cases hs
  · cases hs
  · cases hs

/-- Every event that does not close the manager keeps this. -/
theorem step {strict : Nat → Prop} (hi : Inv strict s) (h : Codes s) {e : Event}
    (hn : e ≠ .stopCalled true) (hs : s.step e = some s') : Codes s' := by
  have htask : ∀ u, e.task = some u → u < s.nextTask := fun u he => task_lt hi hs he
  cases e with
  | runJob d => cases hs; exact runJob hi.books h d
  | cancelJob j includeQueue reason => cases hs; exact h.cancelJob j includeQueue reason
  | resumeCall n =>
    simp only [Executor.step] at hs
    split at hs
    · exact resumeCall hi.books h hs
    · cases hs
  | start t aux =>
    simp only [Executor.step] at hs
    split at hs
    · cases hs; exact h.startRun t aux
    · cases hs
  | abort t =>
    simp only [Executor.step] at hs
    split at hs
    · cases hs; exact h.endTask t _
    · cases hs
  | handlerEnds t res aux =>
    simp only [Executor.step] at hs
    split at hs
    · rename_i ts ht
      cases hs
      have hr := running_of_inHandler hi (htask t rfl) ht
      exact h.handlerEnds t ts res aux (hi.books.startedKnown t hr.lt hr.started)
    · cases hs
  | resumeTask t aux =>
    refine h.resumeTask (hi.books.startedKnown t (htask t rfl)) (fun inTry r hc => ?_) hs
    have hok := hi.tasks t (htask t rfl)
    simp only [TaskOk, hc] at hok
    exact hok.1
  | resumeCleanup t aux => exact h.resumeCleanup hs
  | setHandler handler => cases hs; exact h.same rfl rfl rfl rfl rfl rfl rfl
  | stopCalled close =>
    cases hs
    cases close with
    | true => exact absurd rfl hn
    | false =>
      exact ⟨by simp [h.opened], h.undropped, h.sent, h.call, h.cleanup⟩
  | stopLock n => cases hs; exact h.same rfl rfl rfl rfl rfl rfl rfl
  | stopUnlock n =>
    simp only [Executor.step] at hs
    split at hs
    · cases hs; exact h.same rfl rfl rfl rfl rfl rfl rfl
    · cases hs
  | tick now => cases hs; exact h.same rfl rfl rfl rfl rfl rfl rfl

end Codes

end Executor
end Pyxxl
