import Pyxxl.Executor.Cancelled
import Pyxxl.Executor.Resting

/-!
# Pyxxl.Executor.Killed

What a `cancel_job` with `include_queue` leaves of the triggers that were accepted before it entered
its critical section, and what it does not touch.

* `Past s n o`: where call `n` stands after its critical section, with the task `o` it cancelled.
* `KillsOnly`, `OnlyReports`: all that the critical section and the rest of the call change.
* `Spared`, `Prepared`: the conditions on the steps of a run and on the state that the kill meets.
* `kill_leaves_nothing`: when the call has returned, every such trigger is out of the books and has
  its one callback.
-/

namespace Pyxxl
namespace Executor

open Transition

variable {strict : Nat → Prop} {s s' s'' : Executor} {e : Event} {j : JobId} {n t : Nat}
  {x : Trigger} {o : Option Nat}

/-! ## The other calls -/

theorem coverPush_calls (s : Executor) {m : Nat} (hm : m ≠ n) (d : RunData) (reason : PyStr)
    (rest : List Trigger) : (s.coverPush n d reason rest).call m = s.call m ∧
      (s.coverPush n d reason rest).nextCall = s.nextCall := by
  unfold coverPush
  split
  · rename_i hs
    obtain ⟨h1, h2⟩ := pushFailed_calls hs
    exact ⟨by simp [runReturn, unlockJob, setCall, hm, h1], h2⟩
  · rename_i hs
    obtain ⟨h1, h2⟩ := pushFailed_calls hs
    exact ⟨by simp [setCall, hm, h1], h2⟩

theorem runJobLocked_calls (hb : Books s) {m : Nat} (hm : m ≠ n) (d : RunData) :
    (s.runJobLocked n d).call m = s.call m ∧ (s.runJobLocked n d).nextCall = s.nextCall := by
  have hret : ∀ s₁ : Executor, s₁.call = s.call → s₁.nextCall = s.nextCall → ∀ res,
      (s₁.runReturn n d.jobId res).call m = s.call m ∧
        (s₁.runReturn n d.jobId res).nextCall = s.nextCall := by
    intro s₁ hc hn res
    exact ⟨by simp [runReturn, unlockJob, setCall, hm, hc], hn⟩
  unfold runJobLocked
  split
  · exact hret s rfl rfl _
  split
  · exact hret _ rfl rfl _
  rename_i hi
  obtain ⟨t, ht⟩ := hb.busy (by simpa using hi)
  split
  · exact hret s rfl rfl _
  split
  · obtain ⟨h1, h2⟩ := coverEarly_call (d := d) ht
    obtain ⟨h3, h4⟩ := coverPush_calls (s.coverEarly d).1 hm d coverReason (s.coverEarly d).2
    exact ⟨h3.trans (by rw [h1]), h4.trans h2⟩
  split
  · unfold handleSerialExecution
    split
    · exact hret s rfl rfl _
    · exact hret _ rfl rfl _
  · exact hret s rfl rfl _

theorem cancelJobLocked_calls (s : Executor) {m : Nat} (hm : m ≠ n) (j : JobId)
    (includeQueue : Bool) (reason : PyStr) :
    (s.cancelJobLocked n j includeQueue reason).call m = s.call m ∧
      (s.cancelJobLocked n j includeQueue reason).nextCall = s.nextCall := by
  obtain ⟨h1, h2⟩ := cancelLocked_calls s j includeQueue reason
  obtain ⟨h3, h4⟩ := cancelPush_calls ((s.cancelLocked j includeQueue reason).1.unlockJob j) hm
    reason ((s.cancelLocked j includeQueue reason).1.tasks j)
    (s.cancelLocked j includeQueue reason).2
  refine ⟨h3.trans ?_, h4.trans h2⟩
  show (s.cancelLocked j includeQueue reason).1.call m = s.call m
  rw [h1]

theorem runJob_calls (hb : Books s) (d : RunData) (hn : n < s.nextCall) :
    (s.runJob d).call n = s.call n ∧ (s.runJob d).nextCall = s.nextCall + 1 := by
  have hne : n ≠ s.nextCall := by omega
  simp only [runJob]
  split
  · split
    · have hb' : Books (s.openCall.lockJob d.jobId (.call s.nextCall)) :=
        hb.congr (SameBooks.openCall.trans (.lockJob _ _))
      obtain ⟨h1, h2⟩ := runJobLocked_calls hb' hne d
      exact ⟨h1.trans (by simp [lockJob, openCall, hne]), h2⟩
    · exact ⟨by simp [setCall, lockJob, openCall, hne], rfl⟩
  · exact ⟨by simp [setCall, openCall, hne], rfl⟩

theorem resumeCall_calls (hb : Books s) {m : Nat} (hm : m ≠ n) (hs : s.resumeCall n = some s') :
    s'.call m = s.call m ∧ s'.nextCall = s.nextCall := by
  unfold resumeCall at hs
  split at hs
  · split at hs
    · cases hs; exact runJobLocked_calls hb hm _
    · cases hs
  · split at hs
    · cases hs; exact coverPush_calls _ hm _ _ _
    · cases hs
  · split at hs
    · cases hs; exact cancelJobLocked_calls s hm _ _ _
    · cases hs
  · split at hs
    · cases hs; exact cancelPush_calls _ hm _ _ _
    · cases hs
  · split at hs
    · cases hs; exact ⟨by simp [setCall, hm], rfl⟩
    · cases hs; exact ⟨by simp [setCall, hm], rfl⟩
    · cases hs
  · cases hs
  · cases hs
  · cases hs

/-- A call changes its place in its own events only. -/
theorem step_call (hb : Books s) (hs : step s e = some s') (hn : n < s.nextCall)
    (he : e ≠ .resumeCall n) : s'.call n = s.call n ∧ n < s'.nextCall := by
  cases ho : e.task with
  | some u =>
    obtain ⟨h1, h2⟩ := (step_acts hs ho).calls
    rw [h1, h2]
    exact ⟨rfl, hn⟩
  | none =>
    cases e with
    | runJob d =>
      cases hs
      obtain ⟨h1, h2⟩ := runJob_calls hb d hn
      exact ⟨h1, by omega⟩
    | cancelJob j includeQueue reason =>
      cases hs
      obtain ⟨h1, h2⟩ := cancelJob_calls s j includeQueue reason hn
      exact ⟨h1, by omega⟩
    | resumeCall m =>
      have hm : n ≠ m := fun h => he (by rw [h])
      simp only [step] at hs
      split at hs
      · obtain ⟨h1, h2⟩ := resumeCall_calls hb hm hs
        exact ⟨h1, by omega⟩
      · cases hs
    | setHandler handler => cases hs; exact ⟨rfl, hn⟩
    | stopCalled close => cases hs; exact ⟨rfl, hn⟩
    | stopLock m => cases hs; exact ⟨rfl, hn⟩
    | stopUnlock m =>
      simp only [step] at hs
      split at hs
      · cases hs; exact ⟨rfl, hn⟩
      · cases hs
    | tick now => cases hs; exact ⟨rfl, hn⟩
    | _ => cases ho

/-! ## After the critical section -/

/-- Nothing but callbacks for some of the triggers `xs`, and the place of call `n`. -/
structure OnlyReports (n : Nat) (xs : List Trigger) (s s' : Executor) : Prop where
  books : SameBooks s s'
  obj : s'.obj = s.obj
  jobLocks : s'.jobLocks = s.jobLocks
  call : ∀ m, m ≠ n → s'.call m = s.call m
  nextCall : s'.nextCall = s.nextCall
  callbacks : ∃ new, s'.callbacks = s.callbacks ++ new ∧ ∀ p ∈ new, p.1 ∈ xs

theorem enqueue_reports {p : Pid} {y : Trigger} {r : CallbackRequest} {b : Bool}
    (he : s.enqueue p y r = (s', b)) : s'.jobLocks = s.jobLocks ∧
      ∃ new, s'.callbacks = s.callbacks ++ new ∧ ∀ q ∈ new, q.1 = y := by
  unfold enqueue at he
  split at he
  · cases he; exact ⟨rfl, [], by simp, by simp⟩
  · split at he
    · cases he; exact ⟨rfl, [(y, r)], rfl, by simp⟩
    · cases he; exact ⟨rfl, [], by simp [lockWorker], by simp⟩

theorem pushFailed_reports {p : Pid} {reason : PyStr} {xs : List Trigger}
    {rest : Option (Trigger × CallbackRequest × List Trigger)}
    (hs : pushFailedQueuedTasks p reason xs s = (s', rest)) : s'.jobLocks = s.jobLocks ∧
      (∃ new, s'.callbacks = s.callbacks ++ new ∧ ∀ q ∈ new, q.1 ∈ xs) ∧ left rest ⊆ xs := by
  induction xs generalizing s s' rest with
  | nil => cases hs; exact ⟨rfl, ⟨[], by simp, by simp⟩, List.Subset.refl _⟩
  | cons y ys ih =>
    simp only [pushFailedQueuedTasks] at hs
    split at hs
    · rename_i s₁ he
      obtain ⟨hl, new, hnew, hy⟩ := enqueue_reports he
      obtain ⟨hl', ⟨new', hnew', hys⟩, hleft⟩ := ih hs
      refine ⟨hl'.trans hl, ⟨new ++ new', by rw [hnew', hnew, List.append_assoc], fun q hq => ?_⟩,
        List.subset_cons_of_subset _ hleft⟩
      rcases List.mem_append.mp hq with hq | hq
      · rw [hy q hq]; exact List.mem_cons_self
      · exact List.mem_cons_of_mem _ (hys q hq)
    · rename_i s₁ he
      cases hs
      obtain ⟨hl, new, hnew, hy⟩ := enqueue_reports he
      exact ⟨hl, ⟨new, hnew, fun q hq => by rw [hy q hq]; exact List.mem_cons_self⟩,
        List.Subset.refl _⟩

/-- The triggers whose failures a call has still to enqueue. -/
def Call.inHands : Call → List Trigger
  | .coverPush _ y _ rest _ => y :: rest
  | .cancelPush y _ rest _ _ => y :: rest
  | _ => []

/-- Where call `n` stands after its critical section, with the task it has cancelled. -/
inductive Past (s : Executor) (n : Nat) (o : Option Nat) : Prop where
  | pushing (y : Trigger) (r : CallbackRequest) (rest : List Trigger) (reason : PyStr)
      (h : s.call n = .cancelPush y r rest reason o)
  | awaiting (t : Nat) (ho : o = some t) (h : s.call n = .cancelAwait t)
  | ended (exc : Option Exc) (h : s.call n = .cancelDone exc)
      (hd : ∀ t, o = some t → (s.obj t).cleanup ≠ .idle)

theorem cancelPush_past (s : Executor) (n : Nat) (reason : PyStr) (o : Option Nat)
    (rest : List Trigger) : Past (s.cancelPush n reason o rest) n o ∧
      OnlyReports n rest s (s.cancelPush n reason o rest) ∧
      ((s.cancelPush n reason o rest).call n).inHands ⊆ rest := by
  have hbooks := cancelPush_same s n reason o rest
  have hobj := cancelPush_obj s n reason o rest
  have hcall : ∀ m, m ≠ n → (s.cancelPush n reason o rest).call m = s.call m := fun m hm =>
    (cancelPush_calls s hm reason o rest).1
  unfold cancelPush at hbooks hobj hcall ⊢
  split
  · rename_i s' hs
    obtain ⟨hl, hnew, -⟩ := pushFailed_reports hs
    simp only [hs] at hbooks hobj hcall
    split
    · rename_i t
      refine ⟨.awaiting t rfl (by simp [setCall]), ⟨hbooks, hobj, hl, hcall, ?_, hnew⟩, ?_⟩
      · exact (pushFailed_calls hs).2
      · simp [setCall, Call.inHands]
    · refine ⟨.ended none (by simp [setCall]) (by simp), ⟨hbooks, hobj, hl, hcall, ?_, hnew⟩, ?_⟩
      · exact (pushFailed_calls hs).2
      · simp [setCall, Call.inHands]
  · rename_i s' y r rest' hs
    obtain ⟨hl, hnew, hleft⟩ := pushFailed_reports hs
    simp only [hs] at hbooks hobj hcall
    refine ⟨.pushing y r rest' reason (by simp [setCall]), ⟨hbooks, hobj, hl, hcall, ?_, hnew⟩, ?_⟩
    · exact (pushFailed_calls hs).2
    · simpa [setCall, Call.inHands, left] using hleft

/-- The call goes on, and does nothing but report. -/
theorem Past.resume (hi : Inv strict s) (h : Past s n o) (ho : ∀ t, o = some t → t < s.nextTask)
    (hs : s.resumeCall n = some s') : Past s' n o ∧
      OnlyReports n (s.call n).inHands s s' ∧ (s'.call n).inHands ⊆ (s.call n).inHands := by
  cases h with
  | pushing y r rest reason h =>
    simp only [resumeCall, h] at hs
    split at hs
    · cases hs
      obtain ⟨hpast, hrep, hin⟩ := cancelPush_past (s.unlockWorker.put y r) n reason o rest
      obtain ⟨new, hnew, hmem⟩ := hrep.callbacks
      rw [h]
      refine ⟨hpast, ⟨(SameBooks.unlockWorker.trans (.put y r)).trans hrep.books, hrep.obj,
        hrep.jobLocks, hrep.call, hrep.nextCall, (y, r) :: new, ?_, ?_⟩,
        List.subset_cons_of_subset _ hin⟩
      · rw [hnew]
        simp [put, unlockWorker]
      · intro p hp
        rcases List.mem_cons.mp hp with rfl | hp
        · exact List.mem_cons_self
        · exact List.mem_cons_of_mem _ (hmem p hp)
    · cases hs
  | awaiting t ht h =>
    have hdone : ∀ exc, (s.obj t).task = .done exc → (s.obj t).cleanup ≠ .idle := fun exc hd =>
      (hi.tasks t (ho t ht)).not_idle hd
    have hend : ∀ exc exc', (s.obj t).task = .done exc →
        Past (s.setCall n (.cancelDone exc')) n o ∧
          OnlyReports n (s.call n).inHands s (s.setCall n (.cancelDone exc')) ∧
          ((s.setCall n (.cancelDone exc')).call n).inHands ⊆ (s.call n).inHands := by
      intro exc exc' hd
      refine ⟨.ended exc' (by simp [setCall]) fun u hu => ?_, ⟨.setCall n _, rfl, rfl,
        fun m hm => by simp [setCall, hm], rfl, [], by simp [setCall], by simp⟩, ?_⟩
      · rw [ht] at hu
        cases hu
        exact hdone exc hd
      · simp [setCall, Call.inHands]
    simp only [resumeCall, h] at hs
    split at hs
    · rename_i hd; cases hs; exact hend _ _ hd
    · rename_i exc _ hd; cases hs; exact hend _ _ hd
    · cases hs
  | ended exc h hd => simp [resumeCall, h] at hs

theorem Past.step (hi : Inv strict s) (h : Past s n o) (hn : n < s.nextCall)
    (ho : ∀ t, o = some t → t < s.nextTask) (hs : step s e = some s') : Past s' n o := by
  by_cases he : e = .resumeCall n
  · subst he
    simp only [Executor.step, if_pos hn] at hs
    exact (h.resume hi ho hs).1
  · have hc := (step_call hi.books hs hn he).1
    cases h with
    | pushing y r rest reason h => exact .pushing y r rest reason (hc.trans h)
    | awaiting t ht h => exact .awaiting t ht (hc.trans h)
    | ended exc h hd => exact .ended exc (hc.trans h) fun t ht => step_ended hi (ho t ht) (hd t ht) hs

/-! ## The critical section -/

/-- The call of `cancel_job` that enters its critical section in the event. -/
def Event.killer (s : Executor) : Event → Option Nat
  | .cancelJob j _ _ => if s.jobLocks j = [] then some s.nextCall else none
  | .resumeCall n =>
    match s.call n with
    | .cancelLock _ _ _ => some n
    | _ => none
  | _ => none

/-- Of other jobs nothing changes; of the job, the task itself is killed and its pending triggers
are reported. -/
structure KillsOnly (j : JobId) (s s' : Executor) : Prop where
  tasks : s'.tasks = s.tasks
  pending : s'.pending j = []
  queue : ∀ k, k ≠ j → s'.queue k = s.queue k
  cover : ∀ k, k ≠ j → s'.coverReplacements k = s.coverReplacements k
  logIds : ∀ k, k ≠ j → s'.jobLogIds k = s.jobLogIds k
  jobLocks : ∀ k, k ≠ j → s'.jobLocks k = s.jobLocks k
  obj : ∀ t, s.tasks j ≠ some t → s'.obj t = s.obj t
  nextTask : s'.nextTask = s.nextTask
  accepted : s'.accepted = s.accepted
  started : s'.started = s.started
  finished : s'.finished = s.finished
  callbacks : ∃ new, s'.callbacks = s.callbacks ++ new ∧ ∀ p ∈ new, p.1 ∈ s.pending j

theorem cancel_jobLocks (hj : (s.obj t).data.jobId = j) {k : JobId} (hk : k ≠ j) :
    (s.cancel t).jobLocks k = s.jobLocks k := by
  unfold cancel
  split
  · rfl
  · rfl
  · simp [setCoro, modTask, leaveJob, hj, hk]
  · rfl

/-- The kill of the current task, seen from the other jobs. -/
theorem killCurrent_jobLocks (hb : Books s) (reason : PyStr) {k : JobId} (hk : k ≠ j) :
    (s.killCurrent j reason).jobLocks k = s.jobLocks k := by
  unfold killCurrent
  split
  · rename_i t ht
    refine cancel_jobLocks (j := j) ?_ hk
    rw [setCancelReason, modTask_self]
    exact ((hb.job j).current t ht).2.1
  · rfl

theorem killedObj_other (reason : PyStr) (ht : o ≠ some t) : killedObj s reason o t = s.obj t := by
  unfold killedObj
  split
  · exact Function.update_of_ne (fun h => ht (by rw [h])) _ _
  · rfl

theorem cancelJobLocked_killsOnly (hb : Books s) (n : Nat) (j : JobId) (reason : PyStr) :
    KillsOnly j s (s.cancelJobLocked n j true reason) ∧
      Past (s.cancelJobLocked n j true reason) n (s.tasks j) ∧
      ((s.cancelJobLocked n j true reason).call n).inHands ⊆ s.pending j := by
  have hkill : SameBooks (s.takePending j).1 (s.cancelLocked j true reason).1 := .killCurrent j reason
  have hsnd : (s.cancelLocked j true reason).2 = (s.takePending j).2 := rfl
  have htasks : (s.cancelLocked j true reason).1.tasks = s.tasks := by
    rw [hkill.tasks, takePending_fst]
  obtain ⟨hpast, hrep, hin⟩ := cancelPush_past ((s.cancelLocked j true reason).1.unlockJob j) n
    reason ((s.cancelLocked j true reason).1.tasks j) (s.cancelLocked j true reason).2
  have hbooks : SameBooks (s.takePending j).1 (s.cancelJobLocked n j true reason) :=
    (hkill.trans (.unlockJob j)).trans hrep.books
  have hdropped : (s.cancelLocked j true reason).2 ⊆ s.pending j := by
    rw [hsnd, takePending_snd]
    intro y hy
    rw [pending, List.mem_append]
    exact (List.mem_append.mp hy).symm
  refine ⟨⟨?_, ?_, ?_, ?_, ?_, ?_, ?_, ?_, ?_, ?_, ?_, ?_⟩, ?_, fun y hy => hdropped (hin hy)⟩
  · exact hrep.books.tasks.trans htasks
  · rw [hbooks.pending, takePending_pending]
  · exact fun k hk => by rw [hbooks.queue, (takePending_away s j hk).queue]
  · exact fun k hk => by rw [hbooks.cover, (takePending_away s j hk).cover]
  · exact fun k hk => by rw [hbooks.logIds, (takePending_away s j hk).logIds]
  · intro k hk
    have hlocks : (s.takePending j).1.jobLocks = s.jobLocks := by rw [takePending_fst]
    refine (congrFun hrep.jobLocks k).trans ?_
    rw [unlockJob]
    show Function.update _ j _ k = _
    rw [Function.update_of_ne hk, ← hlocks]
    exact killCurrent_jobLocks (takePending_books hb j) reason hk
  · intro t ht
    rw [cancelJobLocked, hrep.obj]
    show (s.cancelLocked j true reason).1.obj t = s.obj t
    rw [cancelLocked_obj, killedObj_other reason ht]
  · rw [hbooks.nextTask, takePending_fst]
  · rw [hbooks.accepted, takePending_fst]
  · rw [hbooks.started, takePending_fst]
  · rw [hbooks.finished, takePending_fst]
  · obtain ⟨new, hnew, hmem⟩ := hrep.callbacks
    refine ⟨new, hnew.trans ?_, fun p hp => hdropped (hmem p hp)⟩
    show (s.cancelLocked j true reason).1.callbacks ++ new = _
    rw [cancelLocked_callbacks]
  · have hend : Past (s.cancelJobLocked n j true reason) n
        ((s.cancelLocked j true reason).1.tasks j) := hpast
    rwa [htasks] at hend

theorem KillsOnly.before {s₁ : Executor} (h₁ : SameBooks s s₁) (ho : s₁.obj = s.obj)
    (hl : ∀ k, k ≠ j → s₁.jobLocks k = s.jobLocks k) (hc : s₁.callbacks = s.callbacks)
    (h : KillsOnly j s₁ s') : KillsOnly j s s' where
  tasks := h.tasks.trans h₁.tasks
  pending := h.pending
  queue k hk := by rw [h.queue k hk, h₁.queue]
  cover k hk := by rw [h.cover k hk, h₁.cover]
  logIds k hk := by rw [h.logIds k hk, h₁.logIds]
  jobLocks k hk := (h.jobLocks k hk).trans (hl k hk)
  obj t ht := by rw [h.obj t (by rw [h₁.tasks]; exact ht), ho]
  nextTask := h.nextTask.trans h₁.nextTask
  accepted := h.accepted.trans h₁.accepted
  started := h.started.trans h₁.started
  finished := h.finished.trans h₁.finished
  callbacks := by
    obtain ⟨new, hnew, hmem⟩ := h.callbacks
    refine ⟨new, by rw [hnew, hc], fun p hp => ?_⟩
    rw [← h₁.pending]
    exact hmem p hp

/-- What the critical section of call `n` of `cancel_job` comes to. -/
structure Killed (n : Nat) (j : JobId) (s s' : Executor) : Prop where
  only : KillsOnly j s s'
  past : Past s' n (s.tasks j)
  inHands : (s'.call n).inHands ⊆ s.pending j
  lt : n < s'.nextCall
  others : ∀ m, m < s'.nextCall → m ≠ n → m < s.nextCall ∧ s'.call m = s.call m

theorem killed_step (hb : Books s) (hk : e.kills s = some (j, true)) (hn : e.killer s = some n)
    (hs : step s e = some s') : Killed n j s s' := by
  cases e with
  | cancelJob k includeQueue reason =>
    simp only [Event.kills, Event.killer] at hk hn
    split at hk
    · rename_i hfree
      rw [if_pos hfree] at hn
      cases hk
      cases hn
      cases hs
      have h₁ : SameBooks s (s.openCall.lockJob j (.call s.nextCall)) :=
        SameBooks.openCall.trans (.lockJob j _)
      obtain ⟨honly, hpast, hin⟩ := cancelJobLocked_killsOnly (hb.congr h₁) s.nextCall j reason
      rw [h₁.pending] at hin
      rw [h₁.tasks] at hpast
      have hcalls := fun m (hm : m ≠ s.nextCall) =>
        cancelJobLocked_calls (s.openCall.lockJob j (.call s.nextCall)) hm j true reason
      have hnext : ((s.openCall.lockJob j (.call s.nextCall)).cancelJobLocked s.nextCall j true
          reason).nextCall = s.nextCall + 1 := (hcalls (s.nextCall + 1) (by omega)).2
      simp only [cancelJob, hfree, if_true]
      refine ⟨honly.before h₁ rfl (fun k hk => ?_) rfl, hpast, hin, by omega, fun m hm hne => ?_⟩
      · simp [lockJob, openCall, hk]
      · refine ⟨by omega, (hcalls m hne).1.trans ?_⟩
        simp [lockJob, openCall, hne]
    · cases hk
  | resumeCall m =>
    simp only [Event.kills, Event.killer] at hk hn
    split at hk
    · rename_i k includeQueue reason hc
      rw [hc] at hn
      cases hk
      cases hn
      simp only [step, resumeCall, hc] at hs
      split at hs
      · rename_i hlt
        split at hs
        · cases hs
          obtain ⟨honly, hpast, hin⟩ := cancelJobLocked_killsOnly hb n j reason
          have hcalls := fun m (hm : m ≠ n) => cancelJobLocked_calls s hm j true reason
          have hnext := (hcalls (n + 1) (by omega)).2
          exact ⟨honly, hpast, hin, by omega, fun m hm hne => ⟨by omega, (hcalls m hne).1⟩⟩
        · cases hs
      · cases hs
    · cases hk
  | _ => cases hk

/-! ## The condition on the steps -/

/-- The manager stays open, and no task of job `j` comes to harm. -/
structure Spared (j : JobId) (s : Executor) (e : Event) : Prop where
  opened : KeepsOpen s e
  unharmed : ∀ t, (s.obj t).data.jobId = j → Unharmed t s e

/-- When a `cancel_job` enters its critical section, the current task of the job has executed its
first step, and no other call is still enqueueing failures of the job. -/
structure Prepared (j : JobId) (s : Executor) : Prop where
  begun : ∀ t, s.tasks j = some t → (s.obj t).started = true
  alone : ∀ x, x.jobId = j → s.drained x = 0

/-- What a run keeps in which the tasks of job `j` are spared. -/
structure Sparing (j : JobId) (s : Executor) : Prop where
  inv : Inv (fun _ => False) s
  codes : Codes s
  apart : Apart s
  balance : Balanced s
  settling : ∀ t, t < s.nextTask → (s.obj t).data.jobId = j → Settling t s

theorem sparing_init (handler : String → Bool) (m : Int) : Sparing j (init handler m) where
  inv := inv_init handler m
  codes := codes_init handler m
  apart := apart_init handler m
  balance _ _ := rfl
  settling t ht := absurd ht (Nat.not_lt_zero t)

theorem Sparing.step (h : Sparing j s) (he : Spared j s e) (hs : step s e = some s') :
    Sparing j s' := by
  have hi' := (step_good h.inv (fun _ hf => hf.elim) hs).1
  have hcodes := h.codes.step h.inv he.opened hs
  have hap := h.apart.step h.inv hi' hs
  have hbal := h.balance.step h.inv hi' hs
  refine ⟨hi', hcodes, hap, hbal, fun t ht' hj => ?_⟩
  by_cases ht : t < s.nextTask
  · rw [(step_keeps h.inv hs ht).1] at hj
    exact (h.settling t ht hj).step he.opened (he.unharmed t hj) hs
  · -- a new task has not begun
    have hst : (s'.obj t).started = false := by
      rcases step_new h.inv hs (Nat.le_of_not_lt ht) with ho | ⟨y, ho⟩
      · rw [ho]; rfl
      · rw [ho]; rfl
    refine ⟨hi'.mono fun u _ hu => ?_, hcodes, hap, hbal, fun _ h => ?_, fun _ h => ?_⟩
    · obtain ⟨rfl, hu⟩ := hu
      rw [hst] at hu
      cases hu
    · rw [hst] at h; cases h
    · rw [hst] at h; cases h

/-- Every accepted trigger of the job is in one place. -/
theorem Sparing.held_accepted (h : Sparing j s) (hx : x ∈ s.accepted) (hj : x.jobId = j) :
    s.held x = 1 := by
  by_cases hst : x ∈ s.started
  · obtain ⟨t, ht, rfl, -⟩ := h.apart.begun x hst
    exact (h.settling t ht hj).held_one ht
  · rw [h.balance x hst]
    exact List.count_eq_one_of_mem (accepted_nodup h.inv.books) hx

/-- One that has left the books is reported, or in the hands of the call that drained it. -/
theorem Sparing.reported_or_drained (h : Sparing j s) (hx : x ∈ s.accepted) (hj : x.jobId = j)
    (hl : x ∉ s.line x.jobId) : s.callbackCount x + s.drained x = 1 := by
  have hone := h.held_accepted hx hj
  rw [h.inv.held_line hl] at hone
  simpa [Executor.reported, callbackCount, h.codes.undropped] using hone

theorem not_line_step (hi : Inv strict s) (hi' : Inv strict s') (hs : step s e = some s')
    (hx : x ∈ s.accepted) (hl : x ∉ s.line j) : x ∉ s'.line j := by
  have hnew : ∀ d, x ≠ newTrigger s d := fun d h => newTrigger_fresh hi.books d (h ▸ hx)
  rw [line, List.mem_append, not_or] at hl
  cases step_line hi hi' hs j with
  | same h => rw [h, line, List.mem_append, not_or]; exact hl
  | arrive n d _ _ _ h =>
    rw [h, line, List.mem_append, List.mem_append, List.mem_singleton]
    rintro ((hm | hm) | hm)
    · exact hl.1 hm
    · exact hl.2 hm
    · exact hnew d hm
  | cover n d _ _ _ h =>
    rw [h, List.mem_append, List.mem_singleton]
    rintro (hm | hm)
    · exact hl.1 hm
    · exact hnew d hm
  | drop _ h => rw [h]; exact hl.1
  | finish t _ _ h => rw [h]; exact hl.2

/-! ## The rest of the call -/

/-- After the critical section of call `n`, which has cancelled the task `o` of job `j` and dropped
`xs`. -/
structure Ending (n : Nat) (j : JobId) (o : Option Nat) (xs : List Trigger) (s : Executor) :
    Prop where
  sparing : Sparing j s
  lt : n < s.nextCall
  past : Past s n o
  inHands : (s.call n).inHands ⊆ xs
  begun : ∀ t, o = some t →
    t < s.nextTask ∧ (s.obj t).started = true ∧ (s.obj t).data.jobId = j

theorem Ending.step {xs : List Trigger} (h : Ending n j o xs s) (he : Spared j s e)
    (hs : step s e = some s') : Ending n j o xs s' where
  sparing := h.sparing.step he hs
  lt := by
    by_cases hr : e = .resumeCall n
    · subst hr
      simp only [Executor.step, if_pos h.lt] at hs
      rw [(h.past.resume h.sparing.inv (fun t ht => (h.begun t ht).1) hs).2.1.nextCall]
      exact h.lt
    · exact (step_call h.sparing.inv.books hs h.lt hr).2
  past := h.past.step h.sparing.inv h.lt (fun t ht => (h.begun t ht).1) hs
  inHands := by
    by_cases hr : e = .resumeCall n
    · subst hr
      simp only [Executor.step, if_pos h.lt] at hs
      exact fun y hy => h.inHands
        ((h.past.resume h.sparing.inv (fun t ht => (h.begun t ht).1) hs).2.2 hy)
    · rw [(step_call h.sparing.inv.books hs h.lt hr).1]
      exact h.inHands
  begun t ht := by
    obtain ⟨hlt, hst, hj⟩ := h.begun t ht
    obtain ⟨hdata, hbegun⟩ := step_keeps h.sparing.inv hs hlt
    exact ⟨Nat.lt_of_lt_of_le hlt (step_nextTask h.sparing.inv.books hs), hbegun hst,
      by rw [hdata, hj]⟩

/-- `x` has left the books, and of the calls none but `n` has its failure in its hands. -/
structure Left (n : Nat) (j : JobId) (x : Trigger) (s : Executor) : Prop where
  accepted : x ∈ s.accepted
  job : x.jobId = j
  line : x ∉ s.line x.jobId
  drained : s.drained x = drainedIn x (s.call n)

theorem Left.step {xs : List Trigger} (h : Left n j x s) (hend : Ending n j o xs s)
    (he : Spared j s e) (hs : step s e = some s') : Left n j x s' := by
  have hend' := hend.step he hs
  have hi := hend.sparing.inv
  have haccepted := step_accepted hi hs h.accepted
  have hline := not_line_step hi hend'.sparing.inv hs h.accepted h.line
  refine ⟨haccepted, h.job, hline, ?_⟩
  by_cases hr : e = .resumeCall n
  · -- the call's own event: what leaves its hands leaves the sum
    subst hr
    simp only [Executor.step, if_pos hend.lt] at hs
    have hrep := (hend.past.resume hi (fun t ht => (hend.begun t ht).1) hs).2.1
    have hcall : s'.call = Function.update s.call n (s'.call n) := by
      funext m
      by_cases hm : m = n
      · subst hm; simp
      · rw [Function.update_of_ne hm, hrep.call m hm]
    have hsum := tally_update (drainedIn x) hend.lt s.call (s'.call n)
    have hd := h.drained
    simp only [Executor.drained, ← hcall] at hsum hd ⊢
    rw [hrep.nextCall]
    omega
  · -- another event: `x` is in no pending queue, so nobody can drain it
    have hsum := hend.sparing.reported_or_drained h.accepted h.job h.line
    have hsum' := hend'.sparing.reported_or_drained haccepted h.job hline
    have hle := callbackCount_le (x := x) hs
    have hcall := (step_call hi.books hs hend.lt hr).1
    have hin : drainedIn x (s'.call n) ≤ s'.drained x :=
      Finset.single_le_sum (f := fun m => drainedIn x (s'.call m)) (fun _ _ => Nat.zero_le _)
        (Finset.mem_range.mpr hend'.lt)
    rw [hcall] at hin ⊢
    have hd := h.drained
    omega

theorem OnlyReports.mono {xs ys : List Trigger} (h : OnlyReports n xs s s') (hm : xs ⊆ ys) :
    OnlyReports n ys s s' where
  books := h.books
  obj := h.obj
  jobLocks := h.jobLocks
  call := h.call
  nextCall := h.nextCall
  callbacks := by
    obtain ⟨new, hnew, hmem⟩ := h.callbacks
    exact ⟨new, hnew, fun p hp => hm (hmem p hp)⟩

section Kill

variable {s₀ s₁ : Executor}

theorem Killed.ending (hk : Killed n j s₀ s₁) (h₀ : Sparing j s₀) (he : Spared j s₀ e)
    (hp : Prepared j s₀) (hs : step s₀ e = some s₁) :
    Ending n j (s₀.tasks j) (s₀.pending j) s₁ where
  sparing := h₀.step he hs
  lt := hk.lt
  past := hk.past
  inHands := hk.inHands
  begun t ht := by
    have hlt := h₀.inv.books.tasks_lt ht
    obtain ⟨hdata, hbegun⟩ := step_keeps h₀.inv hs hlt
    refine ⟨by rw [hk.only.nextTask]; exact hlt, hbegun (hp.begun t ht), ?_⟩
    rw [hdata]
    exact ((h₀.inv.books.job j).current t ht).2.1

/-- A trigger of the job that is not the current one has left the books. -/
theorem Killed.left (hk : Killed n j s₀ s₁) (h₀ : Sparing j s₀) (hp : Prepared j s₀)
    (hs : step s₀ e = some s₁) (hx : x ∈ s₀.accepted) (hj : x.jobId = j)
    (hcur : ∀ t, s₀.tasks j = some t → (s₀.obj t).data ≠ x) : Left n j x s₁ where
  accepted := by rw [hk.only.accepted]; exact hx
  job := hj
  line := by
    rw [hj, line, hk.only.pending, List.append_nil, current, hk.only.tasks]
    cases ht : s₀.tasks j with
    | none => exact List.not_mem_nil
    | some t =>
      rw [List.mem_singleton, (step_keeps h₀.inv hs (h₀.inv.books.tasks_lt ht)).1]
      exact fun h => hcur t ht h.symm
  drained := by
    refine tally_single _ hk.lt fun m hm hne => ?_
    obtain ⟨hlt, hc⟩ := hk.others m hm hne
    rw [hc]
    exact (tally_eq_zero _).mp (hp.alone x hj) m hlt

/-- The current task has ended when the call has, and is finished and reported. -/
theorem Ending.settled {xs : List Trigger} (h : Ending n j o xs s) (ht : o = some t)
    {exc : Option Exc} (hc : s.call n = .cancelDone exc) :
    (s.obj t).data ∉ s.line j ∧ s.callbackCount (s.obj t).data = 1 := by
  obtain ⟨hlt, hst, hj⟩ := h.begun t ht
  have hcleanup : (s.obj t).cleanup ≠ .idle := by
    cases h.past with
    | pushing y r rest reason hc' => rw [hc] at hc'; cases hc'
    | awaiting u _ hc' => rw [hc] at hc'; cases hc'
    | ended _ _ hd => exact hd t ht
  have hset := h.sparing.settling t hlt hj
  obtain ⟨exc', hd⟩ := (hset.inv.tasks t hlt).ended hcleanup
  obtain ⟨-, -, hline, hcount⟩ := (hset.rested hst hd).settled
  rw [hj] at hline
  exact ⟨hline, hcount⟩

/-- A kill leaves nothing behind in a run whose steps spare the tasks of the job: when call `n` of
`cancel_job` with `include_queue` has returned, every trigger of the job that was accepted before
its critical section is out of the books and has exactly one callback. The critical section touches
no other job, and what the call does after it is to report triggers that were pending then. -/
theorem kill_leaves_nothing (h₀ : Reachable (Spared j) s₀) (hkills : e.kills s₀ = some (j, true))
    (hn : e.killer s₀ = some n) (hp : Prepared j s₀) (he : Spared j s₀ e)
    (hs : step s₀ e = some s₁) (h : Steps step (Spared j) s₁ s) :
    (s.call n = .cancelDone none → ∀ x ∈ s₀.accepted, x.jobId = j → x ∉ s.current j ∧
      x ∉ s.queue j ∧ s.coverReplacements j ≠ some x ∧ s.callbackCount x = 1) ∧
    KillsOnly j s₀ s₁ ∧
    ∀ s', step s (.resumeCall n) = some s' → OnlyReports n (s₀.pending j) s s' := by
  have hspar : Sparing j s₀ := by
    obtain ⟨handler, m, hr⟩ := h₀
    exact hr.invariant (P := Sparing j) (fun _ _ _ hi hu hs => hi.step hu hs)
      (sparing_init handler m)
  have hk := killed_step hspar.inv.books hkills hn hs
  have hend₁ := hk.ending hspar he hp hs
  have hend : Ending n j (s₀.tasks j) (s₀.pending j) s :=
    h.invariant (P := Ending n j (s₀.tasks j) (s₀.pending j)) (fun _ _ _ hi he hs => hi.step he hs)
      hend₁
  refine ⟨fun hret x hx hj => ?_, hk.only, fun s' hs' => ?_⟩
  · have hsettled : x ∉ s.line j ∧ s.callbackCount x = 1 := by
      by_cases hcur : ∃ t, s₀.tasks j = some t ∧ (s₀.obj t).data = x
      · obtain ⟨t, ht, rfl⟩ := hcur
        -- the task still has its trigger
        have hdata : t < s.nextTask ∧ (s.obj t).data = (s₀.obj t).data := by
          have hlt := hspar.inv.books.tasks_lt ht
          refine (h.invariant (P := fun s => Ending n j (s₀.tasks j) (s₀.pending j) s ∧
            t < s.nextTask ∧ (s.obj t).data = (s₀.obj t).data) (fun r e' r' hi he hs => ?_)
            ⟨hend₁, (hend₁.begun t ht).1, (step_keeps hspar.inv hs hlt).1⟩).2
          refine ⟨hi.1.step he hs, ?_, ?_⟩
          · exact Nat.lt_of_lt_of_le hi.2.1 (step_nextTask hi.1.sparing.inv.books hs)
          · rw [(step_keeps hi.1.sparing.inv hs hi.2.1).1, hi.2.2]
        have := hend.settled ht hret
        rwa [hdata.2] at this
      · have hleft₁ := hk.left hspar hp hs hx hj fun t ht hd => hcur ⟨t, ht, hd⟩
        have hleft : Left n j x s :=
          (h.invariant (P := fun s => Ending n j (s₀.tasks j) (s₀.pending j) s ∧ Left n j x s)
            (fun _ _ _ hi he hs => ⟨hi.1.step he hs, hi.2.step hi.1 he hs⟩) ⟨hend₁, hleft₁⟩).2
        have hsum := hend.sparing.reported_or_drained hleft.accepted hj hleft.line
        have hdrained : s.drained x = 0 := by
          rw [hleft.drained, hret]
          rfl
        refine ⟨hj ▸ hleft.line, by omega⟩
    obtain ⟨hline, hcount⟩ := hsettled
    rw [line, pending, List.mem_append, List.mem_append, not_or, not_or, Option.mem_toList] at hline
    exact ⟨hline.1, hline.2.2, hline.2.1, hcount⟩
  · simp only [step, if_pos hend.lt] at hs'
    exact (hend.past.resume hend.sparing.inv (fun t ht => (hend.begun t ht).1) hs').2.1.mono
      hend.inHands

end Kill

/-! ## Runs without `stop` -/

theorem CalmInv.drained (h : CalmInv s) (x : Trigger) : s.drained x = 0 := by
  refine (tally_eq_zero _).mpr fun m _ => ?_
  have hc := h.free.call m
  cases hk : s.call m <;> simp_all [drainedIn, Call.parked]

/-- Where no callback has to wait, ordinary events spare every task. -/
theorem Ordinary.spared (hp : Ordinary s e) (h : CalmInv s) (hs : step s e = some s') :
    Spared j s e := by
  have hopen : KeepsOpen s e := by
    rintro rfl
    exact hp.1.noStop
  refine ⟨hopen, fun t _ => ?_⟩
  have hcare := hp.1.careful h.inv h.free hs t
  refine ⟨.inl hopen, hcare.gentle, fun aux he => ?_, fun res aux he => ?_, fun aux he => ?_⟩
  · have hq : aux = .quiet := by
      subst he
      exact hp.1.quiet
    exact ⟨(hcare.begins aux he).1, by rw [hq]; exact Aux.caught_quiet, (hcare.begins aux he).2⟩
  · subst he
    have hq : aux = .quiet := hp.1.quiet
    refine ⟨by rw [hq]; exact Aux.caught_quiet, fun exc hr => ?_⟩
    subst hr
    exact hp.2
  · subst he
    have hq : aux = .quiet := hp.1.quiet
    rw [hq]
    exact Aux.caught_quiet

theorem steps_spared (h : Steps step Ordinary s s') (hi : CalmInv s) :
    Steps step (Spared j) s s' ∧ CalmInv s' := by
  induction h with
  | refl => exact ⟨.refl, hi⟩
  | tail _ hp hs ih => exact ⟨.tail ih.1 (hp.spared ih.2 hs) hs, calm_step ih.2 hp.1 hs⟩

/-- Job 1 runs one trigger, and another is queued. -/
def busy : List Event := [.runJob (serialJob 1), .start 0 .quiet, .runJob (serialJob 2)]

def busyState : Executor := (after busy).get rfl

/-- It is killed, and its handler gives in. -/
def busyKilled : Executor := busyState.cancelJob 1 true []

theorem busyState_calm : Reachable (Spared 1) busyState ∧ CalmInv busyState := by
  have hok : ∀ e ∈ busy, ∀ s, Ordinary s e := by
    intro e he s
    simp only [busy, List.mem_cons, List.not_mem_nil, or_false] at he
    rcases he with rfl | rfl | rfl
    · exact ⟨⟨trivial, trivial, trivial⟩, trivial⟩
    · exact ⟨⟨rfl, trivial, trivial⟩, trivial⟩
    · exact ⟨⟨trivial, trivial, trivial⟩, trivial⟩
  have hrun : Steps step Ordinary (init (fun _ => true) 0) busyState := .of_run hok rfl
  obtain ⟨hs, hc⟩ := steps_spared hrun ⟨inv_init _ _, free_init _ _⟩
  exact ⟨⟨_, _, hs⟩, hc⟩

theorem busyState_prepared : Prepared 1 busyState where
  begun t ht := by cases ht; rfl
  alone x _ := busyState_calm.2.drained x

def killedRun : List Event := [.handlerEnds 0 (.error .cancelled) .quiet, .resumeCall 2]

/-- Both triggers of the killed job have their one callback when the call returns. -/
theorem kill_leaves_nothing_busy :
    ∃ s, run step busyKilled killedRun = some s ∧ s.call 2 = .cancelDone none ∧
      ∀ x ∈ busyState.accepted, x.jobId = 1 → x ∉ s.current 1 ∧ x ∉ s.queue 1 ∧
        s.coverReplacements 1 ≠ some x ∧ s.callbackCount x = 1 := by
  obtain ⟨hreach, hcalm⟩ := busyState_calm
  have hkill : Ordinary busyState (.cancelJob 1 true []) := ⟨⟨trivial, trivial, trivial⟩, trivial⟩
  have hspared : Spared 1 busyState (.cancelJob 1 true []) :=
    hkill.spared hcalm (show step busyState _ = some busyKilled from rfl)
  have hok : ∀ e ∈ killedRun, ∀ s, Ordinary s e := by
    intro e he s
    simp only [killedRun, List.mem_cons, List.not_mem_nil, or_false] at he
    rcases he with rfl | rfl
    · exact ⟨⟨rfl, trivial, trivial⟩, rfl⟩
    · exact ⟨⟨trivial, trivial, trivial⟩, trivial⟩
  have hrun : Steps step Ordinary busyKilled ((run step busyKilled killedRun).get rfl) :=
    .of_run hok rfl
  have hcalm' : CalmInv busyKilled := calm_step hcalm hkill.1 rfl
  refine ⟨_, rfl, rfl, ?_⟩
  exact (kill_leaves_nothing hreach (e := .cancelJob 1 true []) (n := 2) rfl rfl busyState_prepared
    hspared rfl (steps_spared hrun hcalm').1).1 rfl

/-! ## What a kill may leave behind -/

/-- The task is killed before its first step; its done-callback runs, and then the call goes on. -/
def unbegunKilled : List Event := [.abort 0, .resumeCleanup 0 .quiet, .resumeCall 1]

/-- While `stop` holds the worker lock call 3 drops two queued triggers. It has reported the first of
them when the killed task reports itself and is finished. -/
def twoDropped : List Event :=
  [.runJob (serialJob 1), .start 0 .quiet, .runJob (serialJob 2), .runJob (serialJob 3), .stopLock 0,
    .cancelJob 1 true [], .handlerEnds 0 (.error .cancelled) .quiet, .stopUnlock 0, .resumeCall 3,
    .resumeTask 0 .quiet]

/-- The call has returned, and the trigger it killed is the current one of the job, with no
callback. With `stop` about, one returns before another has reported what it dropped. -/
theorem kill_leaves_unbegun :
    (∃ s₀ s₁ s, Reachable Calm s₀ ∧
      (Event.cancelJob 1 true []).kills s₀ = some (1, true) ∧
      (Event.cancelJob 1 true []).killer s₀ = some 1 ∧
      step s₀ (.cancelJob 1 true []) = some s₁ ∧ Steps step Calm s₁ s ∧
      s.call 1 = .cancelDone none ∧ ⟨0, serialJob 1⟩ ∈ s₀.accepted ∧
      ⟨0, serialJob 1⟩ ∈ s.current 1 ∧ s.callbackCount ⟨0, serialJob 1⟩ = 0) ∧
    ∃ s₀ s, Reachable (fun _ e => e.undisturbed = true) s₀ ∧
      (Event.cancelJob 1 true []).kills s₀ = some (1, true) ∧
      (Event.cancelJob 1 true []).killer s₀ = some 4 ∧
      step s₀ (.cancelJob 1 true []) = some s ∧ s.call 4 = .cancelDone none ∧
      ⟨2, serialJob 3⟩ ∈ s₀.accepted ∧ s.callbackCount ⟨2, serialJob 3⟩ = 0 := by
  have hcalm : ∀ e ∈ [Event.runJob (serialJob 1)], ∀ s, Calm s e := by
    intro e he s
    rw [List.mem_singleton] at he
    subst he
    exact ⟨trivial, trivial, trivial⟩
  have hcalm' : ∀ e ∈ unbegunKilled, ∀ s, Calm s e := by
    intro e he s
    simp only [unbegunKilled, List.mem_cons, List.not_mem_nil, or_false] at he
    rcases he with rfl | rfl | rfl
    · exact ⟨trivial, trivial, trivial⟩
    · exact ⟨rfl, trivial, trivial⟩
    · exact ⟨trivial, trivial, trivial⟩
  have hdropped : ∀ e ∈ twoDropped, e.undisturbed = true := by decide
  refine ⟨⟨_, _, _, reachable_after _ (.of_forall hcalm _) rfl, rfl, rfl, rfl, .of_run hcalm' rfl,
    rfl, List.mem_singleton.mpr rfl, List.mem_singleton.mpr rfl, rfl⟩, ?_⟩
  exact ⟨_, _, reachable_after twoDropped (.of_forall (fun e he _ => hdropped e he) _) rfl, rfl, rfl,
    rfl, rfl, by decide, rfl⟩

end Executor
end Pyxxl
