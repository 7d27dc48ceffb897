import Pyxxl.Lib.Progress
import Pyxxl.Lib.Tally
import Pyxxl.Executor.Killed
import Pyxxl.Executor.Unblocked

/-!
# Pyxxl.Executor.Effort

What an executor still has to do. Each coroutine, each cleanup task, each call and each pending
trigger counts for the stretches that lie before it at most; `effort s` is their sum.

* `pendingTotal`: the pending triggers of all jobs, with what each operation on the books does to
  it.
* `step_effort`: an event of a coroutine that is under way brings the effort down, and no other
  event than a new call raises it.
-/

namespace Pyxxl
namespace Executor

open Transition

variable {strict : Nat → Prop} {s s' : Executor} {e : Event} {t n : Nat} {j : JobId}

/-! ## Pending triggers -/

/-- The jobs that ever had a trigger. -/
def jobs (s : Executor) : Finset JobId := (s.accepted.map Trigger.jobId).toFinset

def pendingTotal (s : Executor) : Nat := ∑ j ∈ s.jobs, (s.pending j).length

theorem Books.pending_of_unknown (hb : Books s) (hj : j ∉ s.jobs) : s.pending j = [] := by
  by_contra hne
  obtain ⟨x, hx⟩ := List.exists_mem_of_ne_nil _ hne
  refine hj ?_
  have hknown : x ∈ s.accepted := (hb.job j).known x (List.mem_append_right _ hx)
  rw [jobs, List.mem_toFinset, ← (hb.job j).owner x hx]
  exact List.mem_map_of_mem hknown

/-- The sum may as well be taken over more jobs. -/
theorem Books.pendingTotal_superset (hb : Books s) {J : Finset JobId} (hJ : s.jobs ⊆ J) :
    s.pendingTotal = ∑ j ∈ J, (s.pending j).length :=
  Finset.sum_subset hJ fun j _ hj => by rw [hb.pending_of_unknown hj]; rfl

/-- Only the pending triggers of job `j` have changed. -/
theorem pendingTotal_change (hb : Books s) (hb' : Books s')
    (h : ∀ k, k ≠ j → s'.pending k = s.pending k) :
    s'.pendingTotal + (s.pending j).length = s.pendingTotal + (s'.pending j).length := by
  have hJ : s.jobs ⊆ insert j (s.jobs ∪ s'.jobs) := fun k hk =>
    Finset.mem_insert_of_mem (Finset.mem_union_left _ hk)
  have hJ' : s'.jobs ⊆ insert j (s.jobs ∪ s'.jobs) := fun k hk =>
    Finset.mem_insert_of_mem (Finset.mem_union_right _ hk)
  have hj : j ∈ insert j (s.jobs ∪ s'.jobs) := Finset.mem_insert_self ..
  rw [hb.pendingTotal_superset hJ, hb'.pendingTotal_superset hJ', ← Finset.sum_erase_add _ _ hj,
    ← Finset.sum_erase_add _ (fun k => (s.pending k).length) hj,
    Finset.sum_congr rfl fun k hk => by rw [h k (Finset.ne_of_mem_erase hk)]]
  omega

theorem SameBooks.pendingTotal (h : SameBooks s s') : s'.pendingTotal = s.pendingTotal := by
  simp only [Executor.pendingTotal, jobs, h.accepted, h.pending]

theorem pendingTotal_startIdle (hb : Books s) {d : RunData}
    (hb' : Books s') (h : SameBooks (s.startIdle d) s') :
    s'.pendingTotal = s.pendingTotal ∧ s'.nextTask = s.nextTask + 1 := by
  have hpend : ∀ k, s'.pending k = s.pending k := fun k => by
    rw [h.pending, startIdle_eq]
    rfl
  have hsum := pendingTotal_change hb hb' (j := d.jobId) fun k _ => hpend k
  rw [hpend] at hsum
  refine ⟨by omega, ?_⟩
  rw [h.nextTask, startIdle_eq]

theorem pendingTotal_joins (hb : Books s) {s₁ : Executor} {d : RunData} (hj : Joins s d s₁)
    (hb' : Books s') (h : SameBooks s₁ s') :
    s'.pendingTotal = s.pendingTotal + 1 ∧ s'.nextTask = s.nextTask := by
  have hsum := pendingTotal_change hb hb' (j := d.jobId) fun k hk => by
    rw [h.pending, (hj.away hk).pending]
  rw [h.pending, hj.pending, List.length_append] at hsum
  refine ⟨?_, h.nextTask.trans hj.nextTask⟩
  simp only [List.length_singleton] at hsum
  omega

theorem pendingTotal_takePending (hb : Books s) :
    (s.takePending j).1.pendingTotal + (s.pending j).length = s.pendingTotal := by
  have hsum := pendingTotal_change hb (takePending_books hb j) fun k hk =>
    (takePending_away s j hk).pending
  rw [takePending_pending, List.length_nil] at hsum
  exact hsum

/-- `_finish` makes a task of one pending trigger, or of none. -/
theorem pendingTotal_finish (hb : Books s) (ht : s.tasks (s.obj t).data.jobId = some t)
    (hb' : Books s') (h : SameBooks (s.finish t) s') :
    s'.pendingTotal + s'.nextTask = s.pendingTotal + s.nextTask := by
  have hf := finish_finishes hb ht
  have hsum := pendingTotal_change hb hb' (j := (s.obj t).data.jobId) fun k hk => by
    rw [h.pending, (hf.away hb hk).pending]
  rw [h.pending] at hsum
  rw [h.nextTask]
  rcases hf.next with ⟨h1, h2, -, -, h5⟩ | ⟨x, h1, -, -, h4⟩
  · rw [h1, h2] at hsum
    omega
  · rw [h1, List.length_cons] at hsum
    omega

/-- The step of a task enters the critical section of no call. -/
theorem Event.places_of_task (he : e.task = some t) : e.checks s = none ∧ e.kills s = none := by
  cases e with
  | runJob d => cases he
  | cancelJob j includeQueue reason => cases he
  | resumeCall n => cases he
  | _ => exact ⟨rfl, rfl⟩

/-- The step of a task makes tasks of pending triggers only. -/
theorem step_pendingTotal (hi : Inv strict s) (hi' : Inv strict s') (hs : step s e = some s')
    (he : e.task = some t) : s'.pendingTotal + s'.nextTask = s.pendingTotal + s.nextTask := by
  have hnone := Event.places_of_task (s := s) he
  cases step_delta hs with
  | same h => rw [h.pendingTotal, h.nextTask]
  | run n d s₁ hc => rw [hnone.1] at hc; cases hc
  | queue n d s₁ hc => rw [hnone.1] at hc; cases hc
  | cover n d s₁ hc => rw [hnone.1] at hc; cases hc
  | drop k s₁ hk => rw [hnone.2] at hk; cases hk
  | start u aux he ht h =>
    rw [h.pendingTotal, h.nextTask]
    rfl
  | startFinish u aux s₁ he ht hq h₁ h₂ =>
    obtain ⟨hb₁, hcur⟩ := startFinish_current hi hs he ht h₁
    rw [pendingTotal_finish hb₁ hcur hi'.books h₂, h₁.pendingTotal, h₁.nextTask]
    rfl
  | finish u s₁ he hn h₁ h₂ =>
    rw [pendingTotal_finish (hi.books.congr h₁) (finish_current hi hi' hs he h₁ h₂) hi'.books h₂,
      h₁.pendingTotal, h₁.nextTask]

/-! ## What lies before a coroutine -/

def Coro.effort : Coro → Nat
  | .scheduled _ => 10
  | .inHandler _ => 9
  | .pushing true _ => 8
  | .thrownPushing true _ => 8
  | .pushing false _ => 7
  | .thrownPushing false _ => 7
  | .locking _ => 6
  | .thrownLocking => 6
  | .done _ => 0

def Cleanup.effort : Cleanup → Nat
  | .doneCallback => 5
  | .scheduled => 4
  | .pushing _ => 3
  | .locking => 2
  | .idle => 0
  | .ended => 0

def XXLTask.effort (o : XXLTask) : Nat := o.task.effort + o.cleanup.effort

def Call.effort : Call → Nat
  | .runLock _ => 14
  | .coverPush _ _ _ rest _ => rest.length + 1
  | .cancelLock _ _ _ => 2
  | .cancelPush _ _ rest _ _ => rest.length + 2
  | .cancelAwait _ => 1
  | .begun => 0
  | .runDone _ => 0
  | .cancelDone _ => 0

def effort (s : Executor) : Nat :=
  tally XXLTask.effort s.nextTask s.obj + tally Call.effort s.nextCall s.call + 12 * s.pendingTotal

theorem effort_killed (reason : PyStr) (o : XXLTask) : (killed reason o).effort ≤ o.effort := by
  simp only [XXLTask.effort, killed]
  cases o.task with
  | pushing inTry r => cases inTry <;> simp [Coro.cancelled, Coro.effort]
  | _ => simp [Coro.cancelled, Coro.effort]

/-! ### Tasks -/

theorem effort_endTask (s : Executor) (t : Nat) (exc : Option Exc) :
    ((s.endTask t exc).obj t).effort = 5 := by
  simp [endTask, XXLTask.effort, Coro.effort, Cleanup.effort]

theorem effort_setCoro (s : Executor) (t : Nat) (c : Coro) (hi : (s.obj t).cleanup = .idle) :
    ((s.setCoro t c).obj t).effort = c.effort := by
  simp [setCoro, XXLTask.effort, Cleanup.effort, hi]

theorem effort_cleanupTask (s : Executor) (t : Nat) (hi : (s.obj t).cleanup = .idle)
    (exc : Option Exc) : ((s.cleanupTask t exc).obj t).effort ≤ 6 := by
  unfold cleanupTask
  split
  · rw [effort_endTask]; omega
  · split
    · rw [effort_endTask]; omega
    · rw [effort_setCoro]
      · simp [Coro.effort]
      · simpa [markCleaned, lockJob] using hi

theorem effort_exceptBranch (s : Executor) (t : Nat) (hi : (s.obj t).cleanup = .idle) (ts : Int)
    (exc : Exc) (aux : Aux) : ((s.exceptBranch t ts exc aux).obj t).effort ≤ 7 := by
  unfold exceptBranch
  split
  · rename_i e' _
    have := effort_cleanupTask s t hi (some e')
    omega
  · split
    · rename_i s₁ he
      obtain ⟨-, ho⟩ := enqueue_same he
      have := effort_cleanupTask s₁ t (by rw [ho]; exact hi) aux.failed
      omega
    · rename_i s₁ he
      obtain ⟨-, ho⟩ := enqueue_same he
      rw [effort_setCoro _ _ _ (by rw [ho]; exact hi)]
      simp [Coro.effort]

theorem effort_afterSuccess (s : Executor) (t : Nat) (hi : (s.obj t).cleanup = .idle) (ts : Int)
    (aux : Aux) : ((s.afterSuccess t ts aux).obj t).effort ≤ 7 := by
  unfold afterSuccess
  split
  · exact effort_exceptBranch s t hi ts _ aux
  · have := effort_cleanupTask s t hi none
    omega

theorem effort_handlerEnds (s : Executor) (t : Nat) (hi : (s.obj t).cleanup = .idle) (ts : Int)
    (res : Except Exc PyVal) (aux : Aux) : ((s.handlerEnds t ts res aux).obj t).effort ≤ 8 := by
  have hexc := fun exc => effort_exceptBranch s t hi ts exc aux
  unfold handlerEnds
  split
  · rename_i exc; have := hexc exc; omega
  · rename_i exc _; have := hexc exc; omega
  · split
    · rename_i s₁ he
      obtain ⟨-, ho⟩ := enqueue_same he
      have := effort_afterSuccess s₁ t (by rw [ho]; exact hi) ts aux
      omega
    · rename_i s₁ he
      obtain ⟨-, ho⟩ := enqueue_same he
      rw [effort_setCoro _ _ _ (by rw [ho]; exact hi)]
      simp [Coro.effort]

theorem effort_startRun (s : Executor) (t : Nat) (hi : (s.obj t).cleanup = .idle) (aux : Aux) :
    ((s.startRun t aux).obj t).effort ≤ 9 := by
  have hidle : ((s.markStarted t).obj t).cleanup = .idle := by simpa [markStarted] using hi
  simp only [startRun]
  split
  · split
    · rw [effort_endTask]; omega
    · rename_i exc _ _
      have hset : (((s.markStarted t).setCoro t (.inHandler (s.callbackTimestamp
          (s.obj t).data.data))).obj t).cleanup = .idle := by simpa [setCoro] using hidle
      have := effort_exceptBranch _ t hset (s.callbackTimestamp (s.obj t).data.data) exc aux
      omega
    · rw [effort_setCoro _ _ _ hidle]
      simp [Coro.effort]
  · rw [effort_endTask]; omega

theorem effort_resumeTask {aux : Aux} (hi : (s.obj t).cleanup = .idle)
    (hs : s.resumeTask t aux = some s') : (s'.obj t).effort < (s.obj t).effort := by
  have hold : (s.obj t).effort = (s.obj t).task.effort := by
    simp [XXLTask.effort, hi, Cleanup.effort]
  rw [hold]
  unfold resumeTask at hs
  split at hs
  · rename_i inTry r hc
    rw [hc]
    split at hs
    · cases inTry with
      | true =>
        cases hs
        have := effort_afterSuccess (s.unlockWorker.put (s.obj t).data r) t hi r.timestamp aux
        simp only [Coro.effort]
        omega
      | false =>
        cases hs
        have := effort_cleanupTask (s.unlockWorker.put (s.obj t).data r) t hi aux.failed
        simp only [Coro.effort]
        omega
    · cases hs
  · rename_i inTry ts hc
    rw [hc]
    cases inTry with
    | true =>
      cases hs
      have := effort_exceptBranch s t hi ts .cancelled aux
      simp only [Coro.effort]
      omega
    | false =>
      cases hs
      have := effort_cleanupTask s t hi (some .cancelled)
      simp only [Coro.effort]
      omega
  · rename_i exc hc
    rw [hc]
    split at hs
    · cases hs
      rw [effort_endTask]
      simp [Coro.effort]
    · cases hs
  · rename_i hc
    rw [hc]
    cases hs
    rw [effort_endTask]
    simp [Coro.effort]
  · cases hs

/-! ### Cleanup tasks -/

theorem effort_setCleanup (s : Executor) (t : Nat) (c : Cleanup) :
    ((s.setCleanup t c).obj t).effort = (s.obj t).task.effort + c.effort := by
  simp [setCleanup, XXLTask.effort]

theorem effort_cleanupPushed (ht : t < s.nextTask) (aux : Aux) :
    ((s.cleanupPushed t aux).obj t).effort ≤ (s.obj t).task.effort + 2 := by
  unfold cleanupPushed
  split
  · rw [effort_setCleanup]; simp [Cleanup.effort]
  · split
    · have hobj : (((s.lockJob (s.obj t).data.jobId (.cleanup t)).finishLocked t).obj t) =
          s.obj t := obj_finish (s := s.lockJob (s.obj t).data.jobId (.cleanup t)) ht t
      rw [effort_setCleanup, hobj]
      simp [Cleanup.effort]
    · rw [effort_setCleanup]; simp [Cleanup.effort, lockJob]

theorem effort_resumeCleanup (ht : t < s.nextTask) {aux : Aux}
    (hs : s.resumeCleanup t aux = some s') : (s'.obj t).effort < (s.obj t).effort := by
  have hold : (s.obj t).effort = (s.obj t).task.effort + (s.obj t).cleanup.effort := rfl
  rw [hold]
  unfold resumeCleanup at hs
  split at hs
  · rename_i hc
    rw [hc]
    split at hs
    · cases hs
      unfold onExecutorTaskDone
      split
      · rw [effort_setCleanup]; simp [Cleanup.effort]
      · rw [effort_setCleanup]; simp [Cleanup.effort]
    · cases hs
  · rename_i hc
    rw [hc]
    cases hs
    unfold cleanupRun
    split
    · rw [effort_setCleanup]; simp [Cleanup.effort]
    · split
      · rename_i s₁ he
        obtain ⟨hsame, ho⟩ := enqueue_same he
        have hlt : t < s₁.nextTask := by rw [hsame.nextTask]; exact ht
        have hle := effort_cleanupPushed hlt aux
        rw [ho] at hle
        simp only [markCleaned, modTask_self] at hle
        simp only [Cleanup.effort]
        omega
      · rename_i s₁ he
        obtain ⟨-, ho⟩ := enqueue_same he
        rw [effort_setCleanup, ho]
        simp [markCleaned, Cleanup.effort]
  · rename_i r hc
    rw [hc]
    split at hs
    · cases hs
      have hle := effort_cleanupPushed (s := s.unlockWorker.put (s.obj t).data r) ht aux
      have hsame : (s.unlockWorker.put (s.obj t).data r).obj = s.obj := rfl
      rw [hsame] at hle
      simp only [Cleanup.effort]
      omega
    · cases hs
  · rename_i hc
    rw [hc]
    split at hs
    · cases hs
      have hobj : (s.finishLocked t).obj t = s.obj t := obj_finish ht t
      rw [effort_setCleanup, hobj]
      simp [Cleanup.effort]
    · cases hs
  · cases hs
  · cases hs

/-! ### Calls -/

/-- Of the triggers whose failure is to be pushed fewer are left. -/
theorem pushFailed_shorter {p : Pid} {reason : PyStr} : ∀ {xs : List Trigger} {s s' : Executor}
    {x : Trigger} {r : CallbackRequest} {rest : List Trigger},
    pushFailedQueuedTasks p reason xs s = (s', some (x, r, rest)) → rest.length < xs.length := by
  intro xs
  induction xs with
  | nil => intro s s' x r rest hs; cases hs
  | cons y ys ih =>
    intro s s' x r rest hs
    simp only [pushFailedQueuedTasks] at hs
    split at hs
    · have := ih hs
      simp only [List.length_cons]
      omega
    · cases hs
      simp

theorem call_coverPush (s : Executor) (n : Nat) (d : RunData) (reason : PyStr)
    (rest : List Trigger) : (s.coverPush n d reason rest).call n ≠ .begun ∧
      ((s.coverPush n d reason rest).call n).effort ≤ rest.length := by
  unfold coverPush
  split
  · simp [runReturn, setCall, Call.effort]
  · rename_i hp
    have := pushFailed_shorter hp
    simp only [setCall, Function.update_self, Call.effort]
    exact ⟨by simp, by omega⟩

theorem call_cancelPush (s : Executor) (n : Nat) (reason : PyStr) (u : Option Nat)
    (rest : List Trigger) : (s.cancelPush n reason u rest).call n ≠ .begun ∧
      ((s.cancelPush n reason u rest).call n).effort ≤ rest.length + 1 := by
  unfold cancelPush
  split
  · split
    · simp [setCall, Call.effort]
    · simp [setCall, Call.effort]
  · rename_i hp
    have := pushFailed_shorter hp
    simp only [setCall, Function.update_self, Call.effort]
    exact ⟨by simp, by omega⟩

theorem runReturn_call (s : Executor) (n : Nat) (j : JobId) (res : Except RunError Reply) :
    (s.runReturn n j res).call n = .runDone res := by simp [runReturn, setCall]

theorem called_runJobLocked (s : Executor) (n : Nat) (d : RunData) :
    (s.runJobLocked n d).call n ≠ .begun := by
  have hret : ∀ (s₁ : Executor) res, (s₁.runReturn n d.jobId res).call n ≠ .begun := by
    intro s₁ res
    rw [runReturn_call]
    simp
  unfold runJobLocked
  split
  · exact hret _ _
  split
  · exact hret _ _
  split
  · exact hret _ _
  split
  · exact (call_coverPush ..).1
  split
  · unfold handleSerialExecution
    split
    · exact hret _ _
    · exact hret _ _
  · exact hret _ _

/-- The critical section of `run_job`, with all it leaves to do. -/
theorem effort_runJobLocked (hb : Books s) (d : RunData) (hb' : Books (s.runJobLocked n d)) :
    ((s.runJobLocked n d).call n).effort + 12 * (s.runJobLocked n d).pendingTotal +
      10 * (s.runJobLocked n d).nextTask ≤ 12 * s.pendingTotal + 10 * s.nextTask + 12 := by
  have hret : ∀ (s₁ : Executor) res, ((s₁.runReturn n d.jobId res).call n).effort = 0 :=
    fun s₁ res => by rw [runReturn_call]; rfl
  have hraise : ∀ res, ((s.runReturn n d.jobId res).call n).effort +
      12 * (s.runReturn n d.jobId res).pendingTotal + 10 * (s.runReturn n d.jobId res).nextTask ≤
        12 * s.pendingTotal + 10 * s.nextTask + 12 := fun res => by
    rw [hret, (runReturn_same s n d.jobId res).pendingTotal, (runReturn_same ..).nextTask]
    omega
  unfold runJobLocked at hb' ⊢
  split
  · exact hraise _
  rename_i hl
  rw [if_neg hl] at hb'
  split
  · rename_i hidle
    rw [if_pos hidle] at hb'
    obtain ⟨h1, h2⟩ := pendingTotal_startIdle hb hb' (runReturn_same ..)
    rw [hret, h1, h2]
    omega
  rename_i hidle
  rw [if_neg hidle] at hb'
  obtain ⟨t, ht⟩ := hb.busy (by simpa using hidle)
  split
  · exact hraise _
  rename_i hd
  rw [if_neg hd] at hb'
  split
  · -- what is dropped weighs more than the callbacks for it
    rename_i hcov
    rw [if_pos hcov] at hb'
    have htake := pendingTotal_takePending hb (j := d.jobId)
    have hfill := fillCover_joins (takePending_pending s d.jobId)
    obtain ⟨h1, h2⟩ := pendingTotal_joins (takePending_books hb d.jobId) hfill hb'
      ((coverEarly_sameBooks ht).trans (coverPush_same ..))
    have hcall := (call_coverPush (s.coverEarly d).1 n d coverReason (s.coverEarly d).2).2
    have hlen : (s.coverEarly d).2.length = (s.pending d.jobId).length := by
      rw [coverEarly_snd, pending, List.length_append, List.length_append]
      omega
    have hnext : (s.takePending d.jobId).1.nextTask = s.nextTask := by rw [takePending_fst]
    rw [handleCoverEarly] at h1 h2 ⊢
    rw [h1, h2, hnext]
    omega
  rename_i hcov
  rw [if_neg hcov] at hb'
  split
  · rename_i hser
    rw [if_pos hser] at hb'
    unfold handleSerialExecution at hb' ⊢
    split
    · exact hraise _
    · rename_i hfull
      rw [if_neg hfull] at hb'
      obtain ⟨h1, h2⟩ := pendingTotal_joins hb (enqueueSerial_joins s d) hb' (runReturn_same ..)
      rw [hret, h1, h2]
      omega
  · exact hraise _

theorem call_cancelJobLocked (hb : Books s) (j : JobId) (includeQueue : Bool) (reason : PyStr) :
    (s.cancelJobLocked n j includeQueue reason).call n ≠ .begun ∧
      ((s.cancelJobLocked n j includeQueue reason).call n).effort +
        12 * (s.cancelJobLocked n j includeQueue reason).pendingTotal +
          10 * (s.cancelJobLocked n j includeQueue reason).nextTask ≤
            12 * s.pendingTotal + 10 * s.nextTask + 1 := by
  have hsame : SameBooks (s.cancelLocked j includeQueue reason).1
      (s.cancelJobLocked n j includeQueue reason) :=
    (SameBooks.unlockJob j).trans (cancelPush_same ..)
  obtain ⟨h1, h2⟩ := call_cancelPush ((s.cancelLocked j includeQueue reason).1.unlockJob j) n reason
    ((s.cancelLocked j includeQueue reason).1.tasks j) (s.cancelLocked j includeQueue reason).2
  refine ⟨h1, ?_⟩
  rw [hsame.pendingTotal, hsame.nextTask]
  simp only [cancelJobLocked]
  cases includeQueue with
  | false =>
    have hkill : SameBooks s (s.killCurrent j reason) := .killCurrent j reason
    simp only [cancelLocked, Bool.false_eq_true, if_false, List.length_nil] at h2 ⊢
    rw [hkill.pendingTotal, hkill.nextTask]
    omega
  | true =>
    have hkill : SameBooks (s.takePending j).1 ((s.takePending j).1.killCurrent j reason) :=
      .killCurrent j reason
    have htake := pendingTotal_takePending hb (j := j)
    have hlen : (s.takePending j).2.length = (s.pending j).length := by
      rw [takePending_snd, pending, List.length_append, List.length_append]
      omega
    have hnext : (s.takePending j).1.nextTask = s.nextTask := by rw [takePending_fst]
    simp only [cancelLocked, if_true] at h2 ⊢
    rw [hkill.pendingTotal, hkill.nextTask, hnext]
    omega

theorem call_resumeCall (hb : Books s) (hb' : Books s') (hs : s.resumeCall n = some s') :
    s'.call n ≠ .begun ∧ (s'.call n).effort + 12 * s'.pendingTotal + 10 * s'.nextTask <
      (s.call n).effort + 12 * s.pendingTotal + 10 * s.nextTask := by
  unfold resumeCall at hs
  split at hs
  · rename_i d hc
    split at hs
    · cases hs
      have hle := effort_runJobLocked hb d hb'
      rw [hc]
      refine ⟨called_runJobLocked s n d, ?_⟩
      simp only [Call.effort] at hle ⊢
      omega
    · cases hs
  · rename_i d x r rest reason hc
    split at hs
    · cases hs
      obtain ⟨h1, h2⟩ := call_coverPush (s.unlockWorker.put x r) n d reason rest
      have hsame : SameBooks s ((s.unlockWorker.put x r).coverPush n d reason rest) :=
        (SameBooks.unlockWorker.trans (.put x r)).trans (coverPush_same ..)
      refine ⟨h1, ?_⟩
      rw [hsame.pendingTotal, hsame.nextTask, hc]
      simp only [Call.effort] at h2 ⊢
      omega
    · cases hs
  · rename_i j includeQueue reason hc
    split at hs
    · cases hs
      obtain ⟨h1, h2⟩ := call_cancelJobLocked (n := n) hb j includeQueue reason
      rw [hc]
      refine ⟨h1, ?_⟩
      simp only [Call.effort] at h2 ⊢
      omega
    · cases hs
  · rename_i x r rest reason u hc
    split at hs
    · cases hs
      obtain ⟨h1, h2⟩ := call_cancelPush (s.unlockWorker.put x r) n reason u rest
      have hsame : SameBooks s ((s.unlockWorker.put x r).cancelPush n reason u rest) :=
        (SameBooks.unlockWorker.trans (.put x r)).trans (cancelPush_same ..)
      refine ⟨h1, ?_⟩
      rw [hsame.pendingTotal, hsame.nextTask, hc]
      simp only [Call.effort] at h2 ⊢
      omega
    · cases hs
  · rename_i u hc
    have hdone : ∀ exc, (s.setCall n (.cancelDone exc)).call n = .cancelDone exc := fun exc => by
      simp [setCall]
    have hsum : ∀ exc, (s.setCall n (.cancelDone exc)).pendingTotal = s.pendingTotal := fun exc =>
      (SameBooks.setCall n _).pendingTotal
    split at hs
    · cases hs
      rw [hdone, hsum, hc]
      exact ⟨by simp, by simp [Call.effort, setCall]⟩
    · cases hs
      rw [hdone, hsum, hc]
      exact ⟨by simp, by simp [Call.effort, setCall]⟩
    · cases hs
  · cases hs
  · cases hs
  · cases hs

/-! ## Every event -/

/-- The event belongs to a coroutine that is under way. -/
def Event.own : Event → Bool
  | .resumeCall _ => true
  | .start _ _ => true
  | .abort _ => true
  | .handlerEnds _ _ _ => true
  | .resumeTask _ _ => true
  | .resumeCleanup _ _ => true
  | _ => false

/-- The event is no new call. -/
def Event.noCall : Event → Prop
  | .runJob _ => False
  | .cancelJob _ _ _ => False
  | _ => True

/-- Tasks that are created in an event come with at most ten stretches each. -/
theorem tasks_effort (hi : Inv strict s) (hs : step s e = some s') :
    tally XXLTask.effort s'.nextTask s'.obj + 10 * s.nextTask ≤
      tally XXLTask.effort s.nextTask s'.obj + 10 * s'.nextTask := by
  have hle := step_nextTask hi.books hs
  have hgrow := tally_grow XXLTask.effort (m := s.nextTask) (c := 10) (f := s'.obj)
    (fun u hu => by
      rcases step_new hi hs hu with h | ⟨x, h⟩
      · rw [h]; simp [noTask, XXLTask.effort, Coro.effort, Cleanup.effort]
      · rw [h]; simp [newTask, XXLTask.effort, Coro.effort, Cleanup.effort])
    (s'.nextTask - s.nextTask)
  rw [Nat.add_sub_cancel' hle] at hgrow
  omega

/-- The step of a task brings the effort of that task down. -/
theorem task_effort (hi : Inv strict s) (hs : step s e = some s') (he : e.task = some t) :
    (s'.obj t).effort < (s.obj t).effort := by
  have hlt := task_lt hi hs he
  have hrun : (∀ exc, (s.obj t).task ≠ .done exc) →
      (s.obj t).cleanup = .idle ∧ (s.obj t).effort = (s.obj t).task.effort := fun hne => by
    have hidle := hi.idle_of_running hlt hne
    exact ⟨hidle, by simp [XXLTask.effort, hidle, Cleanup.effort]⟩
  cases e with
  | start u aux =>
    cases he
    simp only [step] at hs
    split at hs
    · rename_i hc
      cases hs
      obtain ⟨hidle, hold⟩ := hrun fun exc he => by rw [hc] at he; cases he
      have := effort_startRun s t hidle aux
      rw [hold, hc]
      simp only [Coro.effort]
      omega
    · cases hs
  | abort u =>
    cases he
    simp only [step] at hs
    split at hs
    · rename_i hc
      cases hs
      obtain ⟨-, hold⟩ := hrun fun exc he => by rw [hc] at he; cases he
      rw [hold, hc, effort_endTask]
      simp [Coro.effort]
    · cases hs
  | handlerEnds u res aux =>
    cases he
    simp only [step] at hs
    split at hs
    · rename_i ts hc
      cases hs
      obtain ⟨hidle, hold⟩ := hrun fun exc he => by rw [hc] at he; cases he
      have := effort_handlerEnds s t hidle ts res aux
      rw [hold, hc]
      simp only [Coro.effort]
      omega
    · cases hs
  | resumeTask u aux =>
    cases he
    simp only [step] at hs
    have hne : ∀ exc, (s.obj t).task ≠ .done exc := fun exc he => by
      simp [resumeTask, he] at hs
    exact effort_resumeTask (hrun hne).1 hs
  | resumeCleanup u aux => cases he; exact effort_resumeCleanup hlt hs
  | _ => cases he

theorem step_effort (hi : Inv strict s) (hi' : Inv strict s') (hs : step s e = some s')
    (hc : e.noCall) : s'.effort + e.own.toNat ≤ s.effort := by
  have htasks := tasks_effort hi hs
  unfold effort
  cases he : e.task with
  | some t =>
    have hown : e.own = true := by cases e <;> first | rfl | cases he
    have hlt := task_lt hi hs he
    have hless := task_effort hi hs he
    have hpend := step_pendingTotal hi hi' hs he
    have hnew := step_nextTask hi.books hs
    obtain ⟨hcalls, hnext⟩ := (step_acts hs he).calls
    have hchange := tally_change XXLTask.effort (f := s.obj) (g := s'.obj) hlt fun u hu hut => by
      rcases (step_frame hs he).kept u (fun h => hut (by cases h; rfl)) with h | ⟨h, -⟩
      · exact h
      · omega
    rw [hcalls, hnext, hown, Bool.toNat_true]
    omega
  | none =>
    have hkept : tally XXLTask.effort s.nextTask s'.obj ≤ tally XXLTask.effort s.nextTask s.obj := by
      refine tally_mono _ fun u hu => ?_
      rcases step_obj hi.books hs hu (by rw [he]; simp) with h | ⟨-, reason, h⟩
      · rw [h]
      · rw [h]; exact effort_killed reason _
    have hsame : SameBooks s s' → s'.call = s.call → s'.nextCall = s.nextCall → e.own = false →
        tally XXLTask.effort s'.nextTask s'.obj + tally Call.effort s'.nextCall s'.call +
          12 * s'.pendingTotal + e.own.toNat ≤ tally XXLTask.effort s.nextTask s.obj +
            tally Call.effort s.nextCall s.call + 12 * s.pendingTotal := by
      intro hb hcall hnext hown
      rw [hcall, hnext, hb.pendingTotal, hown, Bool.toNat_false]
      rw [hb.nextTask] at htasks ⊢
      omega
    cases e with
    | runJob d => exact hc.elim
    | cancelJob j includeQueue reason => exact hc.elim
    | resumeCall n =>
      simp only [step] at hs
      split at hs
      · rename_i hn
        obtain ⟨-, hless⟩ := call_resumeCall hi.books hi'.books hs
        have hcalls : ∀ m, m ≠ n → s'.call m = s.call m ∧ s'.nextCall = s.nextCall :=
          fun m hm => resumeCall_calls hi.books hm hs
        have hchange := tally_change Call.effort (f := s.call) (g := s'.call) hn
          fun m _ hm => (hcalls m hm).1
        rw [(hcalls (n + 1) (by omega)).2]
        simp only [Event.own, Bool.toNat_true]
        omega
      · cases hs
    | setHandler handler =>
      cases hs
      exact hsame ⟨rfl, rfl, rfl, rfl, rfl, rfl, rfl, rfl, fun _ => rfl, fun _ => rfl⟩ rfl rfl rfl
    | stopCalled close =>
      cases hs
      exact hsame ⟨rfl, rfl, rfl, rfl, rfl, rfl, rfl, rfl, fun _ => rfl, fun _ => rfl⟩ rfl rfl rfl
    | stopLock n =>
      cases hs
      exact hsame (.lockWorker _) rfl rfl rfl
    | stopUnlock n =>
      simp only [step] at hs
      split at hs
      · cases hs
        exact hsame .unlockWorker rfl rfl rfl
      · cases hs
    | tick now =>
      cases hs
      exact hsame ⟨rfl, rfl, rfl, rfl, rfl, rfl, rfl, rfl, fun _ => rfl, fun _ => rfl⟩ rfl rfl rfl
    | _ => cases he

end Executor
end Pyxxl
