import Pyxxl.Executor.Locks

/-!
# Pyxxl.Executor.Unblocked

`InLine` in every run, event by event: whoever stands in a line at a lock is parked there, and whoever
is parked stands in its line.

* `Working.exceptBranch`, `Working.afterSuccess`: the ways out of `_run`, up to the next suspension.
* `Placed`: calls have their numbers in the order they were made.
* `step_inLine`: every event keeps `InLine`.
-/

namespace Pyxxl
namespace Executor

open Transition

variable {strict : Nat → Prop} {s s' : Executor} {e : Event} {p : Pid} {o : Option JobId}
  {t n : Nat} {j : JobId}

/-! ## Tasks -/

namespace Working

theorem enqueue (h : Working t none s) {x : Trigger} {r : CallbackRequest} {b : Bool}
    (he : s.enqueue (.task t) x r = (s', b)) :
    (b = true ∧ Working t none s') ∨ (b = false ∧ s' = s.lockWorker (.task t)) := by
  obtain ⟨hsame, hobj⟩ := enqueue_same he
  rcases h.going.enqueue he with ⟨hb, h₁⟩ | ⟨hb, h₁⟩
  · exact .inl ⟨hb, h₁, by rw [hsame.nextTask]; exact h.lt, by rw [hobj]; exact h.idle⟩
  · exact .inr ⟨hb, h₁⟩

theorem exceptBranch (h : Working t none s) (ts : Int) (exc : Exc) (aux : Aux) :
    InLine (s.exceptBranch t ts exc aux) := by
  unfold Executor.exceptBranch
  split
  · exact h.cleanupTask _
  · split
    · rename_i he
      rcases h.enqueue he with ⟨-, h₁⟩ | ⟨hb, -⟩
      · exact h₁.cleanupTask _
      · cases hb
    · rename_i he
      rcases h.enqueue he with ⟨hb, -⟩ | ⟨-, h₁⟩
      · cases hb
      · rw [h₁]; exact h.push _ _

theorem afterSuccess (h : Working t none s) (ts : Int) (aux : Aux) :
    InLine (s.afterSuccess t ts aux) := by
  unfold Executor.afterSuccess
  split
  · exact h.exceptBranch _ _ _
  · exact h.cleanupTask _

theorem handlerEnds (h : Working t none s) (ts : Int) (res : Except Exc PyVal) (aux : Aux) :
    InLine (s.handlerEnds t ts res aux) := by
  unfold Executor.handlerEnds
  split
  · exact h.exceptBranch _ _ _
  · exact h.exceptBranch _ _ _
  · split
    · rename_i he
      rcases h.enqueue he with ⟨-, h₁⟩ | ⟨hb, -⟩
      · exact h₁.afterSuccess _ _
      · cases hb
    · rename_i he
      rcases h.enqueue he with ⟨hb, -⟩ | ⟨-, h₁⟩
      · cases hb
      · rw [h₁]; exact h.push _ _

theorem startRun (h : Working t none s) (aux : Aux) : InLine (s.startRun t aux) := by
  have hmark : Working t none (s.markStarted t) := by
    have hmod := h.modTask (fun o => { o with started := true }) rfl rfl
    exact ⟨hmod.going.books rfl rfl rfl rfl rfl, hmod.lt, hmod.idle⟩
  have henter := hmark.setCoro (.inHandler (s.callbackTimestamp (s.obj t).data.data))
  simp only [Executor.startRun]
  split
  · split
    · exact henter.endTask _
    · exact henter.exceptBranch _ _ _
    · refine henter.going.rest rfl ?_ ?_
      · simp [atWorker, Executor.setCoro, Coro.atWorker]
      · simp [atJob, Executor.setCoro, Coro.atJob]
  · exact henter.endTask _

end Working

/-- The one that was granted the worker lock takes it and gives it back; the lock of the job `o` it
keeps. -/
theorem InLine.takeWorker (h : InLine s) (hs : p.isStop = false) (hp : s.workerLock.head? = some p)
    (hf : ∀ j, s.atJob p = some j → (s.jobLocks j).head? = some p) :
    Going p (s.atJob p) s.unlockWorker := by
  obtain ⟨rest, hrest⟩ : ∃ rest, s.workerLock = p :: rest := by
    cases hl : s.workerLock with
    | nil => rw [hl] at hp; cases hp
    | cons q rest => rw [hl] at hp; cases hp; exact ⟨rest, rfl⟩
  refine ⟨fun q hq hqs => ?_, fun j q _ => h.job j q, ?_, fun j => h.job j p, hf,
    fun n d x r rest reason _ => h.holds n d x r rest reason, h.unborn⟩
  · have hw := h.worker q hqs
    rw [hrest, List.count_cons_of_ne (fun he => hq he.symm)] at hw
    simp only [unlockWorker, hrest, List.tail_cons]
    exact hw
  · have hw := h.worker p hs
    rw [hrest, List.count_cons_self] at hw
    simp only [unlockWorker, hrest, List.tail_cons]
    split at hw
    · omega
    · omega

/-- The one that was granted the lock of job `j`. -/
theorem InLine.takeJob (h : InLine s) (hs : p.isStop = false) (hw : s.atWorker p = false)
    (hj : s.atJob p = some j) (hp : (s.jobLocks j).head? = some p) : Going p (some j) s where
  worker q _ hq := h.worker q hq
  job k q _ := h.job k q
  away := by rw [h.worker p hs, hw]; rfl
  held k := by rw [h.job k p, hj]
  first k hk := by cases hk; exact hp
  holds n d x r rest reason _ := h.holds n d x r rest reason
  unborn := h.unborn

/-- The cleanup task of a coroutine that is under way is yet to come. -/
theorem Inv.idle_of_running (hi : Inv strict s) (ht : t < s.nextTask)
    (hc : ∀ exc, (s.obj t).task ≠ .done exc) : (s.obj t).cleanup = .idle := by
  have hok := hi.tasks t ht
  cases hk : (s.obj t).task with
  | scheduled b => simp only [TaskOk, hk] at hok; exact hok.2.2.1
  | inHandler ts => simp only [TaskOk, hk] at hok; exact hok.2.2.1
  | pushing inTry r => simp only [TaskOk, hk] at hok; exact hok.2.2.1
  | thrownPushing inTry ts => simp only [TaskOk, hk] at hok; exact hok.1.2.2.1
  | locking exc => simp only [TaskOk, hk] at hok; exact hok.2.2.1
  | thrownLocking => simp only [TaskOk, hk] at hok; exact hok.1.2.2.1
  | done exc => exact absurd hk (hc exc)

theorem InLine.working (h : InLine s) (hi : Inv strict s) (ht : t < s.nextTask)
    (hw : (s.obj t).task.atWorker = false) (hj : (s.obj t).task.atJob = false)
    (hc : ∀ exc, (s.obj t).task ≠ .done exc) : Working t none s :=
  ⟨h.go rfl hw (by simp [atJob, hj]), ht, hi.idle_of_running ht hc⟩

theorem InLine.resumeTask (h : InLine s) (hi : Inv strict s) (ht : t < s.nextTask) {aux : Aux}
    (hs : s.resumeTask t aux = some s') : InLine s' := by
  unfold Executor.resumeTask at hs
  split at hs
  · rename_i inTry r hc
    split at hs
    · rename_i hp
      have hgo : Going (.task t) (s.atJob (.task t)) s.unlockWorker :=
        h.takeWorker rfl hp fun k hk => by simp [atJob, hc, Coro.atJob] at hk
      have hnone : s.atJob (.task t) = none := by simp [atJob, hc, Coro.atJob]
      rw [hnone] at hgo
      have hidle := hi.idle_of_running ht fun exc he => by rw [hc] at he; cases he
      have hwork : Working t none (s.unlockWorker.put (s.obj t).data r) :=
        ⟨hgo.books rfl rfl rfl rfl rfl, ht, hidle⟩
      cases inTry with
      | true => cases hs; exact hwork.afterSuccess _ _
      | false => cases hs; exact hwork.cleanupTask _
    · cases hs
  · rename_i inTry ts hc
    have hwork := h.working hi ht (by rw [hc]; rfl) (by rw [hc]; rfl)
      fun exc he => by rw [hc] at he; cases he
    cases inTry with
    | true => cases hs; exact hwork.exceptBranch _ _ _
    | false => cases hs; exact hwork.cleanupTask _
  · rename_i exc hc
    split at hs
    · rename_i hp
      have hidle := hi.idle_of_running ht fun exc he => by rw [hc] at he; cases he
      have hgo : Going (.task t) (some (s.obj t).data.jobId) s :=
        h.takeJob rfl (by simp [atWorker, hc, Coro.atWorker]) (by simp [atJob, hc, Coro.atJob]) hp
      have hwork : Working t (some (s.obj t).data.jobId) s := ⟨hgo, ht, hidle⟩
      cases hs
      exact hwork.finishLocked.endTask _
    · cases hs
  · rename_i hc
    cases hs
    exact (h.working hi ht (by rw [hc]; rfl) (by rw [hc]; rfl)
      fun exc he => by rw [hc] at he; cases he).endTask _
  · cases hs

/-! ## Cleanup tasks -/

/-- The cleanup task of `t` runs. -/
structure Sweeping (t : Nat) (o : Option JobId) (s : Executor) : Prop where
  going : Going (.cleanup t) o s
  lt : t < s.nextTask

namespace Sweeping

theorem setCleanup (h : Sweeping t o s) (c : Cleanup) : Going (.cleanup t) o (s.setCleanup t c) :=
  h.going.modTask h.lt _ rfl (fun _ => rfl) fun hp => absurd rfl hp

theorem markCleaned (h : Sweeping t o s) : Sweeping t o (s.markCleaned t) :=
  ⟨h.going.modTask h.lt _ rfl (fun _ => rfl) fun _ => ⟨rfl, rfl⟩, h.lt⟩

theorem rest (h : Sweeping t none s) {c : Cleanup} (hw : c.atWorker = false)
    (hj : c.atJob = false) : InLine (s.setCleanup t c) := by
  refine (h.setCleanup c).rest rfl ?_ ?_
  · simpa [atWorker, Executor.setCleanup] using hw
  · simp [atJob, Executor.setCleanup, hj]

theorem finishLocked (h : Sweeping t (some (s.obj t).data.jobId) s) :
    Sweeping t none (s.finishLocked t) := by
  have hm : s.nextTask ≤ (s.finish t).nextTask := (Frame.finish (o := none) s t).mono
  exact ⟨h.going.finishLocked, Nat.lt_of_lt_of_le h.lt hm⟩

theorem cleanupPushed (h : Sweeping t none s) (aux : Aux) : InLine (s.cleanupPushed t aux) := by
  unfold Executor.cleanupPushed
  split
  · exact h.rest rfl rfl
  · split
    · rename_i hfree
      have hlock : Sweeping t (some (s.obj t).data.jobId)
          (s.lockJob (s.obj t).data.jobId (.cleanup t)) := ⟨h.going.lockJob hfree, h.lt⟩
      exact (finishLocked (s := s.lockJob (s.obj t).data.jobId (.cleanup t)) hlock).rest rfl rfl
    · rename_i hne
      refine h.going.parkJob hne rfl rfl (fun q hq => (setCleanup_at _ _ hq).1)
        (fun q hq => (setCleanup_at _ _ hq).2) (fun _ _ => rfl) ?_ ?_ (fun n hn => by cases hn)
        (h.setCleanup .locking).unborn
      · simp [atWorker, Executor.setCleanup, Cleanup.atWorker]
      · simp [atJob, Executor.setCleanup, lockJob, Cleanup.atJob]

theorem push (h : Sweeping t none s) (r : CallbackRequest) :
    InLine ((s.lockWorker (.cleanup t)).setCleanup t (.pushing r)) := by
  refine h.going.parkWorker rfl rfl rfl (fun q hq => (setCleanup_at _ _ hq).1)
    (fun q hq => (setCleanup_at _ _ hq).2) (fun _ _ => rfl) ?_ ?_
    (h.setCleanup (.pushing r)).unborn
  · simp [atWorker, Executor.setCleanup, Cleanup.atWorker]
  · simp [atJob, Executor.setCleanup, Cleanup.atJob]

theorem cleanupRun (h : Sweeping t none s) (aux : Aux) : InLine (s.cleanupRun t aux) := by
  unfold Executor.cleanupRun
  split
  · exact h.rest rfl rfl
  · split
    · rename_i he
      obtain ⟨hsame, -⟩ := enqueue_same he
      rcases h.markCleaned.going.enqueue he with ⟨-, h₁⟩ | ⟨hb, -⟩
      · exact cleanupPushed ⟨h₁, by rw [hsame.nextTask]; exact h.lt⟩ aux
      · cases hb
    · rename_i he
      rcases h.markCleaned.going.enqueue he with ⟨hb, -⟩ | ⟨-, h₁⟩
      · cases hb
      · rw [h₁]; exact h.markCleaned.push _

end Sweeping

theorem InLine.resumeCleanup (h : InLine s) (ht : t < s.nextTask) {aux : Aux}
    (hs : s.resumeCleanup t aux = some s') : InLine s' := by
  have hgo : (s.obj t).cleanup.atWorker = false → (s.obj t).cleanup.atJob = false →
      Sweeping t none s := fun hw hj => ⟨h.go rfl hw (by simp [atJob, hj]), ht⟩
  unfold Executor.resumeCleanup at hs
  split at hs
  · rename_i hc
    split at hs
    · cases hs
      unfold onExecutorTaskDone
      split
      · exact (hgo (by rw [hc]; rfl) (by rw [hc]; rfl)).rest rfl rfl
      · exact (hgo (by rw [hc]; rfl) (by rw [hc]; rfl)).rest rfl rfl
    · cases hs
  · rename_i hc
    cases hs
    exact (hgo (by rw [hc]; rfl) (by rw [hc]; rfl)).cleanupRun aux
  · rename_i r hc
    split at hs
    · rename_i hp
      have htake : Going (.cleanup t) (s.atJob (.cleanup t)) s.unlockWorker :=
        h.takeWorker rfl hp fun k hk => by simp [atJob, hc, Cleanup.atJob] at hk
      have hnone : s.atJob (.cleanup t) = none := by simp [atJob, hc, Cleanup.atJob]
      rw [hnone] at htake
      cases hs
      exact Sweeping.cleanupPushed (s := s.unlockWorker.put (s.obj t).data r)
        ⟨htake.books rfl rfl rfl rfl rfl, ht⟩ aux
    · cases hs
  · rename_i hc
    split at hs
    · rename_i hp
      have htake : Going (.cleanup t) (some (s.obj t).data.jobId) s :=
        h.takeJob rfl (by simp [atWorker, hc, Cleanup.atWorker])
          (by simp [atJob, hc, Cleanup.atJob]) hp
      cases hs
      exact (Sweeping.finishLocked ⟨htake, ht⟩).rest rfl rfl
    · cases hs
  · cases hs
  · cases hs

/-! ## Calls -/

theorem erase_count_self {ps : List Pid} (h : ps.count p ≤ 1) : (ps.erase p).count p = 0 := by
  rw [List.count_erase_self]
  omega

/-- The head of a line stays where it is when somebody behind it leaves. -/
theorem erase_head {ps : List Pid} {q : Pid} (h : ps.head? = some p) (hq : q ≠ p) :
    (ps.erase q).head? = some p := by
  cases ps with
  | nil => cases h
  | cons r rest =>
    cases h
    rw [List.erase_cons_tail (by simpa using fun he => hq he.symm)]
    rfl

namespace Going

/-- A waiter that was cancelled leaves its line, whichever it stands in. -/
theorem cancel (h : Going (.call n) o s) (ht : t < s.nextTask) :
    Going (.call n) o (s.cancel t) := by
  have hcall : ∀ {u : Nat}, Pid.task u ≠ Pid.call n := fun he => by cases he
  have hunborn : ∀ c u, s.nextTask ≤ u → (s.setCoro t c).obj u = noTask := fun c u hu => by
    have hne : u ≠ t := by omega
    rw [Executor.setCoro, modTask_other hne]
    exact h.unborn u hu
  unfold Executor.cancel
  split
  · rename_i b hc
    refine h.frame rfl rfl (fun q hq => ?_) (fun q hq => ?_) (fun _ _ => rfl) (hunborn _)
    · by_cases he : q = .task t
      · subst he; simp [atWorker, Executor.setCoro, hc, Coro.atWorker]
      · exact (setCoro_at s _ he).1
    · by_cases he : q = .task t
      · subst he; simp [atJob, Executor.setCoro, hc, Coro.atJob]
      · exact (setCoro_at s _ he).2
  · rename_i inTry r hc
    have hone : s.workerLock.count (.task t) = 1 := by
      rw [h.worker _ hcall rfl]
      simp [atWorker, hc, Coro.atWorker]
    refine ⟨fun q hq hqs => ?_, fun j q hq => ?_, ?_, h.held, h.first, h.holds, hunborn _⟩
    · by_cases he : q = .task t
      · subst he
        show (s.workerLock.erase (.task t)).count (.task t) = _
        rw [erase_count_self (by omega)]
        simp [atWorker, Executor.setCoro, Coro.atWorker]
      · show (s.workerLock.erase (.task t)).count q = _
        rw [List.count_erase_of_ne he, (setCoro_at _ _ he).1]
        exact h.worker q hq hqs
    · have hjob := h.job j q hq
      by_cases he : q = .task t
      · subst he
        rw [show s.atJob (.task t) = none by simp [atJob, hc, Coro.atJob]] at hjob
        simp only [atJob, Executor.setCoro, modTask_self, Coro.atJob, Bool.false_eq_true, if_false]
        exact hjob
      · rw [(setCoro_at _ _ he).2]
        exact hjob
    · show (s.workerLock.erase (.task t)).count (.call n) = 0
      rw [List.count_erase_of_ne hcall.symm]
      exact h.away
  · rename_i exc hc
    have hat : s.atJob (.task t) = some (s.obj t).data.jobId := by
      simp [atJob, hc, Coro.atJob]
    have hone : (s.jobLocks (s.obj t).data.jobId).count (.task t) = 1 := by
      rw [h.job _ _ hcall, hat, if_pos rfl]
    have hother : ∀ j q, q ≠ .task t →
        ((s.leaveJob (s.obj t).data.jobId (.task t)).jobLocks j).count q =
          (s.jobLocks j).count q := by
      intro j q hq
      by_cases hj : j = (s.obj t).data.jobId
      · subst hj; simp [leaveJob, List.count_erase_of_ne hq]
      · simp [leaveJob, hj]
    have hhead : ∀ j m, (s.jobLocks j).head? = some (.call m) →
        ((s.leaveJob (s.obj t).data.jobId (.task t)).jobLocks j).head? = some (.call m) := by
      intro j m hm
      by_cases hj : j = (s.obj t).data.jobId
      · subst hj
        simp only [leaveJob, Function.update_self]
        exact erase_head hm fun he => by cases he
      · simpa [leaveJob, hj] using hm
    refine ⟨fun q hq hqs => ?_, fun j q hq => ?_, h.away, fun j => ?_,
      fun j hj => hhead j n (h.first j hj),
      fun m d x r rest reason hm hcall => hhead _ m (h.holds m d x r rest reason hm hcall),
      hunborn _⟩
    · have hw := h.worker q hq hqs
      by_cases he : q = .task t
      · subst he
        rw [show s.atWorker (.task t) = false by simp [atWorker, hc, Coro.atWorker]] at hw
        simp only [atWorker, Executor.setCoro, modTask_self, Coro.atWorker]
        exact hw
      · rw [(setCoro_at _ _ he).1]
        exact hw
    · by_cases he : q = .task t
      · subst he
        simp only [atJob, Executor.setCoro, modTask_self, Coro.atJob, Bool.false_eq_true, if_false,
          reduceCtorEq]
        by_cases hj : j = (s.obj t).data.jobId
        · subst hj
          show ((s.leaveJob (s.obj t).data.jobId (.task t)).jobLocks _).count (.task t) = 0
          simp only [leaveJob, Function.update_self]
          exact erase_count_self (by omega)
        · show ((s.leaveJob (s.obj t).data.jobId (.task t)).jobLocks j).count (.task t) = 0
          simp only [leaveJob, Function.update_of_ne hj]
          rw [h.job j _ hcall, hat, if_neg fun he => hj (by cases he; rfl)]
      · rw [(setCoro_at _ _ he).2]
        exact (hother j q he).trans (h.job j q hq)
    · exact (hother j _ hcall.symm).trans (h.held j)
  · exact h

theorem setCancelReason (h : Going (.call n) o s) (ht : t < s.nextTask) (reason : PyStr) :
    Going (.call n) o (s.setCancelReason t reason) :=
  h.modTask ht _ rfl (fun _ => rfl) fun _ => ⟨rfl, rfl⟩

theorem killCurrent (h : Going (.call n) o s) (hb : Books s) (j : JobId) (reason : PyStr) :
    Going (.call n) o (s.killCurrent j reason) := by
  unfold Executor.killCurrent
  split
  · rename_i t ht
    have hlt := hb.tasks_lt ht
    exact (h.setCancelReason hlt reason).cancel hlt
  · exact h

theorem takePending (h : Going (.call n) o s) (j : JobId) :
    Going (.call n) o (s.takePending j).1 := by
  rw [takePending_fst]
  exact h.books rfl rfl rfl rfl rfl

theorem runReturn (h : Going (.call n) (some j) s) (res : Except RunError Reply) :
    InLine (s.runReturn n j res) := by
  have hcall := h.unlockJob.setCall (.runDone res)
  refine hcall.rest rfl ?_ ?_
  · simp [atWorker, Executor.setCall, Call.atWorker]
  · simp [atJob, Executor.setCall, Call.atJob]

/-- The call suspends in `enqueue`. -/
theorem pushCall (h : Going (.call n) o s) {c : Call} (hw : c.atWorker = true)
    (hj : c.atJob = o) : InLine ((s.lockWorker (.call n)).setCall n c) := by
  refine h.parkWorker rfl rfl rfl (fun q hq => (setCall_at _ _ hq).1)
    (fun q hq => (setCall_at _ _ hq).2) (fun m hm => ?_) ?_ ?_ h.unborn
  · have hm : m ≠ n := fun he => hm (by rw [he])
    simp [Executor.setCall, lockWorker, hm]
  · simpa [atWorker, Executor.setCall] using hw
  · simpa [atJob, Executor.setCall] using hj

theorem coverPush {d : RunData} (h : Going (.call n) (some d.jobId) s) (reason : PyStr)
    (rest : List Trigger) : InLine (s.coverPush n d reason rest) := by
  unfold Executor.coverPush
  split
  · rename_i hp
    rcases h.pushFailed hp with ⟨-, h₁⟩ | ⟨hn, -⟩
    · exact h₁.runReturn _
    · cases hn
  · rename_i hp
    rcases h.pushFailed hp with ⟨hn, -⟩ | ⟨-, s₁, h₁, hs₁⟩
    · cases hn
    · rw [hs₁]; exact h₁.pushCall rfl rfl

theorem cancelPush (h : Going (.call n) none s) (reason : PyStr) (u : Option Nat)
    (rest : List Trigger) : InLine (s.cancelPush n reason u rest) := by
  unfold Executor.cancelPush
  split
  · rename_i s₁ hp
    rcases h.pushFailed hp with ⟨-, h₁⟩ | ⟨hn, -⟩
    · have hdone : ∀ c : Call, c.atWorker = false → c.atJob = none → InLine (s₁.setCall n c) := by
        intro c hw hj
        refine (h₁.setCall c).rest rfl ?_ ?_
        · simpa [atWorker, Executor.setCall] using hw
        · simpa [atJob, Executor.setCall] using hj
      split
      · exact hdone _ rfl rfl
      · exact hdone _ rfl rfl
    · cases hn
  · rename_i hp
    rcases h.pushFailed hp with ⟨hn, -⟩ | ⟨-, s₁, h₁, hs₁⟩
    · cases hn
    · rw [hs₁]; exact h₁.pushCall rfl rfl

theorem startIdle (h : Going p o s) (d : RunData) : Going p o (s.startIdle d) := by
  have hacc : Going p o ((s.registerLogId d.jobId d.logId).accept d).1 :=
    h.books rfl rfl rfl rfl rfl
  exact hacc.createTask _

theorem coverEarly (h : Going (.call n) o s) (hb : Books s) {d : RunData}
    (ht : s.tasks d.jobId = some t) : Going (.call n) o (s.coverEarly d).1 := by
  have hlt := hb.tasks_lt ht
  have hfill : Going (.call n) o ((s.takePending d.jobId).1.fillCover d) :=
    (h.takePending d.jobId).books rfl rfl rfl rfl rfl
  have hlt' : t < ((s.takePending d.jobId).1.fillCover d).nextTask := by
    show t < (s.takePending d.jobId).1.nextTask
    rw [takePending_fst]
    exact hlt
  rw [coverEarly_fst ht]
  exact (hfill.setCancelReason hlt' _).cancel hlt'

theorem runJobLocked {d : RunData} (h : Going (.call n) (some d.jobId) s) (hb : Books s) :
    InLine (s.runJobLocked n d) := by
  unfold Executor.runJobLocked
  split
  · exact h.runReturn _
  split
  · exact (h.startIdle d).runReturn _
  rename_i hidle
  obtain ⟨t, ht⟩ := hb.busy (by simpa using hidle)
  split
  · exact h.runReturn _
  split
  · exact (h.coverEarly hb ht).coverPush _ _
  split
  · unfold handleSerialExecution
    split
    · exact h.runReturn _
    · refine runReturn (s := s.enqueueSerial d) ?_ _
      exact h.books rfl rfl rfl rfl rfl
  · exact h.runReturn _

theorem cancelJobLocked (h : Going (.call n) (some j) s) (hb : Books s) (includeQueue : Bool)
    (reason : PyStr) : InLine (s.cancelJobLocked n j includeQueue reason) := by
  simp only [Executor.cancelJobLocked]
  refine cancelPush (unlockJob ?_) _ _ _
  cases includeQueue with
  | false => exact h.killCurrent hb j reason
  | true =>
    have htake := h.takePending j
    exact htake.killCurrent (takePending_books hb j) j reason

end Going

/-- A new call goes on as the one that runs. -/
theorem InLine.openCall (h : InLine s) (hfresh : s.call s.nextCall = .begun) :
    Going (.call s.nextCall) none s.openCall := by
  have hgo : Going (.call s.nextCall) none s :=
    h.go rfl (by simp [atWorker, hfresh, Call.atWorker]) (by simp [atJob, hfresh, Call.atJob])
  have hset := hgo.setCall .begun
  exact ⟨hset.worker, hset.job, hset.away, hset.held, hset.first, hset.holds, hset.unborn⟩

/-- A call that finds the lock of the job taken gets in the line. -/
theorem Going.parkCall (h : Going (.call n) none s) (hne : s.jobLocks j ≠ []) {c : Call}
    (hw : c.atWorker = false) (hj : c.atJob = some j) :
    InLine ((s.lockJob j (.call n)).setCall n c) := by
  refine h.parkJob hne rfl rfl (fun q hq => (setCall_at _ _ hq).1)
    (fun q hq => (setCall_at _ _ hq).2) (fun m hm => ?_) ?_ ?_ (fun m hm => ?_) h.unborn
  · have hm : m ≠ n := fun he => hm (by rw [he])
    simp [Executor.setCall, Executor.lockJob, hm]
  · simpa [atWorker, Executor.setCall] using hw
  · simpa [atJob, Executor.setCall] using hj
  · cases hm
    simpa [Executor.setCall] using hw

theorem InLine.runJob (h : InLine s) (hb : Books s) (hfresh : s.call s.nextCall = .begun)
    (d : RunData) : InLine (s.runJob d) := by
  have hopen := h.openCall hfresh
  simp only [Executor.runJob]
  split
  · split
    · rename_i hfree
      exact (hopen.lockJob hfree).runJobLocked (hb.congr (SameBooks.openCall.trans (.lockJob _ _)))
    · rename_i hne
      exact hopen.parkCall hne rfl rfl
  · refine (hopen.setCall _).rest rfl ?_ ?_
    · simp [atWorker, Executor.setCall, Call.atWorker]
    · simp [atJob, Executor.setCall, Call.atJob]

theorem InLine.cancelJob (h : InLine s) (hb : Books s) (hfresh : s.call s.nextCall = .begun)
    (j : JobId) (includeQueue : Bool) (reason : PyStr) :
    InLine (s.cancelJob j includeQueue reason) := by
  have hopen := h.openCall hfresh
  simp only [Executor.cancelJob]
  split
  · rename_i hfree
    exact (hopen.lockJob hfree).cancelJobLocked (hb.congr (SameBooks.openCall.trans (.lockJob _ _)))
      includeQueue reason
  · rename_i hne
    exact hopen.parkCall hne rfl rfl

theorem InLine.resumeCall (h : InLine s) (hb : Books s) (hs : s.resumeCall n = some s') :
    InLine s' := by
  unfold Executor.resumeCall at hs
  split at hs
  · rename_i d hc
    split at hs
    · rename_i hp
      have hgo : Going (.call n) (some d.jobId) s :=
        h.takeJob rfl (by simp [atWorker, hc, Call.atWorker]) (by simp [atJob, hc, Call.atJob]) hp
      cases hs
      exact hgo.runJobLocked hb
    · cases hs
  · rename_i d x r rest reason hc
    split at hs
    · rename_i hp
      have hat : s.atJob (.call n) = some d.jobId := by simp [atJob, hc, Call.atJob]
      have hgo : Going (.call n) (s.atJob (.call n)) s.unlockWorker :=
        h.takeWorker rfl hp fun k hk => by
          rw [hat] at hk
          cases hk
          exact h.holds n d x r rest reason hc
      rw [hat] at hgo
      cases hs
      exact Going.coverPush (s := s.unlockWorker.put x r) (hgo.books rfl rfl rfl rfl rfl) _ _
    · cases hs
  · rename_i k includeQueue reason hc
    split at hs
    · rename_i hp
      have hgo : Going (.call n) (some k) s :=
        h.takeJob rfl (by simp [atWorker, hc, Call.atWorker]) (by simp [atJob, hc, Call.atJob]) hp
      cases hs
      exact hgo.cancelJobLocked hb includeQueue reason
    · cases hs
  · rename_i x r rest reason u hc
    split at hs
    · rename_i hp
      have hat : s.atJob (.call n) = none := by simp [atJob, hc, Call.atJob]
      have hgo : Going (.call n) (s.atJob (.call n)) s.unlockWorker :=
        h.takeWorker rfl hp fun k hk => by rw [hat] at hk; cases hk
      rw [hat] at hgo
      cases hs
      exact Going.cancelPush (s := s.unlockWorker.put x r) (hgo.books rfl rfl rfl rfl rfl) _ _ _
    · cases hs
  · rename_i u hc
    have hgo : Going (.call n) none s :=
      h.go rfl (by simp [atWorker, hc, Call.atWorker]) (by simp [atJob, hc, Call.atJob])
    have hdone : ∀ exc, InLine (s.setCall n (.cancelDone exc)) := fun exc => by
      refine (hgo.setCall _).rest rfl ?_ ?_
      · simp [atWorker, setCall, Call.atWorker]
      · simp [atJob, setCall, Call.atJob]
    split at hs
    · cases hs; exact hdone _
    · cases hs; exact hdone _
    · cases hs
  · cases hs
  · cases hs
  · cases hs

/-! ## Every event -/

/-- Calls that were not made have no place. -/
def Placed (s : Executor) : Prop := ∀ n, s.call n = .begun ↔ s.nextCall ≤ n

/-- A step of `CallbackManager.stop` changes the line for the worker lock only. -/
theorem InLine.stop (h : InLine s) {ps : List Pid}
    (hc : ∀ p, p.isStop = false → ps.count p = s.workerLock.count p) :
    InLine { s with workerLock := ps } where
  worker p hp := (hc p hp).trans (h.worker p hp)
  job := h.job
  holds := h.holds
  unborn := h.unborn

theorem step_inLine (h : InLine s) (hi : Inv strict s) (hu : Placed s) (hs : step s e = some s') :
    InLine s' := by
  have hfresh : s.call s.nextCall = .begun := (hu _).mpr (Nat.le_refl _)
  have hsame : ∀ s₁ : Executor, s₁.workerLock = s.workerLock → s₁.jobLocks = s.jobLocks →
      s₁.obj = s.obj → s₁.call = s.call → s₁.nextTask = s.nextTask → InLine s₁ := by
    intro s₁ hl hjl ho hc hn
    refine ⟨fun p hp => ?_, fun j p => ?_, fun n d x r rest reason hcall => ?_, ?_⟩
    · rw [hl, (at_congr ho hc p).1]; exact h.worker p hp
    · rw [hjl, (at_congr ho hc p).2]; exact h.job j p
    · rw [hjl]
      exact h.holds n d x r rest reason (by rw [← hc]; exact hcall)
    · rw [hn, ho]; exact h.unborn
  cases e with
  | runJob d => cases hs; exact h.runJob hi.books hfresh d
  | cancelJob j includeQueue reason =>
    cases hs; exact h.cancelJob hi.books hfresh j includeQueue reason
  | resumeCall n =>
    simp only [step] at hs
    split at hs
    · exact h.resumeCall hi.books hs
    · cases hs
  | start t aux =>
    have hlt := task_lt hi hs (t := t) rfl
    simp only [step] at hs
    split at hs
    · rename_i hc
      cases hs
      exact (h.working hi hlt (by rw [hc]; rfl) (by rw [hc]; rfl)
        fun exc he => by rw [hc] at he; cases he).startRun aux
    · cases hs
  | abort t =>
    have hlt := task_lt hi hs (t := t) rfl
    simp only [step] at hs
    split at hs
    · rename_i hc
      cases hs
      exact (h.working hi hlt (by rw [hc]; rfl) (by rw [hc]; rfl)
        fun exc he => by rw [hc] at he; cases he).endTask _
    · cases hs
  | handlerEnds t res aux =>
    have hlt := task_lt hi hs (t := t) rfl
    simp only [step] at hs
    split at hs
    · rename_i ts hc
      cases hs
      exact (h.working hi hlt (by rw [hc]; rfl) (by rw [hc]; rfl)
        fun exc he => by rw [hc] at he; cases he).handlerEnds ts res aux
    · cases hs
  | resumeTask t aux => exact h.resumeTask hi (task_lt hi hs (t := t) rfl) hs
  | resumeCleanup t aux => exact h.resumeCleanup (task_lt hi hs (t := t) rfl) hs
  | setHandler handler => cases hs; exact hsame _ rfl rfl rfl rfl rfl
  | stopCalled close => cases hs; exact hsame _ rfl rfl rfl rfl rfl
  | stopLock n =>
    cases hs
    refine h.stop fun p hp => ?_
    have hne : (Pid.stop n == p) = false := by cases p <;> simp_all [Pid.isStop]
    simp [List.count_append, List.count_singleton, hne]
  | stopUnlock n =>
    simp only [step] at hs
    split at hs
    · rename_i hp
      cases hs
      refine h.stop fun p hp' => ?_
      cases hl : s.workerLock with
      | nil => rfl
      | cons q rest =>
        rw [hl] at hp
        cases hp
        rw [List.tail_cons, List.count_cons_of_ne fun he => by rw [← he] at hp'; cases hp']
    · cases hs
  | tick now => cases hs; exact hsame _ rfl rfl rfl rfl rfl

end Executor
end Pyxxl
