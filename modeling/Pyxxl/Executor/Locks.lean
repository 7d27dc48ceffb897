import Pyxxl.Executor.Frame

/-!
# Pyxxl.Executor.Locks

The lines at the locks, in every run: whatever fails, whoever is cancelled, and however often
`CallbackManager.stop` is called.

* `atWorker`, `atJob`: the lock a coroutine stands at, read off the place it has reached.
* `InLine s`: each coroutine is in the line of that lock once, and in no other line; a `run_job` that
  pushes the failures of a COVER_EARLY holds the lock of its job meanwhile.
* `Going p o s`: the same while `p` runs, with the lock of the job `o` in its hands.
* `step_inLine`: every event keeps `InLine`.
-/

namespace Pyxxl
namespace Executor

def Coro.atWorker : Coro → Bool
  | .pushing _ _ => true
  | _ => false

def Coro.atJob : Coro → Bool
  | .locking _ => true
  | _ => false

def Cleanup.atWorker : Cleanup → Bool
  | .pushing _ => true
  | _ => false

def Cleanup.atJob : Cleanup → Bool
  | .locking => true
  | _ => false

def Call.atWorker : Call → Bool
  | .coverPush _ _ _ _ _ => true
  | .cancelPush _ _ _ _ _ => true
  | _ => false

def Call.atJob : Call → Option JobId
  | .runLock d => some d.jobId
  | .coverPush d _ _ _ _ => some d.jobId
  | .cancelLock j _ _ => some j
  | _ => none

def Pid.isStop : Pid → Bool
  | .stop _ => true
  | _ => false

def atWorker (s : Executor) : Pid → Bool
  | .call n => (s.call n).atWorker
  | .task t => (s.obj t).task.atWorker
  | .cleanup t => (s.obj t).cleanup.atWorker
  | .stop _ => false

/-- The job whose lock the coroutine waits for or holds across an await. -/
def atJob (s : Executor) : Pid → Option JobId
  | .call n => (s.call n).atJob
  | .task t => if (s.obj t).task.atJob then some (s.obj t).data.jobId else none
  | .cleanup t => if (s.obj t).cleanup.atJob then some (s.obj t).data.jobId else none
  | .stop _ => none

structure InLine (s : Executor) : Prop where
  worker : ∀ p, p.isStop = false → s.workerLock.count p = if s.atWorker p then 1 else 0
  job : ∀ j p, (s.jobLocks j).count p = if s.atJob p = some j then 1 else 0
  holds : ∀ n d x r rest reason, s.call n = .coverPush d x r rest reason →
    (s.jobLocks d.jobId).head? = some (.call n)
  unborn : ∀ t, s.nextTask ≤ t → s.obj t = noTask

structure Going (p : Pid) (o : Option JobId) (s : Executor) : Prop where
  worker : ∀ q, q ≠ p → q.isStop = false → s.workerLock.count q = if s.atWorker q then 1 else 0
  job : ∀ j q, q ≠ p → (s.jobLocks j).count q = if s.atJob q = some j then 1 else 0
  away : s.workerLock.count p = 0
  held : ∀ j, (s.jobLocks j).count p = if o = some j then 1 else 0
  first : ∀ j, o = some j → (s.jobLocks j).head? = some p
  holds : ∀ n d x r rest reason, Pid.call n ≠ p → s.call n = .coverPush d x r rest reason →
    (s.jobLocks d.jobId).head? = some (.call n)
  unborn : ∀ t, s.nextTask ≤ t → s.obj t = noTask

variable {s s' : Executor} {p : Pid} {o : Option JobId} {t n : Nat} {j : JobId}

theorem inLine_init (handler : String → Bool) (m : Int) : InLine (init handler m) where
  worker p _ := by cases p <;> rfl
  job j p := by cases p <;> simp [init, atJob, noTask, Call.atJob, Coro.atJob, Cleanup.atJob]
  holds n d x r rest reason h := by cases h
  unborn _ _ := rfl

/-- A coroutine that moves leaves the others where they stand. -/
theorem modTask_at (f : XXLTask → XXLTask) {q : Pid}
    (hd : (f (s.obj t)).data = (s.obj t).data)
    (hk : q = .task t → (f (s.obj t)).task = (s.obj t).task)
    (hc : q = .cleanup t → (f (s.obj t)).cleanup.atWorker = (s.obj t).cleanup.atWorker ∧
      (f (s.obj t)).cleanup.atJob = (s.obj t).cleanup.atJob) :
    (s.modTask t f).atWorker q = s.atWorker q ∧ (s.modTask t f).atJob q = s.atJob q := by
  cases q with
  | task u =>
    by_cases hu : u = t
    · subst hu; simp [atWorker, atJob, hk rfl, hd]
    · simp [atWorker, atJob, modTask_other hu]
  | cleanup u =>
    by_cases hu : u = t
    · subst hu
      obtain ⟨h1, h2⟩ := hc rfl
      simp [atWorker, atJob, h1, h2, hd]
    · simp [atWorker, atJob, modTask_other hu]
  | _ => exact ⟨rfl, rfl⟩

theorem at_congr (ho : s'.obj = s.obj) (hc : s'.call = s.call) (q : Pid) :
    s'.atWorker q = s.atWorker q ∧ s'.atJob q = s.atJob q := by
  cases q with
  | call n => simp only [atWorker, atJob, hc, and_self]
  | task t => simp only [atWorker, atJob, ho, and_self]
  | cleanup t => simp only [atWorker, atJob, ho, and_self]
  | stop n => exact ⟨rfl, rfl⟩

theorem setCoro_at (s : Executor) (c : Coro) {q : Pid} (hq : q ≠ .task t) :
    (s.setCoro t c).atWorker q = s.atWorker q ∧ (s.setCoro t c).atJob q = s.atJob q :=
  modTask_at _ rfl (fun he => absurd he hq) fun _ => ⟨rfl, rfl⟩

theorem setCleanup_at (s : Executor) (c : Cleanup) {q : Pid} (hq : q ≠ .cleanup t) :
    (s.setCleanup t c).atWorker q = s.atWorker q ∧ (s.setCleanup t c).atJob q = s.atJob q :=
  modTask_at _ rfl (fun _ => rfl) fun he => absurd he hq

theorem setCall_at (s : Executor) (c : Call) {q : Pid} (hq : q ≠ .call n) :
    (s.setCall n c).atWorker q = s.atWorker q ∧ (s.setCall n c).atJob q = s.atJob q := by
  cases q with
  | call m =>
    have hm : m ≠ n := fun he => hq (by rw [he])
    simp [atWorker, atJob, setCall, hm]
  | _ => exact ⟨rfl, rfl⟩

/-! ## A coroutine starts to run, and suspends or ends -/

/-- A coroutine that stands at no lock goes on. -/
theorem InLine.go (h : InLine s) (hs : p.isStop = false) (hw : s.atWorker p = false)
    (hj : s.atJob p = none) : Going p none s where
  worker q _ hq := h.worker q hq
  job j q _ := h.job j q
  away := by rw [h.worker p hs, hw]; rfl
  held j := by rw [h.job j p, hj]
  first j hj := by cases hj
  holds n d x r rest reason _ := h.holds n d x r rest reason
  unborn := h.unborn

/-- The coroutine is at no lock: it has ended, or awaits something else. -/
theorem Going.rest (h : Going p none s) (hs : p.isStop = false) (hw : s.atWorker p = false)
    (hj : s.atJob p = none) : InLine s where
  worker q hq := by
    by_cases he : q = p
    · subst he; rw [h.away, hw]; rfl
    · exact h.worker q he hq
  job j q := by
    by_cases he : q = p
    · subst he; rw [h.held, hj]
    · exact h.job j q he
  holds n d x r rest reason hc := by
    refine h.holds n d x r rest reason (fun he => ?_) hc
    subst he
    simp only [atJob, hc, Call.atJob] at hj
    cases hj
  unborn := h.unborn

/-- `p` gets in the line for the worker lock, with the lock of job `o` in its hands. -/
theorem Going.parkWorker (h : Going p o s) (hs : p.isStop = false)
    (hl : s'.workerLock = s.workerLock ++ [p]) (hjl : s'.jobLocks = s.jobLocks)
    (hw : ∀ q, q ≠ p → s'.atWorker q = s.atWorker q) (hj : ∀ q, q ≠ p → s'.atJob q = s.atJob q)
    (hc : ∀ n, Pid.call n ≠ p → s'.call n = s.call n) (hpw : s'.atWorker p = true)
    (hpj : s'.atJob p = o) (hu : ∀ t, s'.nextTask ≤ t → s'.obj t = noTask) : InLine s' where
  worker q hq := by
    rw [hl, List.count_append]
    by_cases he : q = p
    · subst he
      rw [h.away, hpw]
      simp
    · rw [hw q he, h.worker q he hq, List.count_singleton]
      have hne : (p == q) = false := by simpa using fun hpq => he hpq.symm
      simp [hne]
  job j q := by
    rw [hjl]
    by_cases he : q = p
    · subst he; rw [h.held, hpj]
    · rw [hj q he]; exact h.job j q he
  holds n d x r rest reason hn := by
    rw [hjl]
    by_cases he : Pid.call n = p
    · subst he
      refine h.first _ ?_
      rw [← hpj]
      simp [atJob, hn, Call.atJob]
    · exact h.holds n d x r rest reason he (by rw [← hc n he]; exact hn)
  unborn := hu

/-- `p` gets in the line for the lock of job `j`. -/
theorem Going.parkJob (h : Going p none s) (hne : s.jobLocks j ≠ [])
    (hl : s'.workerLock = s.workerLock)
    (hjl : s'.jobLocks = Function.update s.jobLocks j (s.jobLocks j ++ [p]))
    (hw : ∀ q, q ≠ p → s'.atWorker q = s.atWorker q) (hj : ∀ q, q ≠ p → s'.atJob q = s.atJob q)
    (hc : ∀ n, Pid.call n ≠ p → s'.call n = s.call n) (hpw : s'.atWorker p = false)
    (hpj : s'.atJob p = some j) (hpc : ∀ n, Pid.call n = p → (s'.call n).atWorker = false)
    (hu : ∀ t, s'.nextTask ≤ t → s'.obj t = noTask) : InLine s' where
  worker q hq := by
    rw [hl]
    by_cases he : q = p
    · subst he; rw [h.away, hpw]; rfl
    · rw [hw q he]; exact h.worker q he hq
  job k q := by
    rw [hjl]
    by_cases hk : k = j
    · subst hk
      rw [Function.update_self, List.count_append]
      by_cases he : q = p
      · subst he; rw [h.held, hpj]; simp
      · rw [hj q he, h.job k q he, List.count_singleton]
        have hne : (p == q) = false := by simpa using fun hpq => he hpq.symm
        simp [hne]
    · rw [Function.update_of_ne hk]
      by_cases he : q = p
      · subst he
        rw [h.held, hpj]
        simp [Ne.symm hk]
      · rw [hj q he]; exact h.job k q he
  holds n d x r rest reason hn := by
    by_cases he : Pid.call n = p
    · have := hpc n he
      rw [hn] at this
      cases this
    · have hh := h.holds n d x r rest reason he (by rw [← hc n he]; exact hn)
      rw [hjl]
      by_cases hk : d.jobId = j
      · rw [hk] at hh ⊢
        rw [Function.update_self, List.head?_append, hh]
        rfl
      · rw [Function.update_of_ne hk]; exact hh
  unborn := hu

/-! ## What a running coroutine does -/

namespace Going

/-- No line has changed, and no other coroutine has moved. -/
theorem frame (h : Going p o s) (hl : s'.workerLock = s.workerLock)
    (hjl : s'.jobLocks = s.jobLocks) (hw : ∀ q, q ≠ p → s'.atWorker q = s.atWorker q)
    (hj : ∀ q, q ≠ p → s'.atJob q = s.atJob q) (hc : ∀ n, Pid.call n ≠ p → s'.call n = s.call n)
    (hu : ∀ t, s'.nextTask ≤ t → s'.obj t = noTask) : Going p o s' where
  worker q hq hs := by rw [hl, hw q hq]; exact h.worker q hq hs
  job j q hq := by rw [hjl, hj q hq]; exact h.job j q hq
  away := by rw [hl]; exact h.away
  held j := by rw [hjl]; exact h.held j
  first j hj := by rw [hjl]; exact h.first j hj
  holds n d x r rest reason hn hcall := by
    rw [hjl]
    exact h.holds n d x r rest reason hn (by rw [← hc n hn]; exact hcall)
  unborn := hu

/-- What is neither a lock nor a place is changed. -/
theorem books (h : Going p o s) (hl : s'.workerLock = s.workerLock)
    (hjl : s'.jobLocks = s.jobLocks) (ho : s'.obj = s.obj) (hc : s'.call = s.call)
    (hn : s'.nextTask = s.nextTask) : Going p o s' := by
  refine h.frame hl hjl (fun q _ => (at_congr ho hc q).1) (fun q _ => (at_congr ho hc q).2)
    (fun n _ => by rw [hc]) ?_
  rw [hn, ho]
  exact h.unborn

theorem lockJob (h : Going p none s) (hfree : s.jobLocks j = []) :
    Going p (some j) (s.lockJob j p) where
  worker := h.worker
  job k q hq := by
    by_cases hk : k = j
    · subst hk
      have hzero := h.job k q hq
      have hne : (p == q) = false := by simpa using fun hpq => hq hpq.symm
      simp only [Executor.lockJob, Function.update_self, hfree, List.nil_append,
        List.count_singleton, hne, Bool.false_eq_true, if_false]
      rw [hfree, List.count_nil] at hzero
      exact hzero
    · simp only [Executor.lockJob, Function.update_of_ne hk]
      exact h.job k q hq
  away := h.away
  held k := by
    by_cases hk : k = j
    · subst hk; simp [Executor.lockJob, hfree]
    · have hheld := h.held k
      simp only [Executor.lockJob, Function.update_of_ne hk]
      rw [hheld]
      simp [Ne.symm hk]
  first k hk := by
    cases hk
    simp [Executor.lockJob, hfree]
  holds n d x r rest reason hn hcall := by
    have hh := h.holds n d x r rest reason hn hcall
    by_cases hk : d.jobId = j
    · rw [hk, hfree] at hh; cases hh
    · simp only [Executor.lockJob, Function.update_of_ne hk]
      exact hh
  unborn := h.unborn

theorem unlockJob (h : Going p (some j) s) : Going p none (s.unlockJob j) := by
  obtain ⟨rest, hrest⟩ : ∃ rest, s.jobLocks j = p :: rest := by
    have hf := h.first j rfl
    cases hl : s.jobLocks j with
    | nil => rw [hl] at hf; cases hf
    | cons q rest => rw [hl] at hf; cases hf; exact ⟨rest, rfl⟩
  have hzero : rest.count p = 0 := by
    have := h.held j
    rw [hrest, List.count_cons_self, if_pos rfl] at this
    omega
  refine ⟨h.worker, fun k q hq => ?_, h.away, fun k => ?_,
    (fun k hk => by cases hk), fun n d x r rest' reason hn hcall => ?_, h.unborn⟩
  · by_cases hk : k = j
    · subst hk
      have hjob := h.job k q hq
      rw [hrest, List.count_cons_of_ne (fun he => hq he.symm)] at hjob
      simp only [Executor.unlockJob, Function.update_self, hrest, List.tail_cons]
      exact hjob
    · simp only [Executor.unlockJob, Function.update_of_ne hk]
      exact h.job k q hq
  · by_cases hk : k = j
    · subst hk
      simp only [Executor.unlockJob, Function.update_self, hrest, List.tail_cons, hzero]
      simp
    · have hheld := h.held k
      simp only [Executor.unlockJob, Function.update_of_ne hk]
      rw [hheld]
      simp [Ne.symm hk]
  · have hh := h.holds n d x r rest' reason hn hcall
    by_cases hk : d.jobId = j
    · rw [hk, hrest] at hh
      cases hh
      exact absurd rfl hn
    · simp only [Executor.unlockJob, Function.update_of_ne hk]
      exact hh

/-- A coroutine changes the `XXLTask` it works on. -/
theorem modTask (h : Going p o s) (ht : t < s.nextTask) (f : XXLTask → XXLTask)
    (hd : (f (s.obj t)).data = (s.obj t).data)
    (hk : p ≠ .task t → (f (s.obj t)).task = (s.obj t).task)
    (hc : p ≠ .cleanup t → (f (s.obj t)).cleanup.atWorker = (s.obj t).cleanup.atWorker ∧
      (f (s.obj t)).cleanup.atJob = (s.obj t).cleanup.atJob) :
    Going p o (s.modTask t f) := by
  have hat : ∀ q, q ≠ p → (s.modTask t f).atWorker q = s.atWorker q ∧
      (s.modTask t f).atJob q = s.atJob q := fun q hq =>
    modTask_at f hd (fun he => hk fun hp => hq (he.trans hp.symm))
      fun he => hc fun hp => hq (he.trans hp.symm)
  refine h.frame rfl rfl (fun q hq => (hat q hq).1) (fun q hq => (hat q hq).2) (fun _ _ => rfl) ?_
  intro u hu
  have hne : u ≠ t := by
    have hu' : s.nextTask ≤ u := hu
    omega
  rw [modTask_other hne]
  exact h.unborn u hu

theorem setCall (h : Going (.call n) o s) (c : Call) : Going (.call n) o (s.setCall n c) := by
  refine h.frame rfl rfl (fun q hq => (setCall_at s c hq).1) (fun q hq => (setCall_at s c hq).2)
    (fun m hm => ?_) h.unborn
  have hm : m ≠ n := fun he => hm (by rw [he])
  simp [Executor.setCall, hm]

/-- A task that is created is at no lock. -/
theorem createTask (h : Going p o s) (x : Trigger) : Going p o (s.createTask x) := by
  have hnone := h.unborn s.nextTask (Nat.le_refl _)
  have hother : ∀ u, u ≠ s.nextTask → (s.createTask x).obj u = s.obj u := fun u hu => by
    simp [Executor.createTask, hu]
  refine h.frame rfl rfl (fun q _ => ?_) (fun q _ => ?_) (fun _ _ => rfl) fun u hu => ?_
  · cases q with
    | task u =>
      by_cases hu : u = s.nextTask
      · subst hu; simp [atWorker, Executor.createTask, hnone, noTask, Coro.atWorker]
      · simp [atWorker, hother u hu]
    | cleanup u =>
      by_cases hu : u = s.nextTask
      · subst hu; simp [atWorker, Executor.createTask, hnone, noTask, Cleanup.atWorker]
      · simp [atWorker, hother u hu]
    | _ => rfl
  · cases q with
    | task u =>
      by_cases hu : u = s.nextTask
      · subst hu; simp [atJob, Executor.createTask, hnone, noTask, Coro.atJob]
      · simp [atJob, hother u hu]
    | cleanup u =>
      by_cases hu : u = s.nextTask
      · subst hu; simp [atJob, Executor.createTask, hnone, noTask, Cleanup.atJob]
      · simp [atJob, hother u hu]
    | _ => rfl
  · have hu' : s.nextTask + 1 ≤ u := hu
    rw [hother u (by omega)]
    exact h.unborn u (by omega)

theorem finish (h : Going p o s) (t : Nat) : Going p o (s.finish t) := by
  have hsame : ∀ s₁ : Executor, s₁.workerLock = s.workerLock → s₁.jobLocks = s.jobLocks →
      s₁.obj = s.obj → s₁.call = s.call → s₁.nextTask = s.nextTask → Going p o s₁ :=
    fun s₁ hl hjl ho hc hn => h.books hl hjl ho hc hn
  by_cases ht : s.tasks (s.obj t).data.jobId = some t
  · cases hc : s.coverReplacements (s.obj t).data.jobId with
    | some r =>
      simp only [Executor.finish, ht, if_true, popCoverReplacement, releaseLogId, hc]
      apply createTask
      exact hsame _ rfl rfl rfl rfl rfl
    | none =>
      cases hq : s.queue (s.obj t).data.jobId with
      | nil =>
        simp only [Executor.finish, ht, if_true, popCoverReplacement, releaseLogId, hc, hq]
        exact hsame _ rfl rfl rfl rfl rfl
      | cons y rest =>
        simp only [Executor.finish, ht, if_true, popCoverReplacement, releaseLogId, hc, hq]
        apply createTask
        exact hsame _ rfl rfl rfl rfl rfl
  · simp only [Executor.finish, ht, if_false]
    exact hsame _ rfl rfl rfl rfl rfl

theorem finishLocked (h : Going p (some (s.obj t).data.jobId) s) :
    Going p none (s.finishLocked t) := (h.finish t).unlockJob

/-- `enqueue` has returned, or `p` gets in the line for the worker lock. -/
theorem enqueue (h : Going p o s) {q : Pid} {x : Trigger} {r : CallbackRequest} {b : Bool}
    (he : s.enqueue q x r = (s', b)) :
    (b = true ∧ Going p o s') ∨ (b = false ∧ s' = s.lockWorker q) := by
  unfold Executor.enqueue at he
  split at he
  · cases he; exact .inl ⟨rfl, h.books rfl rfl rfl rfl rfl⟩
  · split at he
    · cases he; exact .inl ⟨rfl, h.books rfl rfl rfl rfl rfl⟩
    · cases he; exact .inr ⟨rfl, rfl⟩

theorem pushFailed {q : Pid} {reason : PyStr} : ∀ {xs : List Trigger} {s s' : Executor}
    {rest : Option (Trigger × CallbackRequest × List Trigger)}, Going p o s →
    pushFailedQueuedTasks q reason xs s = (s', rest) →
      (rest = none ∧ Going p o s') ∨
        (rest.isSome ∧ ∃ s₁, Going p o s₁ ∧ s' = s₁.lockWorker q) := by
  intro xs
  induction xs with
  | nil => intro s s' rest h hs; cases hs; exact .inl ⟨rfl, h⟩
  | cons y ys ih =>
    intro s s' rest h hs
    simp only [pushFailedQueuedTasks] at hs
    split at hs
    · rename_i s₁ he
      rcases h.enqueue he with ⟨-, h₁⟩ | ⟨hb, -⟩
      · exact ih h₁ hs
      · cases hb
    · rename_i s₁ he
      rcases h.enqueue he with ⟨hb, -⟩ | ⟨-, h₁⟩
      · cases hb
      · cases hs; exact .inr ⟨rfl, s, h, h₁⟩

end Going

/-! ## The coroutine of a task -/

/-- The coroutine of `t` runs, and the task has no cleanup task yet. -/
structure Working (t : Nat) (o : Option JobId) (s : Executor) : Prop where
  going : Going (.task t) o s
  lt : t < s.nextTask
  idle : (s.obj t).cleanup = .idle

namespace Working

theorem modTask (h : Working t o s) (f : XXLTask → XXLTask)
    (hd : (f (s.obj t)).data = (s.obj t).data)
    (hf : (f (s.obj t)).cleanup = (s.obj t).cleanup) : Working t o (s.modTask t f) :=
  ⟨h.going.modTask h.lt f hd (fun hp => absurd rfl hp) fun _ => by rw [hf]; exact ⟨rfl, rfl⟩,
    h.lt, by rw [modTask_self, hf, h.idle]⟩

theorem markCleaned (h : Working t o s) : Working t o (s.markCleaned t) := h.modTask _ rfl rfl

theorem setCoro (h : Working t o s) (c : Coro) : Working t o (s.setCoro t c) := h.modTask _ rfl rfl

theorem endTask (h : Working t none s) (exc : Option Exc) : InLine (s.endTask t exc) := by
  have hgo : Going (.task t) none (s.endTask t exc) :=
    h.going.modTask h.lt _ rfl (fun hp => absurd rfl hp) fun _ => by
      simp [h.idle, Cleanup.atWorker, Cleanup.atJob]
  refine hgo.rest rfl ?_ ?_
  · simp [atWorker, Executor.endTask, Coro.atWorker]
  · simp [atJob, Executor.endTask, Coro.atJob]

theorem finishLocked (h : Working t (some (s.obj t).data.jobId) s) :
    Working t none (s.finishLocked t) := by
  have hobj : (s.finish t).obj t = s.obj t := by
    rcases (Frame.finish (o := none) s t).kept t (by simp) with he | ⟨hle, -⟩
    · exact he
    · have := h.lt
      omega
  refine ⟨h.going.finishLocked, ?_, ?_⟩
  · have hm : s.nextTask ≤ (s.finish t).nextTask := (Frame.finish (o := none) s t).mono
    exact Nat.lt_of_lt_of_le h.lt hm
  · show ((s.finish t).obj t).cleanup = .idle
    rw [hobj]
    exact h.idle

theorem cleanupTask (h : Working t none s) (exc : Option Exc) : InLine (s.cleanupTask t exc) := by
  have hmark := h.markCleaned
  have hdata : ((s.markCleaned t).obj t).data = (s.obj t).data := by simp [Executor.markCleaned]
  unfold Executor.cleanupTask
  split
  · exact h.endTask exc
  · split
    · rename_i hfree
      have hlock : Working t (some (s.obj t).data.jobId)
          ((s.markCleaned t).lockJob (s.obj t).data.jobId (.task t)) :=
        ⟨hmark.going.lockJob hfree, hmark.lt, hmark.idle⟩
      have hjob : (((s.markCleaned t).lockJob (s.obj t).data.jobId (.task t)).obj t).data.jobId =
          (s.obj t).data.jobId := congrArg Trigger.jobId hdata
      rw [← hjob] at hlock
      rw [← hjob]
      exact hlock.finishLocked.endTask exc
    · rename_i hne
      have hcoro := hmark.setCoro (.locking exc)
      refine hmark.going.parkJob hne
        rfl rfl ?_ ?_ (fun _ _ => rfl) ?_ ?_ (fun n hn => by cases hn) hcoro.going.unborn
      · intro q hq; exact (setCoro_at _ _ hq).1
      · intro q hq; exact (setCoro_at _ _ hq).2
      · simp [atWorker, Executor.setCoro, Coro.atWorker]
      · simp [atJob, Executor.setCoro, Executor.lockJob, Coro.atJob, hdata]

/-- `enqueue` in the `try` body or in an `except` branch, where it has to wait. -/
theorem push (h : Working t none s) (inTry : Bool) (r : CallbackRequest) :
    InLine ((s.lockWorker (.task t)).setCoro t (.pushing inTry r)) := by
  have hcoro := h.setCoro (.pushing inTry r)
  refine h.going.parkWorker rfl rfl rfl ?_ ?_ (fun _ _ => rfl) ?_ ?_ hcoro.going.unborn
  · intro q hq; exact (setCoro_at _ _ hq).1
  · intro q hq; exact (setCoro_at _ _ hq).2
  · simp [atWorker, Executor.setCoro, Coro.atWorker]
  · simp [atJob, Executor.setCoro, Coro.atJob]

end Working

end Executor
end Pyxxl
