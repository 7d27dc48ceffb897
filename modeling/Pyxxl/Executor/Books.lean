import Mathlib.Data.List.Nodup
import Pyxxl.Lib.Line
import Pyxxl.Executor.Machine

/-!
# Pyxxl.Executor.Books

The books of the executor: `tasks`, `queue`, `_cover_replacements` and `_job_log_ids`, and what
each operation does to them.

* `line s j`: the current task's trigger, the cover replacement and the queue of job `j`.
* `Books s`: a job without a current task has nothing pending, `_job_log_ids` are the log ids of
  the line, no two alike, and an unfinished task is the current one of its job.
* `SameBooks s s'`: nothing of this has changed; every lock, callback and coroutine operation is
  of this kind (`SameBooks` lemmas).
* `Serves s s'`: seen from any job, the step is an evolution of a `Line`, the abstract waiting
  line. Arrivals are accepted triggers, servings are first steps of tasks.
-/

namespace Pyxxl
namespace Executor

def current (s : Executor) (j : JobId) : List Trigger :=
  match s.tasks j with
  | some t => [(s.obj t).data]
  | none => []

def pending (s : Executor) (j : JobId) : List Trigger :=
  (s.coverReplacements j).toList ++ s.queue j

def line (s : Executor) (j : JobId) : List Trigger := s.current j ++ s.pending j

/-- The current trigger, when its task has not begun. -/
def unstarted (s : Executor) (j : JobId) : List Trigger :=
  match s.tasks j with
  | some t => if (s.obj t).started then [] else [(s.obj t).data]
  | none => []

/-- The triggers of job `j` that may still start. -/
def waiting (s : Executor) (j : JobId) : List Trigger := s.unstarted j ++ s.pending j

/-- What holds of the books of one job. -/
structure JobBooks (s : Executor) (j : JobId) : Prop where
  current : ∀ t, s.tasks j = some t →
    t < s.nextTask ∧ (s.obj t).data.jobId = j ∧ t ∉ s.finished
  lone : s.tasks j = none → s.pending j = []
  owner : ∀ x ∈ s.pending j, x.jobId = j
  known : ∀ x ∈ s.line j, x ∈ s.accepted
  logIds : s.jobLogIds j = ((s.line j).map Trigger.logId).toFinset
  distinct : ((s.line j).map Trigger.logId).Nodup

structure Books (s : Executor) : Prop where
  job : ∀ j, JobBooks s j
  unfinished : ∀ t, t < s.nextTask → t ∉ s.finished → s.tasks (s.obj t).data.jobId = some t
  startedKnown : ∀ t, t < s.nextTask → (s.obj t).started = true → (s.obj t).data ∈ s.started
  tickets : s.accepted.map Trigger.ticket = List.range s.accepted.length
  finishedLt : ∀ t ∈ s.finished, t < s.nextTask
  once : s.finished.Nodup

/-! ## Steps that leave the books alone -/

structure SameBooks (s s' : Executor) : Prop where
  tasks : s'.tasks = s.tasks
  queue : s'.queue = s.queue
  logIds : s'.jobLogIds = s.jobLogIds
  cover : s'.coverReplacements = s.coverReplacements
  nextTask : s'.nextTask = s.nextTask
  accepted : s'.accepted = s.accepted
  started : s'.started = s.started
  finished : s'.finished = s.finished
  data : ∀ t, (s'.obj t).data = (s.obj t).data
  begun : ∀ t, (s'.obj t).started = (s.obj t).started

namespace SameBooks

variable {s s' s'' : Executor}

theorem refl : SameBooks s s :=
  ⟨rfl, rfl, rfl, rfl, rfl, rfl, rfl, rfl, fun _ => rfl, fun _ => rfl⟩

theorem trans (h₁ : SameBooks s s') (h₂ : SameBooks s' s'') : SameBooks s s'' where
  tasks := h₂.tasks.trans h₁.tasks
  queue := h₂.queue.trans h₁.queue
  logIds := h₂.logIds.trans h₁.logIds
  cover := h₂.cover.trans h₁.cover
  nextTask := h₂.nextTask.trans h₁.nextTask
  accepted := h₂.accepted.trans h₁.accepted
  started := h₂.started.trans h₁.started
  finished := h₂.finished.trans h₁.finished
  data t := (h₂.data t).trans (h₁.data t)
  begun t := (h₂.begun t).trans (h₁.begun t)

theorem current (h : SameBooks s s') (j : JobId) : s'.current j = s.current j := by
  simp only [Executor.current, h.tasks]
  cases s.tasks j with
  | none => rfl
  | some t => simp [h.data t]

theorem pending (h : SameBooks s s') (j : JobId) : s'.pending j = s.pending j := by
  simp only [Executor.pending, h.cover, h.queue]

theorem line (h : SameBooks s s') (j : JobId) : s'.line j = s.line j := by
  simp only [Executor.line, h.current, h.pending]

theorem waiting (h : SameBooks s s') (j : JobId) : s'.waiting j = s.waiting j := by
  simp only [Executor.waiting, unstarted, h.tasks, h.pending]
  cases s.tasks j with
  | none => rfl
  | some t => simp [h.data t, h.begun t]

theorem modTask (t : Nat) (f : XXLTask → XXLTask) (hd : ∀ o, (f o).data = o.data)
    (hs : ∀ o, (f o).started = o.started) : SameBooks s (s.modTask t f) where
  tasks := rfl
  queue := rfl
  logIds := rfl
  cover := rfl
  nextTask := rfl
  accepted := rfl
  started := rfl
  finished := rfl
  data u := by
    by_cases h : u = t
    · subst h; simp [Executor.modTask, hd]
    · simp [Executor.modTask, h]
  begun u := by
    by_cases h : u = t
    · subst h; simp [Executor.modTask, hs]
    · simp [Executor.modTask, h]

theorem setCoro (t : Nat) (c : Coro) : SameBooks s (s.setCoro t c) :=
  modTask t _ (fun _ => rfl) (fun _ => rfl)

theorem setCleanup (t : Nat) (c : Cleanup) : SameBooks s (s.setCleanup t c) :=
  modTask t _ (fun _ => rfl) (fun _ => rfl)

theorem endTask (t : Nat) (e : Option Exc) : SameBooks s (s.endTask t e) :=
  modTask t _ (fun _ => rfl) (fun _ => rfl)

theorem markCleaned (t : Nat) : SameBooks s (s.markCleaned t) :=
  modTask t _ (fun _ => rfl) (fun _ => rfl)

theorem setCancelReason (t : Nat) (r : PyStr) : SameBooks s (s.setCancelReason t r) :=
  modTask t _ (fun _ => rfl) (fun _ => rfl)

theorem openCall : SameBooks s s.openCall :=
  ⟨rfl, rfl, rfl, rfl, rfl, rfl, rfl, rfl, fun _ => rfl, fun _ => rfl⟩

theorem setCall (n : Nat) (c : Call) : SameBooks s (s.setCall n c) :=
  ⟨rfl, rfl, rfl, rfl, rfl, rfl, rfl, rfl, fun _ => rfl, fun _ => rfl⟩

theorem lockJob (j : JobId) (p : Pid) : SameBooks s (s.lockJob j p) :=
  ⟨rfl, rfl, rfl, rfl, rfl, rfl, rfl, rfl, fun _ => rfl, fun _ => rfl⟩

theorem unlockJob (j : JobId) : SameBooks s (s.unlockJob j) :=
  ⟨rfl, rfl, rfl, rfl, rfl, rfl, rfl, rfl, fun _ => rfl, fun _ => rfl⟩

theorem leaveJob (j : JobId) (p : Pid) : SameBooks s (s.leaveJob j p) :=
  ⟨rfl, rfl, rfl, rfl, rfl, rfl, rfl, rfl, fun _ => rfl, fun _ => rfl⟩

theorem lockWorker (p : Pid) : SameBooks s (s.lockWorker p) :=
  ⟨rfl, rfl, rfl, rfl, rfl, rfl, rfl, rfl, fun _ => rfl, fun _ => rfl⟩

theorem unlockWorker : SameBooks s s.unlockWorker :=
  ⟨rfl, rfl, rfl, rfl, rfl, rfl, rfl, rfl, fun _ => rfl, fun _ => rfl⟩

theorem leaveWorker (p : Pid) : SameBooks s (s.leaveWorker p) :=
  ⟨rfl, rfl, rfl, rfl, rfl, rfl, rfl, rfl, fun _ => rfl, fun _ => rfl⟩

theorem put (x : Trigger) (r : CallbackRequest) : SameBooks s (s.put x r) :=
  ⟨rfl, rfl, rfl, rfl, rfl, rfl, rfl, rfl, fun _ => rfl, fun _ => rfl⟩

theorem enqueue (p : Pid) (x : Trigger) (r : CallbackRequest) :
    SameBooks s (s.enqueue p x r).1 := by
  unfold Executor.enqueue
  split
  · exact ⟨rfl, rfl, rfl, rfl, rfl, rfl, rfl, rfl, fun _ => rfl, fun _ => rfl⟩
  · split
    · exact put x r
    · exact lockWorker p

theorem cancel (t : Nat) : SameBooks s (s.cancel t) := by
  unfold Executor.cancel
  split
  · exact setCoro t _
  · exact (leaveWorker _).trans (setCoro t _)
  · exact (leaveJob _ _).trans (setCoro t _)
  · exact refl

theorem killCurrent (j : JobId) (reason : PyStr) : SameBooks s (s.killCurrent j reason) := by
  unfold Executor.killCurrent
  split
  · exact (setCancelReason _ reason).trans (cancel _)
  · exact refl

theorem pushFailedQueuedTasks (p : Pid) (reason : PyStr) :
    ∀ (xs : List Trigger) (s : Executor),
      SameBooks s (Executor.pushFailedQueuedTasks p reason xs s).1 := by
  intro xs
  induction xs with
  | nil => intro s; exact refl
  | cons x xs ih =>
    intro s
    have he : SameBooks s (s.enqueue p x (s.failedRequest reason x)).1 := enqueue ..
    simp only [Executor.pushFailedQueuedTasks]
    split
    · rename_i s' hs; rw [hs] at he; exact he.trans (ih s')
    · rename_i s' hs; rw [hs] at he; exact he

end SameBooks

theorem JobBooks.congr {s s' : Executor} {j : JobId} (hb : JobBooks s j) (h : SameBooks s s') :
    JobBooks s' j where
  current t ht := by
    rw [h.tasks] at ht
    rw [h.nextTask, h.data, h.finished]
    exact hb.current t ht
  lone hj := by rw [h.tasks] at hj; rw [h.pending]; exact hb.lone hj
  owner := by rw [h.pending]; exact hb.owner
  known := by rw [h.line, h.accepted]; exact hb.known
  logIds := by rw [h.logIds, h.line]; exact hb.logIds
  distinct := by rw [h.line]; exact hb.distinct

theorem Books.congr {s s' : Executor} (hb : Books s) (h : SameBooks s s') : Books s' where
  job j := (hb.job j).congr h
  unfinished t ht hf := by
    rw [h.nextTask] at ht
    rw [h.finished] at hf
    rw [h.tasks, h.data]
    exact hb.unfinished t ht hf
  startedKnown t ht hs := by
    rw [h.nextTask] at ht
    rw [h.begun] at hs
    rw [h.data, h.started]
    exact hb.startedKnown t ht hs
  tickets := by rw [h.accepted]; exact hb.tickets
  finishedLt := by rw [h.finished, h.nextTask]; exact hb.finishedLt
  once := by rw [h.finished]; exact hb.once

theorem books_init (handler : String → Bool) (m : Int) : Books (init handler m) where
  job j := by
    refine ⟨fun t h => ?_, fun _ => rfl, fun x h => ?_, fun x h => ?_, rfl, List.nodup_nil⟩ <;>
      cases h
  unfinished t ht := absurd ht (Nat.not_lt_zero t)
  startedKnown t ht := absurd ht (Nat.not_lt_zero t)
  tickets := rfl
  finishedLt t h := by cases h
  once := List.nodup_nil

/-! ## The abstract line of a job -/

structure Views (s : Executor) (j : JobId) (L : Line Trigger) : Prop where
  arrived : L.arrived = s.accepted.filter (fun x => x.jobId = j)
  served : L.served = s.started.filter (fun x => x.jobId = j)
  waiting : L.waiting = s.waiting j

/-- Seen from any job, `s'` is an evolution of `s`. -/
def Serves (s s' : Executor) : Prop :=
  ∀ j L, Views s j L → ∃ L', L.Evolves L' ∧ Views s' j L'

theorem Serves.refl {s : Executor} : Serves s s := fun _ L h => ⟨L, .refl, h⟩

theorem Serves.trans {s s' s'' : Executor} (h₁ : Serves s s') (h₂ : Serves s' s'') :
    Serves s s'' := by
  intro j L hL
  obtain ⟨L', he, hL'⟩ := h₁ j L hL
  obtain ⟨L'', he', hL''⟩ := h₂ j L' hL'
  exact ⟨L'', he.trans he', hL''⟩

theorem SameBooks.serves {s s' : Executor} (h : SameBooks s s') : Serves s s' := by
  intro j L hL
  refine ⟨L, .refl, ⟨?_, ?_, ?_⟩⟩
  · rw [h.accepted]; exact hL.arrived
  · rw [h.started]; exact hL.served
  · rw [h.waiting]; exact hL.waiting

theorem views_init (handler : String → Bool) (m : Int) (j : JobId) :
    Views (init handler m) j Line.empty := ⟨rfl, rfl, rfl⟩

/-! ## Steps that concern other jobs -/

/-- Nothing of job `k` has changed. -/
structure Away (s s' : Executor) (k : JobId) : Prop where
  tasks : s'.tasks k = s.tasks k
  queue : s'.queue k = s.queue k
  logIds : s'.jobLogIds k = s.jobLogIds k
  cover : s'.coverReplacements k = s.coverReplacements k
  nextTask : s.nextTask ≤ s'.nextTask
  data : ∀ t, s.tasks k = some t → (s'.obj t).data = (s.obj t).data
  begun : ∀ t, s.tasks k = some t → (s'.obj t).started = (s.obj t).started
  finished : ∀ t, s.tasks k = some t → t ∈ s'.finished → t ∈ s.finished
  accepted : s.accepted ⊆ s'.accepted
  arrived : s'.accepted.filter (fun x => x.jobId = k) = s.accepted.filter (fun x => x.jobId = k)
  served : s'.started.filter (fun x => x.jobId = k) = s.started.filter (fun x => x.jobId = k)

namespace Away

variable {s s' : Executor} {k : JobId}

theorem current (h : Away s s' k) : s'.current k = s.current k := by
  simp only [Executor.current, h.tasks]
  cases ht : s.tasks k with
  | none => rfl
  | some t => simp [h.data t ht]

theorem pending (h : Away s s' k) : s'.pending k = s.pending k := by
  simp only [Executor.pending, h.cover, h.queue]

theorem line (h : Away s s' k) : s'.line k = s.line k := by
  simp only [Executor.line, h.current, h.pending]

theorem waiting (h : Away s s' k) : s'.waiting k = s.waiting k := by
  simp only [Executor.waiting, unstarted, h.tasks, h.pending]
  cases ht : s.tasks k with
  | none => rfl
  | some t => simp [h.data t ht, h.begun t ht]

theorem jobBooks (h : Away s s' k) (hb : JobBooks s k) : JobBooks s' k where
  current t ht := by
    rw [h.tasks] at ht
    obtain ⟨h1, h2, h3⟩ := hb.current t ht
    exact ⟨Nat.lt_of_lt_of_le h1 h.nextTask, by rw [h.data t ht]; exact h2,
      fun hf => h3 (h.finished t ht hf)⟩
  lone hj := by rw [h.tasks] at hj; rw [h.pending]; exact hb.lone hj
  owner := by rw [h.pending]; exact hb.owner
  known x hx := by rw [h.line] at hx; exact h.accepted (hb.known x hx)
  logIds := by rw [h.logIds, h.line]; exact hb.logIds
  distinct := by rw [h.line]; exact hb.distinct

theorem views (h : Away s s' k) {L : Line Trigger} (hL : Views s k L) : Views s' k L where
  arrived := by rw [h.arrived]; exact hL.arrived
  served := by rw [h.served]; exact hL.served
  waiting := by rw [h.waiting]; exact hL.waiting

end Away

end Executor
end Pyxxl
