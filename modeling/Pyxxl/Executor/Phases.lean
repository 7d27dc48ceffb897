import Pyxxl.Executor.BookOps

/-!
# Pyxxl.Executor.Phases

How far each `XXLTask` has come, and the invariant of the machine.

`TaskOk strict o fin` relates the coroutine of a task, its flags, its cleanup task and whether
`_finish` has run for it (`fin`). It comes in two strengths: the weak one holds whatever fails
and whenever a `cancel()` arrives; the strict one adds that a task that has ended was finished,
and needs that no `cancel()` reaches a task past its handler and that nothing around the handler
fails (`Careful`).
-/

namespace Pyxxl
namespace Executor

/-- The coroutine has left the `try` body for good, and waits for a lock. -/
def Coro.pastHandler : Coro → Bool
  | .pushing false _ => true
  | .locking _ => true
  | _ => false

def TaskOk (strict : Prop) (o : XXLTask) (fin : Prop) : Prop :=
  match o.task with
  | .scheduled _ => o.started = false ∧ o.cleaned = false ∧ o.cleanup = .idle ∧ ¬fin
  | .inHandler _ => o.started = true ∧ o.cleaned = false ∧ o.cleanup = .idle ∧ ¬fin
  | .pushing _ _ => o.started = true ∧ o.cleaned = false ∧ o.cleanup = .idle ∧ ¬fin
  | .thrownPushing inTry _ =>
    (o.started = true ∧ o.cleaned = false ∧ o.cleanup = .idle ∧ ¬fin) ∧ (strict → inTry = true)
  | .locking _ => o.started = true ∧ o.cleaned = true ∧ o.cleanup = .idle ∧ ¬fin
  | .thrownLocking =>
    (o.started = true ∧ o.cleaned = true ∧ o.cleanup = .idle ∧ ¬fin) ∧ ¬strict
  | .done exc =>
    match o.cleanup with
    | .idle => False
    | .doneCallback =>
      (o.started = false → exc = some .cancelled ∧ o.cleaned = false) ∧
        (o.cleaned = false → ¬fin) ∧ (strict → o.started = true → fin)
    | .scheduled => o.started = false ∧ o.cleaned = false ∧ ¬fin ∧ exc = some .cancelled
    | .pushing _ => o.started = false ∧ o.cleaned = true ∧ ¬fin ∧ exc = some .cancelled
    | .locking => o.started = false ∧ o.cleaned = true ∧ ¬fin ∧ exc = some .cancelled
    | .ended => strict → fin

theorem TaskOk.ended {strict fin : Prop} {o : XXLTask} (h : TaskOk strict o fin)
    (hc : o.cleanup ≠ .idle) : ∃ exc, o.task = .done exc := by
  unfold TaskOk at h
  split at h
  all_goals first | exact ⟨_, by assumption⟩ | simp_all

/-- The invariant, the strict one for the tasks in `strict`. -/
structure Inv (strict : Nat → Prop) (s : Executor) : Prop where
  books : Books s
  tasks : ∀ t, t < s.nextTask → TaskOk (strict t) (s.obj t) (t ∈ s.finished)
  fresh : ∀ t, s.nextTask ≤ t → s.obj t = noTask

/-- The step keeps the invariant and is an evolution of every job's line. -/
def Good (strict : Nat → Prop) (s s' : Executor) : Prop := Inv strict s' ∧ Serves s s'

variable {strict : Nat → Prop} {s s' s'' : Executor} {t : Nat}

theorem inv_init (handler : String → Bool) (m : Int) : Inv strict (init handler m) :=
  ⟨books_init handler m, fun t ht => absurd ht (Nat.not_lt_zero t), fun _ _ => rfl⟩

/-- Only a task that was created can be anywhere but at its end. -/
theorem Inv.lt_of_obj (h : Inv strict s) (ho : s.obj t ≠ noTask) : t < s.nextTask := by
  by_contra hge
  exact ho (h.fresh t (by omega))

theorem Good.of_serves (h₁ : Serves s s') (h₂ : Good strict s' s'') : Good strict s s'' :=
  ⟨h₂.1, h₁.trans h₂.2⟩

theorem Inv.good_refl (h : Inv strict s) : Good strict s s := ⟨h, .refl⟩

/-- A step that touches no `XXLTask` and no book. -/
theorem Inv.good_same (h : Inv strict s) (hb : SameBooks s s') (ho : s'.obj = s.obj) :
    Good strict s s' := by
  refine ⟨⟨h.books.congr hb, ?_, ?_⟩, hb.serves⟩
  · rw [hb.nextTask, hb.finished, ho]; exact h.tasks
  · rw [hb.nextTask, ho]; exact h.fresh

theorem Good.same (h : Good strict s s') (hb : SameBooks s' s'') (ho : s''.obj = s'.obj) :
    Good strict s s'' :=
  .of_serves h.2 (h.1.good_same hb ho)

/-- The invariant, save for the phase of task `t`. -/
structure InvBut (strict : Nat → Prop) (s : Executor) (t : Nat) : Prop where
  books : Books s
  tasks : ∀ u, u < s.nextTask → u ≠ t → TaskOk (strict u) (s.obj u) (u ∈ s.finished)
  fresh : ∀ u, s.nextTask ≤ u → s.obj u = noTask
  lt : t < s.nextTask

theorem Inv.but (h : Inv strict s) (ht : t < s.nextTask) : InvBut strict s t :=
  ⟨h.books, fun u hu _ => h.tasks u hu, h.fresh, ht⟩

/-- A step that moves the one task `t`, and no book. -/
theorem InvBut.move (h : InvBut strict s t) (hb : SameBooks s s')
    (ho : ∀ u, u ≠ t → s'.obj u = s.obj u) : InvBut strict s' t where
  books := h.books.congr hb
  tasks u hu hne := by
    rw [hb.nextTask] at hu
    rw [hb.finished, ho u hne]
    exact h.tasks u hu hne
  fresh u hu := by
    rw [hb.nextTask] at hu
    have := h.lt
    rw [ho u (by omega)]
    exact h.fresh u hu
  lt := by rw [hb.nextTask]; exact h.lt

theorem InvBut.inv (h : InvBut strict s t) (hok : TaskOk (strict t) (s.obj t) (t ∈ s.finished)) :
    Inv strict s where
  books := h.books
  tasks u hu := by
    by_cases he : u = t
    · subst he; exact hok
    · exact h.tasks u hu he
  fresh := h.fresh

theorem Inv.good_task (h : Inv strict s) (hb : SameBooks s s')
    (ho : ∀ u, u ≠ t → s'.obj u = s.obj u) (ht : t < s.nextTask)
    (hok : TaskOk (strict t) (s'.obj t) (t ∈ s.finished)) : Good strict s s' :=
  ⟨((h.but ht).move hb ho).inv (by rw [hb.finished]; exact hok), hb.serves⟩

/-! ## What the object operations leave alone -/

@[simp] theorem modTask_other {f : XXLTask → XXLTask} {u : Nat} (h : u ≠ t) :
    (s.modTask t f).obj u = s.obj u := by simp [modTask, h]

@[simp] theorem modTask_self {f : XXLTask → XXLTask} : (s.modTask t f).obj t = f (s.obj t) := by
  simp [modTask]

theorem enqueue_obj (p : Pid) (x : Trigger) (r : CallbackRequest) :
    (s.enqueue p x r).1.obj = s.obj := by
  unfold enqueue
  split
  · rfl
  · split <;> rfl

theorem enqueue_same {p : Pid} {x : Trigger} {r : CallbackRequest} {b : Bool}
    (he : s.enqueue p x r = (s', b)) : SameBooks s s' ∧ s'.obj = s.obj := by
  have hsame := SameBooks.enqueue (s := s) p x r
  have hobj := enqueue_obj (s := s) p x r
  rw [he] at hsame hobj
  exact ⟨hsame, hobj⟩

theorem enqueue_calls {p : Pid} {x : Trigger} {r : CallbackRequest} {b : Bool}
    (he : s.enqueue p x r = (s', b)) : s'.call = s.call ∧ s'.nextCall = s.nextCall := by
  unfold Executor.enqueue at he
  split at he
  · cases he; exact ⟨rfl, rfl⟩
  · split at he
    · cases he; exact ⟨rfl, rfl⟩
    · cases he; exact ⟨rfl, rfl⟩

theorem pushFailed_calls {p : Pid} {reason : PyStr} : ∀ {xs : List Trigger} {s s' : Executor}
    {rest : Option (Trigger × CallbackRequest × List Trigger)},
    pushFailedQueuedTasks p reason xs s = (s', rest) →
      s'.call = s.call ∧ s'.nextCall = s.nextCall := by
  intro xs
  induction xs with
  | nil => intro s s' rest hs; cases hs; exact ⟨rfl, rfl⟩
  | cons y ys ih =>
    intro s s' rest hs
    simp only [pushFailedQueuedTasks] at hs
    split at hs
    · rename_i he
      obtain ⟨h1, h2⟩ := enqueue_calls he
      obtain ⟨h3, h4⟩ := ih hs
      exact ⟨h3.trans h1, h4.trans h2⟩
    · rename_i he; cases hs; exact enqueue_calls he

theorem pushFailedQueuedTasks_obj (p : Pid) (reason : PyStr) :
    ∀ (xs : List Trigger) (s : Executor), (pushFailedQueuedTasks p reason xs s).1.obj = s.obj := by
  intro xs
  induction xs with
  | nil => intro s; rfl
  | cons x xs ih =>
    intro s
    have he := enqueue_obj (s := s) p x (s.failedRequest reason x)
    simp only [pushFailedQueuedTasks]
    split
    · rename_i s' hs; rw [hs] at he; rw [ih s']; exact he
    · rename_i s' hs; rw [hs] at he; exact he

theorem setCoro_other (c : Coro) {u : Nat} (h : u ≠ t) : (s.setCoro t c).obj u = s.obj u :=
  modTask_other h

theorem setCleanup_other (c : Cleanup) {u : Nat} (h : u ≠ t) :
    (s.setCleanup t c).obj u = s.obj u := modTask_other h

theorem cancel_other {u : Nat} (h : u ≠ t) : (s.cancel t).obj u = s.obj u := by
  unfold cancel
  split
  · exact setCoro_other _ h
  · exact setCoro_other _ h
  · exact setCoro_other _ h
  · rfl

/-! ## Cancelling -/

/-- A `cancel()` keeps the invariant; for the strict one, when the task is not past its
handler. -/
theorem cancel_good (h : Inv strict s) (ht : t < s.nextTask)
    (hg : strict t → (s.obj t).task.pastHandler = false) : Good strict s (s.cancel t) := by
  refine h.good_task (.cancel t) (fun u hu => cancel_other hu) ht ?_
  have hok := h.tasks t ht
  unfold cancel
  unfold TaskOk at hok
  split
  · rename_i b hc; rw [hc] at hok; simpa [TaskOk, setCoro] using hok
  · rename_i inTry r hc
    rw [hc] at hok hg
    simp only [TaskOk, setCoro, modTask_self]
    refine ⟨hok, fun hs => ?_⟩
    have := hg hs
    cases inTry with
    | true => rfl
    | false => cases this
  · rename_i exc hc
    rw [hc] at hok hg
    simp only [TaskOk, setCoro, modTask_self]
    exact ⟨hok, fun hs => by cases hg hs⟩
  · exact h.tasks t ht

theorem setCancelReason_good (h : Inv strict s) (ht : t < s.nextTask) (r : PyStr) :
    Good strict s (s.setCancelReason t r) := by
  refine h.good_task (.setCancelReason t r) (fun u hu => modTask_other hu) ht ?_
  have hok := h.tasks t ht
  simpa [TaskOk, setCancelReason] using hok

theorem kill_good (h : Inv strict s) (ht : t < s.nextTask) (r : PyStr)
    (hg : strict t → (s.obj t).task.pastHandler = false) :
    Good strict s ((s.setCancelReason t r).cancel t) := by
  have h₁ := setCancelReason_good h ht r
  refine .of_serves h₁.2 (cancel_good h₁.1 ht ?_)
  simpa [setCancelReason] using hg

/-! ## Accepting -/

theorem startIdle_good {d : RunData} (h : Inv strict s) (hi : s.idle d.jobId = true) :
    Good strict s (s.startIdle d) := by
  refine ⟨⟨startIdle_books h.books hi, ?_, ?_⟩, startIdle_serves h.books hi⟩
  · intro t ht
    rw [startIdle_eq] at ht ⊢
    by_cases hn : t = s.nextTask
    · subst hn
      have hf : s.nextTask ∉ s.finished := fun hf => Nat.lt_irrefl _ (h.books.finishedLt _ hf)
      simp [TaskOk, hf]
    · have hlt : t < s.nextTask := lt_of_le_of_ne (Nat.le_of_lt_succ ht) hn
      simpa [hn] using h.tasks t hlt
  · intro t ht
    rw [startIdle_eq] at ht ⊢
    have hlt : s.nextTask + 1 ≤ t := ht
    have hn : t ≠ s.nextTask := by omega
    simpa [hn] using h.fresh t (by omega)

theorem Joins.inv {d : RunData} (hj : Joins s d s') (h : Inv strict s)
    (ht : s.tasks d.jobId = some t) (hl : d.logId ∉ s.jobLogIds d.jobId) : Inv strict s' := by
  refine ⟨hj.books h.books ht hl, ?_, ?_⟩
  · rw [hj.nextTask, hj.obj, hj.finished]; exact h.tasks
  · rw [hj.nextTask, hj.obj]; exact h.fresh

theorem enqueueSerial_good {d : RunData} (h : Inv strict s) (ht : s.tasks d.jobId = some t)
    (hl : d.logId ∉ s.jobLogIds d.jobId) : Good strict s (s.enqueueSerial d) :=
  ⟨(enqueueSerial_joins s d).inv h ht hl, (enqueueSerial_joins s d).serves⟩

theorem takePending_inv (h : Inv strict s) (j : JobId) : Inv strict (s.takePending j).1 := by
  refine ⟨takePending_books h.books j, ?_, ?_⟩
  · rw [takePending_fst]; exact h.tasks
  · rw [takePending_fst]; exact h.fresh

theorem coverEarly_good {d : RunData} (h : Inv strict s) (ht : s.tasks d.jobId = some t)
    (hl : d.logId ∉ s.jobLogIds d.jobId) (hg : strict t → (s.obj t).task.pastHandler = false) :
    Good strict s (s.coverEarly d).1 := by
  have h₁ := takePending_inv h d.jobId
  have hj := fillCover_joins (takePending_pending s d.jobId)
  have ht₁ : (s.takePending d.jobId).1.tasks d.jobId = some t := by rw [takePending_fst]; exact ht
  have h₂ : Inv strict ((s.takePending d.jobId).1.fillCover d) := by
    refine hj.inv h₁ ht₁ ?_
    rw [takePending_fst]; simp [hl]
  have hobj : ((s.takePending d.jobId).1.fillCover d).obj t = s.obj t := by
    rw [hj.obj, takePending_fst]
  rw [coverEarly_fst ht]
  refine .of_serves ((takePending_serves s d.jobId).trans hj.serves) (kill_good h₂ ?_ _ ?_)
  · exact h₂.books.tasks_lt (by rw [hj.tasks]; exact ht₁)
  · rw [hobj]; exact hg

theorem killCurrent_good (h : Inv strict s) (j : JobId) (r : PyStr)
    (hg : ∀ t, s.tasks j = some t → strict t → (s.obj t).task.pastHandler = false) :
    Good strict s (s.killCurrent j r) := by
  unfold killCurrent
  split
  · rename_i t ht
    exact kill_good h (h.books.tasks_lt ht) r (hg t ht)
  · exact h.good_refl

theorem cancelLocked_good (h : Inv strict s) (j : JobId) (includeQueue : Bool) (r : PyStr)
    (hg : ∀ t, s.tasks j = some t → strict t → (s.obj t).task.pastHandler = false) :
    Good strict s (s.cancelLocked j includeQueue r).1 := by
  cases includeQueue with
  | false => exact killCurrent_good h j r hg
  | true =>
    refine .of_serves (takePending_serves s j) (killCurrent_good (takePending_inv h j) j r ?_)
    rw [takePending_fst]
    exact hg

/-! ## Finishing -/

/-- `_finish` for `t`, when every other task is in order before and `t` is in order after. -/
theorem Finishes.inv (hf : Finishes s t s') (h : InvBut strict s t)
    (ht : s.tasks (s.obj t).data.jobId = some t) (hs : SameBooks s' s'')
    (ho : ∀ u, u ≠ t → s''.obj u = s'.obj u) (hok : TaskOk (strict t) (s''.obj t) True) :
    Inv strict s'' := by
  have hlt := h.lt
  have hin : ∀ u, u ∈ s''.finished ↔ u ∈ s.finished ∨ u = t := by
    intro u; rw [hs.finished, hf.finished]; simp
  refine ⟨(hf.books h.books ht).congr hs, ?_, ?_⟩
  · intro u hu
    rw [hs.nextTask] at hu
    by_cases he : u = t
    · subst he
      have : (u ∈ s''.finished) = True := by simp [hin]
      rw [this]
      exact hok
    · rw [ho u he]
      by_cases hlt' : u < s.nextTask
      · have : (u ∈ s''.finished) = (u ∈ s.finished) := by simp [hin, he]
        rw [this, hf.obj_of_lt hlt']
        exact h.tasks u hlt' he
      · rcases hf.next with ⟨-, -, -, -, hn⟩ | ⟨x, -, -, hobj, hn⟩
        · omega
        · have hu' : u = s.nextTask := by omega
          have hnf : ¬u ∈ s''.finished := by
            rw [hin]
            rintro (hfin | rfl)
            · have := h.books.finishedLt u hfin; omega
            · exact he rfl
          rw [hobj, hu', Function.update_self, ← hu']
          simp [TaskOk, hnf]
  · intro u hu
    rw [hs.nextTask] at hu
    have hle := hf.nextTask_le
    rw [ho u (by omega)]
    rcases hf.next with ⟨-, -, -, hobj, hn⟩ | ⟨x, -, -, hobj, hn⟩
    · rw [hobj]; exact h.fresh u (by omega)
    · rw [hobj, Function.update_of_ne (by omega)]; exact h.fresh u (by omega)

end Executor
end Pyxxl
