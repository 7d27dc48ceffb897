import Pyxxl.Executor.Codes
import Pyxxl.Executor.Moves
import Pyxxl.Executor.Once

/-!
# Pyxxl.Executor.Cover

A `COVER_EARLY` trigger that finds its job busy: what was accepted before it and has not started
never starts, and it is the next to start unless it is itself replaced, drained or cancelled.

* `Out s y`: `y` has not started and has no way left to start; no event changes this.
* `Leads s₁ s x`: since `s₁` no trigger of the job of `x` has started ahead of `x`.
* `cover_latest`: the two over whole runs, and the callbacks of what is dropped.
-/

namespace Pyxxl
namespace Executor

open Transition

variable {strict : Nat → Prop} {s s' : Executor} {e : Event} {t : Nat} {j : JobId} {x y : Trigger}

/-- The callback manager is not closed in the event. -/
def KeepsOpen (_ : Executor) (e : Event) : Prop := e ≠ .stopCalled true

/-! ## Out for good -/

structure Out (s : Executor) (y : Trigger) : Prop where
  accepted : y ∈ s.accepted
  unstarted : y ∉ s.started
  pending : y ∉ s.pending y.jobId
  task : ∀ t, t < s.nextTask → (s.obj t).data = y → (s.obj t).task ≠ .scheduled false

theorem Out.step (hi : Inv strict s) (hi' : Inv strict s') (hs : step s e = some s')
    (h : Out s y) : Out s' y where
  accepted := step_accepted hi hs h.accepted
  unstarted hm := by
    rcases step_started hi hs with hst | ⟨t, aux, he, ht, hst⟩
    · rw [hst] at hm; exact h.unstarted hm
    · rw [hst, List.mem_append, List.mem_singleton] at hm
      rcases hm with hm | hm
      · exact h.unstarted hm
      · exact h.task t (task_lt hi hs (by rw [he]; rfl)) hm.symm ht
  pending := not_pending_step hi hi' hs h.accepted h.pending
  task t ht hd hc := by
    by_cases hlt : t < s.nextTask
    · rw [(step_keeps hi hs hlt).1] at hd
      exact h.task t hlt hd (step_unbegun hi hi' hs hlt hc)
    · have hcur := hi'.scheduled_current ht hc
      rcases step_created hi hi' hs hcur (by omega) with hm | ⟨n, d, -, -, hm⟩
      · rw [hd] at hm; exact h.pending hm
      · rw [hd] at hm; exact newTrigger_fresh hi.books d (hm ▸ h.accepted)

/-! ## Next to start -/

/-- The event may take `x` from the books before it has started. -/
def Event.drops (s : Executor) (x : Trigger) (e : Event) : Prop :=
  (∃ n d, e.checks s = some (n, d) ∧ d.jobId = x.jobId ∧ s.covers d) ∨
    e.kills s = some (x.jobId, true) ∨
    ∃ t, e.target s = some t ∧ (s.obj t).data = x

def Spares (x : Trigger) (s : Executor) (e : Event) : Prop := x ∉ s.started → ¬e.drops s x

/-- `x` is the replacement, and no task of its job is about to start. -/
def Waits (s : Executor) (x : Trigger) : Prop :=
  s.coverReplacements x.jobId = some x ∧
    ∀ t, s.tasks x.jobId = some t → (s.obj t).task ≠ .scheduled false

/-- The task of `x` is about to start. -/
def Ready (s : Executor) (x : Trigger) : Prop :=
  ∃ t, s.tasks x.jobId = some t ∧ (s.obj t).data = x ∧ (s.obj t).task = .scheduled false

def startedOf (s : Executor) (j : JobId) : List Trigger := s.started.filter fun y => y.jobId = j

/-- `x` is the first trigger of its job to start after `s₁`, or will be. -/
def Leads (s₁ s : Executor) (x : Trigger) : Prop :=
  s.startedOf x.jobId = s₁.startedOf x.jobId ∧ (Waits s x ∨ Ready s x) ∨
    ∃ rest, s.startedOf x.jobId = s₁.startedOf x.jobId ++ x :: rest

/-- The slot is left unstarted for a task only, if not for a later `COVER_EARLY` or a
`cancel_job`. -/
theorem slot_step (hi : Inv strict s) (hi' : Inv strict s') (hs : step s e = some s')
    (hx : s.coverReplacements j = some x) :
    s'.coverReplacements j = some x ∧ s'.tasks j = s.tasks j ∨
      (∃ n d, e.checks s = some (n, d) ∧ d.jobId = j ∧ s.covers d ∧
        s'.coverReplacements j = some (newTrigger s d)) ∨
      e.kills s = some (j, true) ∨
      ∃ t u, s.tasks j = some t ∧ e.task = some t ∧ s'.tasks j = some u ∧ s'.obj u = newTask x := by
  have hpend : s.pending j = x :: s.queue j := by simp [pending, hx]
  cases step_slot hi hi' hs j with
  | same ht h => exact .inl ⟨h.trans hx, ht⟩
  | run n d hc hj hidle => simp [idle, hx] at hidle
  | cover n d hc hd hj ht h => exact .inr (.inl ⟨n, d, hc, hj, hd, h⟩)
  | drop hk => exact .inr (.inr (.inl hk))
  | finish t ht he hl hn =>
    rw [hpend] at hl
    cases hu : s'.tasks j with
    | none =>
      have hp := (hi'.books.job j).lone hu
      simp [line, current, hu, hp] at hl
    | some u =>
      rw [line_cons hu] at hl
      refine .inr (.inr (.inr ⟨t, u, ht, he, rfl, ?_⟩))
      rcases step_new hi hs (hn u hu) with ho | ⟨y, ho⟩
      · have hok := hi'.tasks u (hi'.books.tasks_lt hu)
        rw [ho] at hok
        simp [TaskOk, noTask] at hok
      · rw [ho] at hl
        rw [ho, show y = x from (List.cons.inj hl).1]

theorem startedOf_step (hi : Inv strict s) (hs : step s e = some s') (j : JobId) :
    s'.startedOf j = s.startedOf j ∨ ∃ t aux, e = .start t aux ∧ s.tasks j = some t ∧
      (s.obj t).task = .scheduled false ∧ s'.startedOf j = s.startedOf j ++ [(s.obj t).data] := by
  rcases step_started hi hs with h | ⟨t, aux, he, ht, h⟩
  · exact .inl (by rw [startedOf, startedOf, h])
  · have hcur := hi.scheduled_current (task_lt hi hs (by rw [he]; rfl)) ht
    by_cases hj : (s.obj t).data.jobId = j
    · exact .inr ⟨t, aux, he, hj ▸ hcur, ht, by simp [startedOf, h, hj]⟩
    · exact .inl (by simp [startedOf, h, hj])

theorem Waits.step (hi : Inv strict s) (hi' : Inv strict s') (hs : step s e = some s')
    (h : Waits s x) (hd : ¬e.drops s x) :
    s'.startedOf x.jobId = s.startedOf x.jobId ∧ (Waits s' x ∨ Ready s' x) := by
  refine ⟨?_, ?_⟩
  · rcases startedOf_step hi hs x.jobId with hst | ⟨t, aux, -, ht, hc, -⟩
    · exact hst
    · exact absurd hc (h.2 t ht)
  · rcases slot_step hi hi' hs h.1 with ⟨hx, ht⟩ | ⟨n, d, hc, hj, hcov, -⟩ | hk | ⟨t, u, -, -, hu, ho⟩
    · refine .inl ⟨hx, fun t ht' hc => ?_⟩
      rw [ht] at ht'
      exact h.2 t ht' (step_unbegun hi hi' hs (hi.books.tasks_lt ht') hc)
    · exact absurd (.inl ⟨n, d, hc, hj, hcov⟩) hd
    · exact absurd (.inr (.inl hk)) hd
    · exact .inr ⟨u, hu, by rw [ho]; rfl, by rw [ho]; rfl⟩

/-- A task about to start does so, or stays, or is cancelled. -/
theorem ready_step (hi : Inv strict s) (hs : step s e = some s') (ht : t < s.nextTask)
    (hc : (s.obj t).task = .scheduled false) :
    s'.obj t = s.obj t ∨ (∃ aux, e = .start t aux ∧ (s'.obj t).started = true) ∨
      e.target s = some t ∧ (s'.obj t).task = .scheduled true := by
  by_cases he : e.task = some t
  · rcases step_begins hi hs he hc with ⟨aux, he, -, hst⟩ | ⟨-, hb⟩
    · exact .inr (.inl ⟨aux, he, hst⟩)
    · cases hb
  · rcases step_obj hi.books hs ht he with ho | ⟨htar, reason, ho⟩
    · exact .inl ho
    · exact .inr (.inr ⟨htar, by simp [ho, killed, hc, Coro.cancelled]⟩)

theorem Ready.step (hi : Inv strict s) (hi' : Inv strict s') (hs : step s e = some s')
    (h : Ready s x) (hx : x ∉ s.started) (hd : ¬e.drops s x) :
    s'.startedOf x.jobId = s.startedOf x.jobId ∧ Ready s' x ∨
      s'.startedOf x.jobId = s.startedOf x.jobId ++ [x] := by
  obtain ⟨t, ht, hdata, hc⟩ := h
  have hlt := hi.books.tasks_lt ht
  rcases startedOf_step hi hs x.jobId with hst | ⟨u, aux, -, hu, -, hst⟩
  · refine .inl ⟨hst, ?_⟩
    -- the job keeps its current task: it is not idle, nothing drops `x`, and `t` does not end
    have hbegun : ∀ aux, e = .start t aux → (s'.obj t).started = true → False := by
      intro aux he hb
      have hlt' : t < s'.nextTask :=
        Nat.lt_of_lt_of_le hlt (step_frame hs (by rw [he]; rfl)).mono
      have hm := hi'.books.startedKnown t hlt' hb
      rw [(step_keeps hi hs hlt).1, hdata] at hm
      have hm' : x ∈ s'.startedOf x.jobId := List.mem_filter.mpr ⟨hm, by simp⟩
      rw [hst] at hm'
      exact hx (List.mem_filter.mp hm').1
    have hobj : s'.obj t = s.obj t := by
      rcases ready_step hi hs hlt hc with ho | ⟨aux, he, hb⟩ | ⟨htar, -⟩
      · exact ho
      · exact (hbegun aux he hb).elim
      · exact absurd (.inr (.inr ⟨t, htar, hdata⟩)) hd
    refine ⟨t, ?_, by rw [hobj]; exact hdata, by rw [hobj]; exact hc⟩
    cases step_slot hi hi' hs x.jobId with
    | same htasks => rw [htasks]; exact ht
    | run n d _ _ hidle => simp [idle, ht] at hidle
    | cover n d hck hcov hj => exact absurd (.inl ⟨n, d, hck, hj, hcov⟩) hd
    | drop hk => exact absurd (.inr (.inl hk)) hd
    | finish u hu he =>
      rw [ht] at hu
      cases hu
      rcases step_begins hi hs he hc with ⟨aux, hea, -, hb⟩ | ⟨-, hb⟩
      · exact (hbegun aux hea hb).elim
      · cases hb
  · rw [ht] at hu
    cases hu
    exact .inr (by rw [hst, hdata])

theorem Leads.step {s₁ : Executor} (hi : Inv strict s) (hi' : Inv strict s')
    (hs : step s e = some s') (hn : x ∉ s₁.started) (h : Leads s₁ s x) (hd : Spares x s e) :
    Leads s₁ s' x := by
  rcases h with ⟨hst, h⟩ | ⟨rest, hst⟩
  · have hx : x ∉ s.started := by
      intro hm
      have hm' : x ∈ s.startedOf x.jobId := List.mem_filter.mpr ⟨hm, by simp⟩
      rw [hst] at hm'
      exact hn (List.mem_filter.mp hm').1
    rcases h with h | h
    · obtain ⟨hst', h'⟩ := h.step hi hi' hs (hd hx)
      exact .inl ⟨hst'.trans hst, h'⟩
    · rcases h.step hi hi' hs hx (hd hx) with ⟨hst', h'⟩ | hst'
      · exact .inl ⟨hst'.trans hst, .inr h'⟩
      · exact .inr ⟨[], by rw [hst', hst]⟩
  · rcases startedOf_step hi hs x.jobId with hst' | ⟨u, aux, -, -, -, hst'⟩
    · exact .inr ⟨rest, by rw [hst', hst]⟩
    · exact .inr ⟨rest ++ [(s.obj u).data], by rw [hst', hst]; simp⟩

/-! ## The call itself -/

/-- What `_handle_cover_early` does to the job. -/
structure Covered (s : Executor) (d : RunData) (s' : Executor) : Prop where
  tasks : s'.tasks = s.tasks
  pending : s'.pending d.jobId = [newTrigger s d]
  cover : s'.coverReplacements d.jobId = some (newTrigger s d)
  started : s'.started = s.started
  accepted : s'.accepted = s.accepted ++ [newTrigger s d]
  nextTask : s'.nextTask = s.nextTask
  current : ∀ t, s.tasks d.jobId = some t → (s'.obj t).task ≠ .scheduled false

theorem runJobLocked_covered {s₁ : Executor} (hb : Books s) (h₁ : SameBooks s s₁) (n : Nat)
    {d : RunData} (hd : s.covers d) (hi : s.idle d.jobId = false) :
    Covered s d (s₁.runJobLocked n d) := by
  have hl : d.logId ∉ s₁.jobLogIds d.jobId := by rw [h₁.logIds]; exact hd.1
  rw [← idle_same h₁] at hi
  obtain ⟨t, ht⟩ := (hb.congr h₁).busy hi
  have hne : ExecutorBlockStrategy.coverEarly.value ≠ ExecutorBlockStrategy.discardLater.value := by
    decide
  have hrun : s₁.runJobLocked n d = s₁.handleCoverEarly n d := by
    rw [runJobLocked, if_neg hl, hi, if_neg (by simp), hd.2, if_neg hne, if_pos rfl]
  have hsame : SameBooks (s₁.coverEarly d).1 (s₁.runJobLocked n d) := by
    rw [hrun]; exact coverPush_same ..
  have hobj : (s₁.runJobLocked n d).obj = (s₁.coverEarly d).1.obj := by
    rw [hrun]; exact coverPush_obj ..
  have hcov := (coverEarly_sameBooks ht).trans hsame
  have hfill := fillCover_joins (takePending_pending s₁ d.jobId)
  have hnew : newTrigger (s₁.takePending d.jobId).1 d = newTrigger s d := by
    rw [← newTrigger_same h₁]
    simp only [newTrigger, takePending_fst]
  refine ⟨?_, ?_, ?_, ?_, ?_, ?_, fun u hu => ?_⟩
  · rw [hcov.tasks, hfill.tasks, takePending_fst]; exact h₁.tasks
  · rw [hcov.pending, hfill.pending, takePending_pending, hnew]; rfl
  · rw [hcov.cover, ← hnew]; simp [fillCover]
  · rw [hcov.started, hfill.started, takePending_fst]; exact h₁.started
  · rw [hcov.accepted, hfill.accepted, hnew, takePending_fst]
    exact congrArg (· ++ [newTrigger s d]) h₁.accepted
  · rw [hcov.nextTask, hfill.nextTask, takePending_fst]; exact h₁.nextTask
  · rw [← h₁.tasks, ht] at hu
    cases hu
    rw [hobj, coverEarly_fst ht, kill_obj]
    simp only [killed, Function.update_self]
    intro hc
    cases hk : ((s₁.takePending d.jobId).1.fillCover d).obj t |>.task <;>
      simp [hk, Coro.cancelled] at hc

theorem covered {n : Nat} {d : RunData} (hb : Books s) (hc : e.checks s = some (n, d))
    (hd : s.covers d) (hi : s.idle d.jobId = false) (hs : step s e = some s') : Covered s d s' := by
  cases e with
  | runJob d' =>
    simp only [Event.checks] at hc
    split at hc
    · rename_i hcond
      cases hc
      cases hs
      simp only [runJob, hcond.1, hcond.2, if_true]
      exact runJobLocked_covered hb (SameBooks.openCall.trans (.lockJob _ _)) _ hd hi
    · cases hc
  | resumeCall m =>
    simp only [Event.checks] at hc
    split at hc
    · rename_i d' hcall
      cases hc
      simp only [step, resumeCall, hcall] at hs
      split at hs
      · split at hs
        · cases hs; exact runJobLocked_covered hb .refl _ hd hi
        · cases hs
      · cases hs
    · cases hc
  | _ => cases hc

namespace Covered

variable {d : RunData}

theorem out (h : Covered s d s') (hb : Books s) (hi' : Inv strict s') (ha : y ∈ s.accepted)
    (hj : y.jobId = d.jobId) (hn : y ∉ s.started) : Out s' y where
  accepted := by rw [h.accepted]; exact List.mem_append_left _ ha
  unstarted := by rw [h.started]; exact hn
  pending := by
    rw [hj, h.pending, List.mem_singleton]
    exact fun he => newTrigger_fresh hb d (he ▸ ha)
  task t ht hd hc := by
    have hcur := hi'.scheduled_current ht hc
    rw [hd, hj, h.tasks] at hcur
    exact h.current t hcur hc

theorem leads (h : Covered s d s') : Leads s' s' (newTrigger s d) :=
  .inl ⟨rfl, .inl ⟨h.cover, fun t ht => h.current t (by rw [← h.tasks]; exact ht)⟩⟩

end Covered

/-! ## The callbacks of what never starts -/

/-- No event touches the balance of a trigger that has not started. -/
theorem even_unstarted (hi : Inv strict s) (hi' : Inv strict s') (hs : step s e = some s')
    (hx : x ∉ s'.started) : Even s s' x := by
  have hx₀ : x ∉ s.started := fun hm => hx (started_subset hi hs hm)
  refine step_even hi hs fun t ht hd => ?_
  have hlt := task_lt hi hs ht
  have hok := hi.tasks t hlt
  -- the task of `x` has not begun, so the event neither ends its handler nor resumes it
  have hub : (s.obj t).started = false := by
    by_contra hb
    exact hx₀ (hd ▸ hi.books.startedKnown t hlt (by simpa using hb))
  cases e with
  | start u aux =>
    cases ht
    have hlt' : t < s'.nextTask := Nat.lt_of_lt_of_le hlt (step_frame hs rfl).mono
    have hk := (step_keeps hi hs hlt).1
    have hb : (s'.obj t).started = true := by
      simp only [Executor.step] at hs
      split at hs
      · cases hs; exact startRun_begun hlt aux
      · cases hs
    exact absurd (by rw [← hd, ← hk]; exact hi'.books.startedKnown t hlt' hb) hx
  | handlerEnds u res aux =>
    cases ht
    simp only [Executor.step] at hs
    split at hs
    · rename_i hc
      simp only [TaskOk, hc, hub] at hok
      exact absurd hok.1 (by simp)
    · cases hs
  | resumeTask u aux =>
    cases ht
    refine absurd ?_ (show (s.obj t).started ≠ true by simp [hub])
    simp only [Executor.step, Executor.resumeTask] at hs
    unfold TaskOk at hok
    split at hs
    · rename_i hc; rw [hc] at hok; exact hok.1
    · rename_i hc; rw [hc] at hok; exact hok.1.1
    · rename_i hc; rw [hc] at hok; exact hok.1
    · rename_i hc; rw [hc] at hok; exact hok.1.1
    · cases hs
  | _ => exact trivial

/-- Every trigger that has not started is in exactly one place. -/
def Balanced (s : Executor) : Prop := ∀ x, x ∉ s.started → s.held x = s.accepted.count x

theorem Balanced.step (h : Balanced s) (hi : Inv strict s) (hi' : Inv strict s')
    (hs : step s e = some s') : Balanced s' := by
  intro x hx
  have hx₀ : x ∉ s.started := fun hm => hx (started_subset hi hs hm)
  have heven := even_unstarted hi hi' hs hx
  have := h x hx₀
  unfold Even at heven
  omega

structure OpenInv (s : Executor) : Prop where
  inv : Inv (fun _ => False) s
  codes : Codes s
  balance : Balanced s

theorem OpenInv.step (h : OpenInv s) (he : KeepsOpen s e) (hs : step s e = some s') :
    OpenInv s' where
  inv := (step_good h.inv (fun _ hf => hf.elim) hs).1
  codes := h.codes.step h.inv he hs
  balance := h.balance.step h.inv (step_good h.inv (fun _ hf => hf.elim) hs).1 hs

theorem open_inv {ok : Executor → Event → Prop} (hok : ∀ s e, ok s e → KeepsOpen s e)
    (h : Reachable ok s) : OpenInv s := by
  obtain ⟨handler, m, hr⟩ := h
  exact hr.invariant (P := OpenInv) (fun _ _ _ hi he hs => hi.step (hok _ _ he) hs)
    ⟨inv_init handler m, codes_init handler m, fun _ _ => rfl⟩

/-- A trigger that has not started gets no callback but failures, and has one once it is neither
in the books nor in the hands of a call. -/
theorem OpenInv.failed (h : OpenInv s) (ha : x ∈ s.accepted) (hx : x ∉ s.started) :
    (∀ r, (x, r) ∈ s.callbacks → r.code = 500) ∧
      (x ∉ s.line x.jobId → s.drained x = 0 → s.callbackCount x = 1) := by
  refine ⟨fun r hr => (h.codes.sent _ hr).resolve_right hx, fun hl hd => ?_⟩
  have hone := List.count_eq_one_of_mem (accepted_nodup h.inv.books) ha
  have hbal := h.balance x hx
  have hheld := h.inv.held_line hl
  simp only [reported, h.codes.undropped, List.map_nil, List.count_nil, hd] at hheld
  simp only [callbackCount]
  omega

/-! ## Only the latest -/

/-- A `COVER_EARLY` `run_job` finds its job busy, and the run goes on in any way that does not
close the callback manager. What was accepted for the job before and had not started never starts.
The new trigger `x` is the replacement; it leaves the slot for a task of its own, for a later
`COVER_EARLY` or in a `cancel_job(include_queue=True)`, and its task starts unless it is cancelled
before. Until then it is the next trigger of the job to start. Nothing accepted before `x` is the
replacement any more. What never starts gets exactly one callback, of code 500. -/
theorem cover_latest {s₀ s₁ s : Executor} {e : Event} {n : Nat} {d : RunData}
    (h₀ : Reachable KeepsOpen s₀) (hc : e.checks s₀ = some (n, d)) (hd : s₀.covers d)
    (hb : s₀.idle d.jobId = false) (hs : step s₀ e = some s₁)
    (h : Steps step KeepsOpen s₁ s) :
    (∀ y ∈ s₀.accepted, y.jobId = d.jobId → y ∉ s₀.started → y ∉ s.started) ∧
    s₁.coverReplacements d.jobId = some (newTrigger s₀ d) ∧
    (∀ e' s', step s e' = some s' → s.coverReplacements d.jobId = some (newTrigger s₀ d) →
      s'.coverReplacements d.jobId = some (newTrigger s₀ d) ∨
      (∃ n' d', e'.checks s = some (n', d') ∧ d'.jobId = d.jobId ∧ s.covers d' ∧
        s'.coverReplacements d.jobId = some (newTrigger s d')) ∨
      e'.kills s = some (d.jobId, true) ∨
      ∃ u, s'.tasks d.jobId = some u ∧ s'.obj u = newTask (newTrigger s₀ d)) ∧
    (∀ t e' s', step s e' = some s' → (s.obj t).data = newTrigger s₀ d →
      (s.obj t).task = .scheduled false →
        (s'.obj t).task = .scheduled false ∨
        (∃ aux, e' = .start t aux ∧ newTrigger s₀ d ∈ s'.started) ∨
        e'.target s = some t ∧ (s'.obj t).task = .scheduled true) ∧
    (Steps step (Spares (newTrigger s₀ d)) s₁ s → Leads s₁ s (newTrigger s₀ d)) ∧
    (∀ y, s.coverReplacements d.jobId = some y → y = newTrigger s₀ d ∨ y ∉ s₁.accepted) ∧
    (∀ y ∈ s.accepted, y ∉ s.started → (∀ r, (y, r) ∈ s.callbacks → r.code = 500) ∧
      (y ∉ s.line y.jobId → s.drained y = 0 → s.callbackCount y = 1)) := by
  have hopen : KeepsOpen s₀ e := by
    intro he; rw [he] at hc; cases hc
  have hi₀ := (open_inv (fun _ _ h => h) h₀).inv
  have hi₁ : Inv (fun _ => False) s₁ := (step_good hi₀ (fun _ hf => hf.elim) hs).1
  have hcov := covered hi₀.books hc hd hb hs
  have hinv : OpenInv s := by
    obtain ⟨handler, m, hr⟩ := h₀
    exact open_inv (fun _ _ h => h) ⟨handler, m, (hr.tail hopen hs).trans h⟩
  have hrun : ∀ {P : Executor → Prop}, (∀ s e s', Inv (fun _ => False) s →
      Inv (fun _ => False) s' → step s e = some s' → P s → P s') → P s₁ → P s := by
    intro P hstep h1
    exact (h.invariant (P := fun s => Inv (fun _ => False) s ∧ P s)
      (fun s e s' hp _ hs => by
        have hi' := (step_good hp.1 (fun _ hf => hf.elim) hs).1
        exact ⟨hi', hstep s e s' hp.1 hi' hs hp.2⟩) ⟨hi₁, h1⟩).2
  refine ⟨fun y hy hj hn => ?_, hcov.cover, fun e' s' hs' hx => ?_, fun t e' s' hs' hx hc' => ?_,
    fun hsp => ?_, fun y hy => ?_, fun y hy hn => hinv.failed hy hn⟩
  · exact (hrun (P := fun s => Out s y) (fun _ _ _ hi hi' hs h => h.step hi hi' hs)
      (hcov.out hi₀.books hi₁ hy hj hn)).unstarted
  · have hi' := (step_good hinv.inv (fun _ hf => hf.elim) hs').1
    rcases slot_step hinv.inv hi' hs' hx with ⟨hx', -⟩ | hlater | hk | ⟨t, u, -, -, hu, ho⟩
    · exact .inl hx'
    · exact .inr (.inl hlater)
    · exact .inr (.inr (.inl hk))
    · exact .inr (.inr (.inr ⟨u, hu, ho⟩))
  · have hi' := (step_good hinv.inv (fun _ hf => hf.elim) hs').1
    have ht : t < s.nextTask := hinv.inv.lt_of_obj fun ho => by rw [ho] at hc'; cases hc'
    have hlt' : t < s'.nextTask := Nat.lt_of_lt_of_le ht (step_nextTask hinv.inv.books hs')
    rcases ready_step hinv.inv hs' ht hc' with ho | ⟨aux, he, hb'⟩ | hk
    · exact .inl (by rw [ho]; exact hc')
    · have hm := hi'.books.startedKnown t hlt' hb'
      rw [(step_keeps hinv.inv hs' ht).1, hx] at hm
      exact .inr (.inl ⟨aux, he, hm⟩)
    · exact .inr (.inr hk)
  · have hn : newTrigger s₀ d ∉ s₁.started := by
      rw [hcov.started]
      intro hm
      have hm' := (started_sublist h₀ d.jobId).subset
        (List.mem_filter.mpr ⟨hm, decide_eq_true (rfl : (newTrigger s₀ d).jobId = d.jobId)⟩)
      exact newTrigger_fresh hi₀.books d (List.mem_filter.mp hm').1
    exact (hsp.invariant (P := fun s => Inv (fun _ => False) s ∧ Leads s₁ s (newTrigger s₀ d))
      (fun s e s' hp hsp hs => by
        have hi' := (step_good hp.1 (fun _ hf => hf.elim) hs).1
        exact ⟨hi', hp.2.step hp.1 hi' hs hn hsp⟩) ⟨hi₁, hcov.leads⟩).2
  · by_cases hold : y ∈ s₁.accepted
    · refine .inl ?_
      by_contra hne
      have hp : y ∉ s₁.pending d.jobId := by
        rw [hcov.pending, List.mem_singleton]; exact hne
      have hgone := hrun (P := fun s => y ∈ s.accepted ∧ y ∉ s.pending d.jobId)
        (fun _ _ _ hi hi' hs h => ⟨step_accepted hi hs h.1, not_pending_step hi hi' hs h.1 h.2⟩)
        ⟨hold, hp⟩
      exact hgone.2 (by simp [pending, hy])
    · exact .inr hold

/-- The trigger that was queued before the replacement has not started, and has failed once. -/
theorem cover_latest_mixed :
    ⟨1, serialJob 2⟩ ∉ mixedState.started ∧ mixedState.callbackCount ⟨1, serialJob 2⟩ = 1 := by
  have hok : ∀ e ∈ mixed, ∀ s, KeepsOpen s e := by
    intro e he s hc
    subst hc
    simp [mixed] at he
  have h₀ : Reachable KeepsOpen ((after (mixed.take 3)).get rfl) :=
    reachable_after _ (.of_forall (fun e he => hok e (List.mem_of_mem_take he)) _) rfl
  have h : Steps step KeepsOpen ((after (mixed.take 4)).get rfl) mixedState :=
    .of_run (fun e he => hok e (List.mem_of_mem_drop he))
      (show run step _ (mixed.drop 4) = _ from rfl)
  have hall := cover_latest (n := 2) (d := coverJob 3) (e := .runJob (coverJob 3)) h₀ rfl
    (by decide) rfl rfl h
  have hn := hall.1 ⟨1, serialJob 2⟩ (by decide) rfl (by decide)
  exact ⟨hn, (hall.2.2.2.2.2.2 ⟨1, serialJob 2⟩ (by decide) hn).2 (by decide) rfl⟩

end Executor
end Pyxxl
