import Pyxxl.Executor.Frame

/-!
# Pyxxl.Executor.Moves

How triggers move in one event: which task starts (`step_started`), what becomes pending
(`step_pending`), what happens to the replacement slot of a job (`SlotStep`, `step_slot`), and
that no task goes back to where it has not begun (`step_unbegun`).
-/

namespace Pyxxl
namespace Executor

variable {strict : Nat → Prop} {s s' : Executor} {e : Event} {t : Nat} {j : JobId} {x y : Trigger}

theorem obj_finish (ht : t < s.nextTask) (u : Nat) : (s.finish u).obj t = s.obj t := by
  rcases (Frame.finish (o := none) s u).kept t (by simp) with h | ⟨h, -⟩
  · exact h
  · omega

theorem markStarted_begun (s : Executor) (t u : Nat) (h : (s.obj u).started = true) :
    ((s.markStarted t).obj u).started = true := by
  by_cases hu : u = t
  · subst hu; simp [markStarted]
  · simpa [markStarted, hu] using h

/-- A task keeps its trigger, and one that has begun stays so. -/
theorem step_keeps (hi : Inv strict s) (hs : step s e = some s') (ht : t < s.nextTask) :
    (s'.obj t).data = (s.obj t).data ∧
      ((s.obj t).started = true → (s'.obj t).started = true) := by
  have hsame : ∀ {s₁ s₂ : Executor}, SameBooks s s₁ → SameBooks s₂ s' →
      s₂.obj t = s₁.obj t → (s'.obj t).data = (s.obj t).data ∧
        ((s.obj t).started = true → (s'.obj t).started = true) := by
    intro s₁ s₂ h₁ h₂ ho
    rw [h₂.data, h₂.begun, ho, h₁.data, h₁.begun]
    exact ⟨rfl, id⟩
  cases step_delta hs with
  | same h => exact hsame .refl h rfl
  | run n d s₁ _ _ _ h₁ h₂ =>
    refine hsame h₁ h₂ ?_
    have hne : t ≠ s₁.nextTask := by rw [h₁.nextTask]; omega
    rw [startIdle_eq]
    exact Function.update_of_ne hne _ _
  | queue n d s₁ _ _ _ h₁ h₂ => exact hsame h₁ h₂ rfl
  | cover n d s₁ hc hd hidle h₁ h₂ =>
    rw [← idle_same h₁] at hidle
    obtain ⟨u, hu⟩ := (hi.books.congr h₁).busy hidle
    refine hsame h₁ ((coverEarly_sameBooks hu).trans h₂) ?_
    rw [(fillCover_joins (takePending_pending s₁ d.jobId)).obj, takePending_obj]
  | drop k s₁ _ h₁ h₂ => exact hsame h₁ h₂ (by rw [takePending_obj])
  | start u aux he hu h =>
    rw [h.data, h.begun, markStarted_data]
    exact ⟨rfl, markStarted_begun s u t⟩
  | startFinish u aux s₁ he hu hq h₁ h₂ =>
    have hlt : t < s₁.nextTask := by rw [h₁.nextTask]; exact ht
    rw [h₂.data, h₂.begun, obj_finish hlt, h₁.data, h₁.begun, markStarted_data]
    exact ⟨rfl, markStarted_begun s u t⟩
  | finish u s₁ he hn h₁ h₂ =>
    exact hsame h₁ h₂ (obj_finish (by rw [h₁.nextTask]; exact ht) u)

theorem step_nextTask (hb : Books s) (hs : step s e = some s') : s.nextTask ≤ s'.nextTask := by
  cases he : e.task with
  | some u => exact (step_frame hs he).mono
  | none => exact (step_kills hb hs he).frame.mono

/-- Only the first step of a task starts a trigger. -/
theorem step_started (hi : Inv strict s) (hs : step s e = some s') :
    s'.started = s.started ∨ ∃ t aux, e = .start t aux ∧ (s.obj t).task = .scheduled false ∧
      s'.started = s.started ++ [(s.obj t).data] := by
  cases step_delta hs with
  | same h => exact .inl h.started
  | run n d s₁ _ _ _ h₁ h₂ => exact .inl (h₂.started.trans h₁.started)
  | queue n d s₁ _ _ _ h₁ h₂ => exact .inl (h₂.started.trans h₁.started)
  | cover n d s₁ hc hd hidle h₁ h₂ =>
    rw [← idle_same h₁] at hidle
    obtain ⟨u, hu⟩ := (hi.books.congr h₁).busy hidle
    refine .inl ?_
    rw [h₂.started, (coverEarly_sameBooks hu).started,
      (fillCover_joins (takePending_pending s₁ d.jobId)).started, takePending_fst]
    exact h₁.started
  | drop k s₁ _ h₁ h₂ =>
    refine .inl ?_
    rw [h₂.started, takePending_fst]
    exact h₁.started
  | start t aux he ht h => exact .inr ⟨t, aux, he, ht, h.started⟩
  | startFinish t aux s₁ he ht _ h₁ h₂ =>
    exact .inr ⟨t, aux, he, ht, by rw [h₂.started, (finish_history s₁ t).2.2, h₁.started]; rfl⟩
  | finish t s₁ _ _ h₁ h₂ =>
    exact .inl (by rw [h₂.started, (finish_history s₁ t).2.2, h₁.started])

theorem started_subset (hi : Inv strict s) (hs : step s e = some s') : s.started ⊆ s'.started := by
  rcases step_started hi hs with h | ⟨t, aux, -, -, h⟩
  · rw [h]; exact fun _ h => h
  · rw [h]; exact List.subset_append_left _ _

/-- What was accepted stays so. -/
theorem step_accepted (hi : Inv strict s) (hs : step s e = some s') : s.accepted ⊆ s'.accepted := by
  cases step_delta hs with
  | same h => rw [h.accepted]; exact fun _ h => h
  | run n d s₁ _ _ _ h₁ h₂ =>
    rw [h₂.accepted, startIdle_eq, h₁.accepted]; exact List.subset_append_left _ _
  | queue n d s₁ _ _ _ h₁ h₂ =>
    rw [h₂.accepted, (enqueueSerial_joins s₁ d).accepted, h₁.accepted]
    exact List.subset_append_left _ _
  | cover n d s₁ hc hd hidle h₁ h₂ =>
    rw [← idle_same h₁] at hidle
    obtain ⟨u, hu⟩ := (hi.books.congr h₁).busy hidle
    rw [h₂.accepted, (coverEarly_sameBooks hu).accepted,
      (fillCover_joins (takePending_pending s₁ d.jobId)).accepted, takePending_fst, h₁.accepted]
    exact List.subset_append_left _ _
  | drop k s₁ _ h₁ h₂ => rw [h₂.accepted, takePending_fst, h₁.accepted]; exact fun _ h => h
  | start t aux he ht h => rw [h.accepted]; exact fun _ h => h
  | startFinish t aux s₁ he ht _ h₁ h₂ =>
    rw [h₂.accepted, (finish_history s₁ t).2.1, h₁.accepted]; exact fun _ h => h
  | finish t s₁ _ _ h₁ h₂ =>
    rw [h₂.accepted, (finish_history s₁ t).2.1, h₁.accepted]; exact fun _ h => h

/-- What is pending is the line without the current task. -/
theorem Books.pending_eq (hb : Books s) (j : JobId) : s.pending j = (s.line j).tail := by
  cases ht : s.tasks j with
  | none => simp [line, current, ht, (hb.job j).lone ht]
  | some t => simp [line, current, ht]

/-- Only a trigger that is accepted in the event becomes pending. -/
theorem step_pending (hi : Inv strict s) (hi' : Inv strict s') (hs : step s e = some s')
    (hx : x ∈ s'.pending j) :
    x ∈ s.pending j ∨ ∃ n d, e.checks s = some (n, d) ∧ d.jobId = j ∧ x = newTrigger s d := by
  rw [hi'.books.pending_eq] at hx
  rw [hi.books.pending_eq]
  cases step_line hi hi' hs j with
  | same h => rw [h] at hx; exact .inl hx
  | arrive n d hc hj _ h =>
    rw [h] at hx
    cases hl : s.line j with
    | nil => simp [hl] at hx
    | cons c rest =>
      simp only [hl, List.cons_append, List.tail_cons, List.mem_append, List.mem_singleton] at hx
      exact hx.imp id fun he => ⟨n, d, hc, hj, he⟩
  | cover n d hc hj _ h =>
    rw [h] at hx
    cases ht : s.tasks j with
    | none => simp [current, ht] at hx
    | some t =>
      simp only [current, ht, List.cons_append, List.nil_append, List.tail_cons,
        List.mem_singleton] at hx
      exact .inr ⟨n, d, hc, hj, hx⟩
  | drop hk h =>
    rw [h] at hx
    cases ht : s.tasks j <;> simp [current, ht] at hx
  | finish t ht he h =>
    rw [h, hi.books.pending_eq] at hx
    exact .inl (List.mem_of_mem_tail hx)

theorem newTrigger_fresh (hb : Books s) (d : RunData) : newTrigger s d ∉ s.accepted := by
  intro h
  have hm := List.mem_map_of_mem (f := Trigger.ticket) h
  rw [hb.tickets] at hm
  simp [newTrigger] at hm

/-! ## The slot -/

inductive SlotStep (s : Executor) (e : Event) (s' : Executor) (j : JobId) : Prop where
  | same (ht : s'.tasks j = s.tasks j) (h : s'.coverReplacements j = s.coverReplacements j)
  | run (n : Nat) (d : RunData) (hc : e.checks s = some (n, d)) (hj : d.jobId = j)
      (hi : s.idle j = true) (hl : s'.line j = [newTrigger s d])
  | cover (n : Nat) (d : RunData) (hc : e.checks s = some (n, d)) (hd : s.covers d)
      (hj : d.jobId = j) (ht : s'.tasks j = s.tasks j)
      (h : s'.coverReplacements j = some (newTrigger s d))
  | drop (hk : e.kills s = some (j, true)) (ht : s'.tasks j = s.tasks j)
      (h : s'.coverReplacements j = none)
  | finish (t : Nat) (ht : s.tasks j = some t) (he : e.task = some t)
      (hl : s'.line j = s.pending j) (hn : ∀ u, s'.tasks j = some u → s.nextTask ≤ u)

theorem Away.slot {s₁ s₂ : Executor} (ha : Away s₁ s₂ j) (h₁ : SameBooks s s₁)
    (h₂ : SameBooks s₂ s') : SlotStep s e s' j :=
  .same (by rw [h₂.tasks, ha.tasks, h₁.tasks]) (by rw [h₂.cover, ha.cover, h₁.cover])

theorem Finishes.slot {s₁ : Executor} (hf : Finishes s₁ t (s₁.finish t)) (hb : Books s₁)
    (ht : s₁.tasks (s₁.obj t).data.jobId = some t) (he : e.task = some t)
    (htasks : s₁.tasks = s.tasks) (hc : s₁.coverReplacements = s.coverReplacements)
    (hp : ∀ k, s₁.pending k = s.pending k) (hn : s₁.nextTask = s.nextTask)
    (h₂ : SameBooks (s₁.finish t) s') : SlotStep s e s' j := by
  by_cases hj : j = (s₁.obj t).data.jobId
  · subst hj
    refine .finish t (by rw [← htasks]; exact ht) he (by rw [h₂.line, hf.line.1, hp]) fun u hu => ?_
    rw [h₂.tasks] at hu
    rcases hf.next with ⟨-, -, hnone, -⟩ | ⟨x, -, hsome, -⟩
    · rw [hnone] at hu; cases hu
    · rw [hsome] at hu; cases hu; exact hn.ge
  · have ha := hf.away hb hj
    exact .same (by rw [h₂.tasks, ha.tasks, htasks]) (by rw [h₂.cover, ha.cover, hc])

theorem step_slot (hi : Inv strict s) (hi' : Inv strict s') (hs : step s e = some s') (j : JobId) :
    SlotStep s e s' j := by
  cases step_delta hs with
  | same h => exact .same (by rw [h.tasks]) (by rw [h.cover])
  | run n d s₁ hc hl hidle h₁ h₂ =>
    have hb := hi.books.congr h₁
    by_cases hj : j = d.jobId
    · subst hj
      refine .run n d hc rfl hidle ?_
      rw [← idle_same h₁] at hidle
      rw [h₂.line, line, (startIdle_line hidle).1, (startIdle_line hidle).2, newTrigger_same h₁]
      rfl
    · exact (startIdle_away hb hj).slot h₁ h₂
  | queue n d s₁ hc hl hidle h₁ h₂ =>
    exact .same (by rw [h₂.tasks]; exact congrFun h₁.tasks j)
      (by rw [h₂.cover]; exact congrFun h₁.cover j)
  | cover n d s₁ hc hd hidle h₁ h₂ =>
    rw [← idle_same h₁] at hidle
    obtain ⟨t, ht⟩ := (hi.books.congr h₁).busy hidle
    have hcov := coverEarly_sameBooks ht
    have hfill := fillCover_joins (takePending_pending s₁ d.jobId)
    by_cases hj : j = d.jobId
    · subst hj
      refine .cover n d hc hd rfl ?_ ?_
      · rw [h₂.tasks, hcov.tasks, hfill.tasks, takePending_fst]
        exact congrFun h₁.tasks _
      · rw [h₂.cover, hcov.cover, ← newTrigger_same h₁]
        simp [fillCover, newTrigger, takePending_fst]
    · refine .same ?_ ?_
      · rw [h₂.tasks, hcov.tasks, hfill.tasks, (takePending_away s₁ _ hj).tasks, h₁.tasks]
      · rw [h₂.cover, hcov.cover, (hfill.away hj).cover, (takePending_away s₁ _ hj).cover,
          h₁.cover]
  | drop k s₁ hk h₁ h₂ =>
    by_cases hj : j = k
    · subst hj
      refine .drop hk ?_ ?_
      · rw [h₂.tasks, takePending_fst]
        exact congrFun h₁.tasks _
      · have hp := takePending_pending s₁ j
        simp only [pending, List.append_eq_nil_iff, Option.toList_eq_nil_iff] at hp
        rw [h₂.cover, hp.1]
    · exact (takePending_away s₁ k hj).slot h₁ h₂
  | start t aux he ht h =>
    exact .same (by rw [h.tasks]; rfl) (by rw [h.cover]; rfl)
  | startFinish t aux s₁ he ht hq h₁ h₂ =>
    obtain ⟨hb, hcur⟩ := startFinish_current hi hs he ht h₁
    exact (finish_finishes hb hcur).slot hb hcur (by rw [he]; rfl) h₁.tasks h₁.cover
      (fun k => by rw [h₁.pending]; rfl) h₁.nextTask h₂
  | finish t s₁ he hn h₁ h₂ =>
    have hb := hi.books.congr h₁
    have hcur := finish_current hi hi' hs he h₁ h₂
    exact (finish_finishes hb hcur).slot hb hcur he h₁.tasks h₁.cover h₁.pending h₁.nextTask h₂

/-! ## Tasks that have not begun -/

theorem TaskOk.scheduled {strict fin : Prop} {o : XXLTask} {b : Bool} (h : TaskOk strict o fin)
    (hc : o.task = .scheduled b) : o.started = false ∧ o.cleanup = .idle ∧ ¬fin := by
  simp only [TaskOk, hc] at h
  exact ⟨h.1, h.2.2.1, h.2.2.2⟩

theorem cleanupPushed_cleanup (s : Executor) (t : Nat) (aux : Aux) :
    ((s.cleanupPushed t aux).obj t).cleanup ≠ .idle := by
  unfold cleanupPushed
  split
  · simp [setCleanup]
  · split <;> simp [setCleanup]

theorem resumeCleanup_cleanup {aux : Aux} (hs : s.resumeCleanup t aux = some s') :
    (s'.obj t).cleanup ≠ .idle := by
  unfold resumeCleanup at hs
  split at hs
  · split at hs
    · cases hs
      unfold onExecutorTaskDone
      split <;> simp [setCleanup]
    · cases hs
  · cases hs
    unfold cleanupRun
    split
    · simp [setCleanup]
    · split
      · exact cleanupPushed_cleanup _ _ _
      · simp [setCleanup]
  · split at hs
    · cases hs; exact cleanupPushed_cleanup _ _ _
    · cases hs
  · split at hs
    · cases hs; simp [setCleanup]
    · cases hs
  · cases hs
  · cases hs

theorem MayFinish.begun {u : Nat} (h : MayFinish s u s') (ht : t < s.nextTask) :
    (s'.obj t).started = (s.obj t).started := by
  rcases h with h | ⟨s₁, h₁, h₂⟩
  · exact h.begun t
  · rw [h₂.begun, obj_finish (by rw [h₁.nextTask]; exact ht), h₁.begun]

theorem startRun_begun (ht : t < s.nextTask) (aux : Aux) :
    ((s.startRun t aux).obj t).started = true := by
  have hmark : ((s.markStarted t).obj t).started = true := by simp [markStarted]
  simp only [startRun]
  split
  · split
    · simp [endTask, setCoro, hmark]
    · rw [(MayFinish.exceptBranch _ t _ _ aux).begun (by exact ht)]
      simp [setCoro, hmark]
    · simp [setCoro, hmark]
  · simp [endTask, setCoro, hmark]

/-- The task an event runs has begun, or has ended. -/
theorem step_ran (hi : Inv strict s) (hi' : Inv strict s') (hs : step s e = some s')
    (he : e.task = some t) (b : Bool) : (s'.obj t).task ≠ .scheduled b := by
  have hlt := task_lt hi hs he
  have hok := hi.tasks t hlt
  have hlt' : t < s'.nextTask := Nat.lt_of_lt_of_le hlt (step_frame hs he).mono
  intro hc
  obtain ⟨hst', hcl', -⟩ := (hi'.tasks t hlt').scheduled hc
  -- a task that had begun still has
  have hbegun : (s.obj t).started = true → False := fun h => by
    rw [(step_keeps hi hs hlt).2 h] at hst'; cases hst'
  cases e with
  | start u aux =>
    cases he
    simp only [step] at hs
    split at hs
    · cases hs
      rw [startRun_begun hlt] at hst'
      cases hst'
    · cases hs
  | abort u =>
    cases he
    simp only [step] at hs
    split at hs
    · cases hs; simp [endTask] at hc
    · cases hs
  | handlerEnds u res aux =>
    cases he
    simp only [step] at hs
    split at hs
    · rename_i ht
      simp only [TaskOk, ht] at hok
      exact hbegun hok.1
    · cases hs
  | resumeTask u aux =>
    cases he
    simp only [step, resumeTask] at hs
    unfold TaskOk at hok
    split at hs
    · rename_i ht; rw [ht] at hok; exact hbegun hok.1
    · rename_i ht; rw [ht] at hok; exact hbegun hok.1.1
    · rename_i ht; rw [ht] at hok; exact hbegun hok.1
    · rename_i ht; rw [ht] at hok; exact hbegun hok.1.1
    · cases hs
  | resumeCleanup u aux =>
    cases he
    exact resumeCleanup_cleanup hs hcl'
  | _ => cases he

/-- What the first event of a task can be. -/
theorem step_begins (hi : Inv strict s) (hs : step s e = some s') (he : e.task = some t) {b : Bool}
    (ht : (s.obj t).task = .scheduled b) :
    (∃ aux, e = .start t aux ∧ b = false ∧ (s'.obj t).started = true) ∨ e = .abort t ∧ b = true := by
  have hlt := task_lt hi hs he
  cases e with
  | start u aux =>
    cases he
    cases b with
    | true => simp [step, ht] at hs
    | false =>
      simp only [step, ht, Option.some.injEq] at hs
      subst hs
      exact .inl ⟨aux, rfl, rfl, startRun_begun hlt aux⟩
  | abort u =>
    cases he
    cases b with
    | true => exact .inr ⟨rfl, rfl⟩
    | false => simp [step, ht] at hs
  | handlerEnds u res aux => cases he; simp [step, ht] at hs
  | resumeTask u aux => cases he; simp [step, resumeTask, ht] at hs
  | resumeCleanup u aux =>
    cases he
    simp [step, resumeCleanup, ((hi.tasks t hlt).scheduled ht).2.1] at hs
  | _ => cases he

/-- No task goes back to where it has not begun. -/
theorem step_unbegun (hi : Inv strict s) (hi' : Inv strict s') (hs : step s e = some s')
    (hlt : t < s.nextTask) (h : (s'.obj t).task = .scheduled false) :
    (s.obj t).task = .scheduled false := by
  by_cases he : e.task = some t
  · exact absurd h (step_ran hi hi' hs he false)
  · rcases step_obj hi.books hs hlt he with ho | ⟨-, reason, ho⟩
    · rw [← ho]; exact h
    · rw [ho] at h
      simp only [killed] at h
      cases hc : (s.obj t).task <;> simp [hc, Coro.cancelled] at h

/-- A task that is created takes what was pending, or what was accepted in the event. -/
theorem step_created (hi : Inv strict s) (hi' : Inv strict s') (hs : step s e = some s')
    (ht : s'.tasks j = some t) (hn : s.nextTask ≤ t) :
    (s'.obj t).data ∈ s.pending j ∨
      ∃ n d, e.checks s = some (n, d) ∧ d.jobId = j ∧ (s'.obj t).data = newTrigger s d := by
  have hold : s'.tasks j = s.tasks j → False := fun h => by
    have := hi.books.tasks_lt (h.symm.trans ht)
    omega
  have hmem : (s'.obj t).data ∈ s'.line j := by rw [line_cons ht]; exact List.mem_cons_self ..
  cases step_slot hi hi' hs j with
  | same h => exact (hold h).elim
  | run n d hc hj hidle hl =>
    rw [hl, List.mem_singleton] at hmem
    exact .inr ⟨n, d, hc, hj, hmem⟩
  | cover n d hc hd hj h => exact (hold h).elim
  | drop hk h => exact (hold h).elim
  | finish u hu he hl => rw [hl] at hmem; exact .inl hmem

/-- A task that has not begun is the current one of its job. -/
theorem Inv.scheduled_current (hi : Inv strict s) (ht : t < s.nextTask) {b : Bool}
    (hc : (s.obj t).task = .scheduled b) : s.tasks (s.obj t).data.jobId = some t :=
  hi.books.unfinished t ht ((hi.tasks t ht).scheduled hc).2.2

theorem not_pending_step (hi : Inv strict s) (hi' : Inv strict s') (hs : step s e = some s')
    (ha : y ∈ s.accepted) (hp : y ∉ s.pending j) : y ∉ s'.pending j := by
  intro hm
  rcases step_pending hi hi' hs hm with h | ⟨n, d, -, -, rfl⟩
  · exact hp h
  · exact newTrigger_fresh hi.books d ha

/-! ## One task a trigger -/

theorem created_current (hi : Inv strict s) (hi' : Inv strict s') (hs : step s e = some s')
    (hn : s.nextTask ≤ t) (ht : t < s'.nextTask) : s'.tasks (s'.obj t).data.jobId = some t := by
  refine hi'.books.unfinished t ht fun hf => ?_
  rcases step_finished hi hi' hs with h | ⟨u, -, h, hu⟩
  · rw [h] at hf
    have := hi.books.finishedLt t hf
    omega
  · rw [h, List.mem_append, List.mem_singleton] at hf
    rcases hf with hf | rfl
    · have := hi.books.finishedLt t hf
      omega
    · have := hi.books.tasks_lt hu
      omega

/-- What a task creates is a task of its own job. -/
theorem created_job (hi : Inv strict s) (hi' : Inv strict s') (hs : step s e = some s') {u : Nat}
    (he : e.task = some t) (hn : s.nextTask ≤ u) (hu : u < s'.nextTask) :
    (s'.obj u).data.jobId = (s.obj t).data.jobId := by
  have hcur := created_current hi hi' hs hn hu
  have hold : s'.tasks (s'.obj u).data.jobId = s.tasks (s'.obj u).data.jobId → False := fun h => by
    have := hi.books.tasks_lt (h.symm.trans hcur)
    omega
  have hchecks : e.checks s = none := by cases e <;> first | rfl | cases he
  cases step_slot hi hi' hs (s'.obj u).data.jobId with
  | same h => exact (hold h).elim
  | run n d hc => rw [hchecks] at hc; cases hc
  | cover n d hc => rw [hchecks] at hc; cases hc
  | drop hk h => exact (hold h).elim
  | finish v hv hv' =>
    rw [he] at hv'
    cases hv'
    exact ((hi.books.job _).current t hv).2.1.symm

/-- No trigger has two tasks, none that has one is pending, and what has started has one. -/
structure Apart (s : Executor) : Prop where
  begun : ∀ x ∈ s.started, ∃ t, t < s.nextTask ∧ (s.obj t).data = x ∧ (s.obj t).started = true
  known : ∀ t, t < s.nextTask → (s.obj t).data ∈ s.accepted
  pending : ∀ t, t < s.nextTask → (s.obj t).data ∉ s.pending (s.obj t).data.jobId
  inj : ∀ t u, t < s.nextTask → u < s.nextTask → (s.obj t).data = (s.obj u).data → t = u

/-- A task that has not begun has a trigger that has not started. -/
theorem Apart.unstarted (h : Apart s) (ht : t < s.nextTask) (hst : (s.obj t).started = false) :
    (s.obj t).data ∉ s.started := by
  intro hm
  obtain ⟨u, hu, hd, hb⟩ := h.begun _ hm
  rw [h.inj u t hu ht hd, hst] at hb
  cases hb

theorem apart_init (handler : String → Bool) (m : Int) : Apart (init handler m) :=
  ⟨(fun _ hx => by cases hx), fun t ht => absurd ht (Nat.not_lt_zero t),
    fun t ht => absurd ht (Nat.not_lt_zero t), fun t _ ht => absurd ht (Nat.not_lt_zero t)⟩

theorem Apart.step (h : Apart s) (hi : Inv strict s) (hi' : Inv strict s')
    (hs : step s e = some s') : Apart s' := by
  have hold : ∀ t, t < s.nextTask → (s'.obj t).data = (s.obj t).data :=
    fun t ht => (step_keeps hi hs ht).1
  -- a new task has a trigger that no task had
  have hnew : ∀ t u, s.nextTask ≤ t → t < s'.nextTask → u < s.nextTask →
      (s'.obj t).data ≠ (s.obj u).data := by
    intro t u hn ht hu he
    rcases step_created hi hi' hs (created_current hi hi' hs hn ht) hn with hm | ⟨n, d, -, -, hm⟩
    · rw [he] at hm; exact h.pending u hu hm
    · rw [he] at hm; exact newTrigger_fresh hi.books d (hm ▸ h.known u hu)
  refine ⟨fun x hx => ?_, fun t ht => ?_, fun t ht => ?_, fun t u ht hu he => ?_⟩
  · have hkeep : (∃ t, t < s.nextTask ∧ (s.obj t).data = x ∧ (s'.obj t).started = true) →
        ∃ t, t < s'.nextTask ∧ (s'.obj t).data = x ∧ (s'.obj t).started = true := by
      rintro ⟨t, ht, hd, hst⟩
      exact ⟨t, Nat.lt_of_lt_of_le ht (step_nextTask hi.books hs), by rw [hold t ht, hd], hst⟩
    have hbefore : x ∈ s.started →
        ∃ t, t < s.nextTask ∧ (s.obj t).data = x ∧ (s'.obj t).started = true := by
      intro hm
      obtain ⟨t, ht, hd, hst⟩ := h.begun x hm
      exact ⟨t, ht, hd, (step_keeps hi hs ht).2 hst⟩
    rcases step_started hi hs with hst | ⟨t, aux, he, ht, hst⟩
    · rw [hst] at hx; exact hkeep (hbefore hx)
    · rw [hst, List.mem_append, List.mem_singleton] at hx
      rcases hx with hx | rfl
      · exact hkeep (hbefore hx)
      · have hown : e.task = some t := by rw [he]; rfl
        rcases step_begins hi hs hown ht with ⟨-, -, -, hb⟩ | ⟨-, hb⟩
        · exact hkeep ⟨t, task_lt hi hs hown, rfl, hb⟩
        · cases hb
  · by_cases hlt : t < s.nextTask
    · rw [hold t hlt]; exact step_accepted hi hs (h.known t hlt)
    · have hcur := created_current hi hi' hs (by omega) ht
      exact (hi'.books.job _).known _ (by rw [line_cons hcur]; exact List.mem_cons_self ..)
  · by_cases hlt : t < s.nextTask
    · rw [hold t hlt]
      exact not_pending_step hi hi' hs (h.known t hlt) (h.pending t hlt)
    · have hd := (hi'.books.job (s'.obj t).data.jobId).distinct
      rw [line_cons (created_current hi hi' hs (by omega) ht), List.map_cons, List.nodup_cons] at hd
      exact fun hm => hd.1 (List.mem_map_of_mem hm)
  · by_cases hlt : t < s.nextTask
    · by_cases hlu : u < s.nextTask
      · rw [hold t hlt, hold u hlu] at he; exact h.inj t u hlt hlu he
      · rw [hold t hlt] at he; exact absurd he.symm (hnew u t (by omega) hu hlt)
    · by_cases hlu : u < s.nextTask
      · rw [hold u hlu] at he; exact absurd he (hnew t u (by omega) ht hlu)
      · have h1 := created_current hi hi' hs (by omega) ht
        have h2 := created_current hi hi' hs (by omega) hu
        rw [he, h2] at h1
        exact (Option.some.inj h1).symm

end Executor
end Pyxxl
