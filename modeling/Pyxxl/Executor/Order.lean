import Pyxxl.Executor.Delta

/-!
# Pyxxl.Executor.Order

What holds of the books over whole runs, whatever is cancelled, fails or is unregistered on the
way.

* `reachable_inv`, `reachable_views`: the invariant, and the abstract `Line` of each job.
* `job_exclusive`: one unfinished task a job, each trigger starts at most once, and triggers
  start in the order of their acceptance.
* `logIds_exact`: `_job_log_ids` is exactly what runs, waits or is to replace, so that a log id
  is refused while it is held and free again once it is not.
-/

namespace Pyxxl
namespace Executor

open Transition

variable {ok : Executor → Event → Prop} {s s' : Executor}

/-- The invariant every run keeps. -/
theorem steps_inv (h : Steps step ok s s') (hi : Inv (fun _ => False) s) : Inv (fun _ => False) s' :=
  h.invariant (P := Inv (fun _ => False))
    (fun _ _ _ hi _ hs => (step_good hi (fun _ hf => hf.elim) hs).1) hi

theorem reachable_inv (h : Reachable ok s) : Inv (fun _ => False) s := by
  obtain ⟨handler, m, hr⟩ := h
  exact steps_inv hr (inv_init handler m)

theorem steps_serves (h : Steps step ok s s') (hi : Inv (fun _ => False) s) : Serves s s' := by
  induction h with
  | refl => exact .refl
  | tail hr _ hs ih => exact ih.trans (step_good (steps_inv hr hi) (fun _ hf => hf.elim) hs).2

theorem reachable_views (h : Reachable ok s) (j : JobId) : ∃ L, Views s j L := by
  obtain ⟨handler, m, hr⟩ := h
  obtain ⟨L, -, hL⟩ := steps_serves hr (inv_init handler m) j _ (views_init handler m j)
  exact ⟨L, hL⟩

/-! ## One task a job, in order -/

/-- `t` is a task of job `j` that has not ended, or that `_finish` was not run for. -/
def Unfinished (s : Executor) (j : JobId) (t : Nat) : Prop :=
  t < s.nextTask ∧ (s.obj t).data.jobId = j ∧
    (t ∉ s.finished ∨ ∀ exc, (s.obj t).task ≠ .done exc)

/-- `t` is a task of job `j` whose handler runs. -/
def InHandler (s : Executor) (j : JobId) (t : Nat) : Prop :=
  (s.obj t).data.jobId = j ∧ ∃ timestamp, (s.obj t).task = .inHandler timestamp

theorem Inv.unfinished_current {strict : Nat → Prop} (hi : Inv strict s) {j : JobId} {t : Nat}
    (h : Unfinished s j t) : s.tasks j = some t := by
  obtain ⟨hlt, hj, hun⟩ := h
  have hnf : t ∉ s.finished := by
    rcases hun with hnf | hlive
    · exact hnf
    · have hok := hi.tasks t hlt
      unfold TaskOk at hok
      split at hok
      all_goals first | exact absurd (by assumption) (hlive _) | simp_all
  rw [← hj]
  exact hi.books.unfinished t hlt hnf

theorem Inv.inHandler_unfinished {strict : Nat → Prop} (hi : Inv strict s) {j : JobId} {t : Nat}
    (h : InHandler s j t) : Unfinished s j t := by
  obtain ⟨hj, ts, ht⟩ := h
  refine ⟨hi.lt_of_obj fun ho => ?_, hj, .inr fun exc he => ?_⟩
  · rw [ho] at ht; cases ht
  · rw [ht] at he; cases he

theorem accepted_nodup (hb : Books s) : s.accepted.Nodup := by
  refine List.Nodup.of_map Trigger.ticket ?_
  rw [hb.tickets]
  exact List.nodup_range

/-- What has started was accepted, started once, and each job's triggers in order. -/
theorem started_sublist (h : Reachable ok s) (j : JobId) :
    (s.started.filter fun x => x.jobId = j).Sublist (s.accepted.filter fun x => x.jobId = j) := by
  obtain ⟨L, hL⟩ := reachable_views h j
  rw [← hL.served, ← hL.arrived]
  exact L.served_sublist

theorem started_count (h : Reachable ok s) (x : Trigger) : s.started.count x ≤ 1 := by
  have hsub := started_sublist h x.jobId
  have hn : (s.accepted.filter fun y => y.jobId = x.jobId).Nodup :=
    (accepted_nodup (reachable_inv h).books).filter _
  have hc := List.nodup_iff_count_le_one.mp (hn.sublist hsub) x
  rwa [List.count_filter (by simp)] at hc

/-- In every state of every run: two unfinished tasks of a job are one, so are two whose handlers
run; no trigger starts twice; and the triggers of a job that have started are a subsequence of
those accepted for it. -/
theorem job_exclusive (h : Reachable Any s) (j : JobId) :
    (∀ t u, Unfinished s j t → Unfinished s j u → t = u) ∧
      (∀ t u, InHandler s j t → InHandler s j u → t = u) ∧
      (∀ x ∈ s.accepted, s.started.count x ≤ 1) ∧
      (s.started.filter fun x => x.jobId = j).Sublist
        (s.accepted.filter fun x => x.jobId = j) := by
  have hi := reachable_inv h
  have huniq : ∀ t u, Unfinished s j t → Unfinished s j u → t = u := by
    intro t u ht hu
    have h₁ := hi.unfinished_current ht
    have h₂ := hi.unfinished_current hu
    rw [h₁] at h₂
    exact Option.some.inj h₂
  refine ⟨huniq, ?_, fun x _ => started_count h x, started_sublist h j⟩
  intro t u ht hu
  exact huniq t u (hi.inHandler_unfinished ht) (hi.inHandler_unfinished hu)

/-! A run of one job: a queued trigger gives way to a `COVER_EARLY`. -/

def coverJob (l : LogId) : RunData := ⟨1, l, "h", ExecutorBlockStrategy.coverEarly.value, none⟩

def serialJob (l : LogId) : RunData := ⟨1, l, "h", ExecutorBlockStrategy.serialExecution.value, none⟩

def mixed : List Event :=
  [.runJob (serialJob 1), .runJob (serialJob 2), .start 0 .quiet, .runJob (coverJob 3),
    .handlerEnds 0 (.error .cancelled) .quiet, .resumeCleanup 0 .quiet, .start 1 .quiet]

def after (es : List Event) : Option Executor := run step (init (fun _ => true) 0) es

theorem reachable_after {ok : Executor → Event → Prop} (es : List Event)
    (hok : Allowed step ok (init (fun _ => true) 0) es) (h : (after es).isSome = true) :
    Reachable ok ((after es).get h) :=
  ⟨fun _ => true, 0, .of_allowed hok (Option.some_get h).symm⟩

def mixedState : Executor := (after mixed).get rfl

theorem mixedState_reachable : Reachable Any mixedState :=
  reachable_after mixed (.of_forall (fun _ _ _ => trivial) _) rfl

theorem job_exclusive_mixed :
    (∀ t u, Unfinished mixedState 1 t → Unfinished mixedState 1 u → t = u) ∧
      (∀ t u, InHandler mixedState 1 t → InHandler mixedState 1 u → t = u) ∧
      (∀ x ∈ mixedState.accepted, mixedState.started.count x ≤ 1) ∧
      (mixedState.started.filter fun x => x.jobId = 1).Sublist
        (mixedState.accepted.filter fun x => x.jobId = 1) :=
  job_exclusive mixedState_reachable 1

/-! ## Log ids -/

/-- Job `j` holds the log id: its current task, a queued trigger or the replacement has it. -/
def Holds (s : Executor) (j : JobId) (l : LogId) : Prop :=
  (∃ t, s.tasks j = some t ∧ (s.obj t).data.logId = l) ∨ (∃ x ∈ s.queue j, x.logId = l) ∨
    ∃ x, s.coverReplacements j = some x ∧ x.logId = l

theorem holds_iff_line (s : Executor) (j : JobId) (l : LogId) :
    Holds s j l ↔ ∃ x ∈ s.line j, x.logId = l := by
  simp only [Holds, line, current, pending, List.mem_append, Option.mem_toList]
  constructor
  · rintro (⟨t, ht, hl⟩ | ⟨x, hx, hl⟩ | ⟨x, hx, hl⟩)
    · exact ⟨(s.obj t).data, .inl (by simp [ht]), hl⟩
    · exact ⟨x, .inr (.inr hx), hl⟩
    · exact ⟨x, .inr (.inl hx), hl⟩
  · rintro ⟨x, hx | hx | hx, hl⟩
    · cases ht : s.tasks j with
      | none => simp [ht] at hx
      | some t =>
        simp only [ht, List.mem_singleton] at hx
        subst hx
        exact .inl ⟨t, rfl, hl⟩
    · exact .inr (.inr ⟨x, hx, hl⟩)
    · exact .inr (.inl ⟨x, hx, hl⟩)

theorem Books.holds_iff (hb : Books s) (j : JobId) (l : LogId) :
    Holds s j l ↔ l ∈ s.jobLogIds j := by
  rw [holds_iff_line, (hb.job j).logIds]
  simp

theorem coverPush_call (s : Executor) (n : Nat) (d : RunData) (reason : PyStr)
    (rest : List Trigger) (err : RunError) :
    (s.coverPush n d reason rest).call n ≠ .runDone (.error err) := by
  unfold coverPush
  split <;> simp [runReturn, setCall]

theorem runJobLocked_repeated (s : Executor) (n : Nat) (d : RunData) :
    (s.runJobLocked n d).call n = .runDone (.error (.repeated d.logId)) ↔
      d.logId ∈ s.jobLogIds d.jobId := by
  unfold runJobLocked
  split
  · rename_i hl; simp [runReturn, setCall, hl]
  · rename_i hl
    refine ⟨fun h => ?_, fun h => absurd h hl⟩
    split at h
    · simp [runReturn, setCall] at h
    · split at h
      · simp [runReturn, setCall] at h
      · split at h
        · exact (coverPush_call _ _ _ _ _ _ h).elim
        · split at h
          · unfold handleSerialExecution at h
            split at h
            · simp [runReturn, setCall] at h
            · simp [runReturn, setCall] at h
          · simp [runReturn, setCall] at h

/-- A `run_job` in its critical section is refused as repeated exactly when its log id is held. -/
theorem Books.repeated_iff {e : Event} {n : Nat} {d : RunData} (hb : Books s)
    (hc : e.checks s = some (n, d)) (hs : step s e = some s') :
    s'.call n = .runDone (.error (.repeated d.logId)) ↔ Holds s d.jobId d.logId := by
  rw [hb.holds_iff]
  cases e with
  | runJob d' =>
    simp only [Event.checks] at hc
    split at hc
    · rename_i hcond
      cases hc
      cases hs
      simp only [runJob, hcond.1, hcond.2, if_true]
      exact runJobLocked_repeated ..
    · cases hc
  | resumeCall m =>
    simp only [Event.checks] at hc
    split at hc
    · rename_i d' hcall
      cases hc
      simp only [step, resumeCall, hcall] at hs
      split at hs
      · split at hs
        · cases hs; exact runJobLocked_repeated ..
        · cases hs
      · cases hs
    · cases hc
  | _ => cases hc

/-- A trigger that leaves the books frees its log id. -/
theorem Inv.freed {strict : Nat → Prop} {e : Event} {j : JobId} {x : Trigger} (hi : Inv strict s)
    (hi' : Inv strict s') (hs : step s e = some s') (hx : x ∈ s.line j) (hx' : x ∉ s'.line j) :
    ¬Holds s' j x.logId := by
  have hdist := (hi.books.job j).distinct
  have hheld : x.logId ∈ s.jobLogIds j := by
    rw [← hi.books.holds_iff, holds_iff_line]; exact ⟨x, hx, rfl⟩
  -- no other trigger of the old line has this log id, and a new one would have been refused
  have hother : ∀ y ∈ s.line j, y.logId = x.logId → y ∈ s'.line j → False := by
    intro y hy hl hy'
    exact hx' (List.inj_on_of_nodup_map hdist hy hx hl ▸ hy')
  have hnew : ∀ (n : Nat) (d : RunData), d.logId ∉ s.jobLogIds j →
      (newTrigger s d).logId ≠ x.logId := by
    intro n d hl he
    rw [newTrigger_logId] at he
    exact hl (he ▸ hheld)
  rw [holds_iff_line]
  rintro ⟨y, hy, hl⟩
  cases step_line hi hi' hs j with
  | same h => exact hother y (by rw [← h]; exact hy) hl hy
  | arrive n d hc hj hd h =>
    rw [h, List.mem_append, List.mem_singleton] at hy
    rcases hy with hy | rfl
    · exact hx' (by rw [h]; exact List.mem_append_left _ hx)
    · exact hnew n d hd hl
  | cover n d hc hj hd h =>
    rw [h, List.mem_append, List.mem_singleton] at hy
    rcases hy with hy | rfl
    · exact hother y (List.mem_append_left _ hy) hl (by rw [h]; exact List.mem_append_left _ hy)
    · exact hnew n d hd hl
  | drop hk h =>
    exact hother y (List.mem_append_left _ (by rw [← h]; exact hy)) hl hy
  | finish t ht he h =>
    exact hother y (List.mem_append_right _ (by rw [← h]; exact hy)) hl hy

/-- In every state of every run `_job_log_ids` is the set of the log ids of the current task, the
queued triggers and the cover replacement, all different; a `run_job` is refused as repeated
exactly when its log id is among them; and what leaves them frees its log id at once. -/
theorem logIds_exact (h : Reachable Any s) (j : JobId) :
    s.jobLogIds j = ((s.current j ++ s.queue j ++ (s.coverReplacements j).toList).map
        Trigger.logId).toFinset ∧
      ((s.current j ++ s.queue j ++ (s.coverReplacements j).toList).map Trigger.logId).Nodup ∧
      (∀ e n d s', e.checks s = some (n, d) → step s e = some s' →
        (s'.call n = .runDone (.error (.repeated d.logId)) ↔ Holds s d.jobId d.logId)) ∧
      (∀ e s' x, step s e = some s' → x ∈ s.line j → x ∉ s'.line j → ¬Holds s' j x.logId) := by
  have hi := reachable_inv h
  have hperm : (s.current j ++ s.queue j ++ (s.coverReplacements j).toList).Perm (s.line j) := by
    rw [List.append_assoc, line, pending]
    exact List.perm_append_comm.append_left _
  refine ⟨?_, ?_, fun e n d s' hc hs => hi.books.repeated_iff hc hs, fun e s' x hs hx hx' => ?_⟩
  · rw [(hi.books.job j).logIds]
    exact (List.toFinset_eq_of_perm _ _ (hperm.map _)).symm
  · exact ((hperm.map _).nodup_iff).mpr (hi.books.job j).distinct
  · exact hi.freed (step_good hi (fun _ hf => hf.elim) hs).1 hs hx hx'

theorem logIds_exact_mixed :
    mixedState.jobLogIds 1 = ((mixedState.current 1 ++ mixedState.queue 1 ++
        (mixedState.coverReplacements 1).toList).map Trigger.logId).toFinset ∧
      ((mixedState.current 1 ++ mixedState.queue 1 ++
        (mixedState.coverReplacements 1).toList).map Trigger.logId).Nodup ∧
      (∀ e n d s', e.checks mixedState = some (n, d) → step mixedState e = some s' →
        (s'.call n = .runDone (.error (.repeated d.logId)) ↔ Holds mixedState d.jobId d.logId)) ∧
      (∀ e s' x, step mixedState e = some s' → x ∈ mixedState.line 1 → x ∉ s'.line 1 →
        ¬Holds s' 1 x.logId) :=
  logIds_exact mixedState_reachable 1

end Executor
end Pyxxl
