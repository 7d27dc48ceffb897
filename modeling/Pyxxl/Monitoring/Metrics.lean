import Pyxxl.Executor.Observed

/-!
# Pyxxl.Monitoring.Metrics

The `InstrumentedExecutor` of `pyxxl/app/runner.py`, whose observers are `success` and `failed` of
`pyxxl/monitoring/prometheus.py`.

Both read `g.xxl_run_data`, a context variable. `create_task` copies the context of its caller for
the coroutine, `add_done_callback` copies it for the done-callback, and the cleanup task has the
context of the done-callback. `_run` sets the variable in its own copy. A request holds no run
data.

* `creator t`: the variable where `_create_task` was called for `t`, and so in the done-callback
  and in the cleanup task.
* `context t`: the variable in the coroutine of `t`.
* `counters`: the increments, each with the task it was made for. The label `reason` is left out.
-/

namespace Pyxxl

open Executor Transition

structure InstrumentedExecutor where
  executor : Executor
  creator : Nat → Option RunData
  context : Nat → Option RunData
  counters : List (Nat × Observer × JobId)

namespace InstrumentedExecutor

def init (handler : String → Bool) (taskQueueLength : Int) : InstrumentedExecutor where
  executor := Executor.init handler taskQueueLength
  creator _ := none
  context _ := none
  counters := []

/-- `_DATA` in the context the event runs in, from `g.set_xxl_run_data` on where it comes to it. -/
def current (m : InstrumentedExecutor) : Event → Option RunData
  | .start t _ =>
    if m.executor.handler (m.executor.obj t).data.data.executorHandler then
      some (m.executor.obj t).data.data
    else m.context t
  | .handlerEnds t _ _ => m.context t
  | .resumeTask t _ => m.context t
  | .abort t => m.creator t
  | .resumeCleanup t _ => m.creator t
  | _ => none

/-- How `success` and `failed` end: `g.xxl_run_data` raises a `RuntimeError` when it is not set. -/
def answer : Option RunData → Observer → Option Exc
  | some _, _ => none
  | none, _ => some (.exception (py "当前上下文中不存在任务运行参数。"))

/-- The event with the ends of its observer calls. -/
def answered (m : InstrumentedExecutor) (e : Event) : Event := e.answer (answer (m.current e))

/-- The counters the event increments. -/
def counted (m : InstrumentedExecutor) (e : Event) : List (Nat × Observer × JobId) :=
  match e.task, m.current e with
  | some t, some d => ((m.answered e).calls m.executor).map fun o => (t, o, d.jobId)
  | _, _ => []

/-- The event runs in context `c`, where it may create a task. -/
def copied (m : InstrumentedExecutor) (s' : Executor) (c : Option RunData)
    (contexts : Nat → Option RunData) (u : Nat) : Option RunData :=
  if m.executor.nextTask ≤ u ∧ u < s'.nextTask then c else contexts u

def entered (m : InstrumentedExecutor) (e : Event) : Nat → Option RunData :=
  match e with
  | .start t _ => Function.update m.context t (m.current e)
  | _ => m.context

def step (m : InstrumentedExecutor) (e : Event) : Option InstrumentedExecutor :=
  match m.executor.step (m.answered e) with
  | none => none
  | some s' => some {
      executor := s'
      creator := m.copied s' (m.current e) m.creator
      context := m.copied s' (m.current e) (m.entered e)
      counters := m.counters ++ m.counted e }

def Reachable (ok : InstrumentedExecutor → Event → Prop) (m : InstrumentedExecutor) : Prop :=
  ∃ handler taskQueueLength, Steps step ok (init handler taskQueueLength) m

variable {m m' : InstrumentedExecutor} {s' : Executor} {e : Event} {t u : Nat}

/-- It is an executor whose observers end as `answer` says. -/
theorem step_executor (h : m.step e = some m') :
    m.executor.step (m.answered e) = some m'.executor ∧
      m'.creator = m.copied m'.executor (m.current e) m.creator ∧
      m'.context = m.copied m'.executor (m.current e) (m.entered e) ∧
      m'.counters = m.counters ++ m.counted e := by
  simp only [step] at h
  split at h
  · cases h
  · rename_i hs; cases h; exact ⟨hs, rfl, rfl, rfl⟩

/-! ## Events with their answers -/

theorem answer_task (f : Observer → Option Exc) (e : Event) : (e.answer f).task = e.task := by
  cases e <;> rfl

theorem answer_target (f : Observer → Option Exc) (s : Executor) (e : Event) :
    (e.answer f).target s = e.target s := by cases e <;> rfl

theorem harmless_answer {s : Executor} (h : Harmless t s e) (f : Observer → Option Exc) :
    Harmless t s (e.answer f) where
  begins aux he := by
    cases e with
    | start u aux' => cases he; exact h.begins aux' rfl
    | _ => cases he
  ends res aux he := by
    cases e with
    | handlerEnds u res' aux' =>
      cases he
      cases res <;> exact h.ends _ aux' rfl
    | _ => cases he
  resumes aux ts he := by
    cases e with
    | resumeTask u aux' => cases he; exact h.resumes aux' ts rfl
    | _ => cases he
  gentle hg := h.gentle (by rwa [answer_target] at hg)

theorem answer_aux {f : Observer → Option Exc} {aux : Aux} (h : (e.answer f).aux = some (t, aux)) :
    aux.succeeded = f .succeededCallback ∧ aux.failed = f .failedCallback := by
  cases e <;> cases h <;> exact ⟨rfl, rfl⟩

/-! ## What holds in every state -/

/-- Nothing goes wrong around the handler (`Harmless`), and no task that a request created is
cancelled before its first step. -/
structure Attributable (m : InstrumentedExecutor) (e : Event) : Prop where
  harmless : ∀ t, Harmless t m.executor e
  begun : ∀ t, e = .abort t → m.creator t ≠ none

structure Metered (m : InstrumentedExecutor) : Prop where
  inv : Inv (fun _ => True) m.executor
  /-- A coroutine that has begun holds its own run data. -/
  own : ∀ t, (m.executor.obj t).started = true → m.context t = some (m.executor.obj t).data.data
  /-- The task that created `t`, if a task did, was of the same job. -/
  created : ∀ t d, t < m.executor.nextTask → m.creator t = some d →
    d.jobId = (m.executor.obj t).data.jobId
  aborted : ∀ t exc, t < m.executor.nextTask → (m.executor.obj t).started = false →
    (m.executor.obj t).task = .done exc → m.creator t ≠ none
  /-- A task has been counted when it owes no callback any more. -/
  once : ∀ t, t < m.executor.nextTask →
    (m.counters.filter fun c => c.1 = t).length + owes (m.executor.obj t) = 1
  known : ∀ c ∈ m.counters, c.1 < m.executor.nextTask
  job : ∀ c ∈ m.counters, c.2.2 = (m.executor.obj c.1).data.jobId

theorem metered_init (handler : String → Bool) (n : Int) : Metered (init handler n) where
  inv := inv_init handler n
  own t h := by cases h
  created t d ht := absurd ht (Nat.not_lt_zero t)
  aborted t exc ht := absurd ht (Nat.not_lt_zero t)
  once t ht := absurd ht (Nat.not_lt_zero t)
  known c hc := by cases hc
  job c hc := by cases hc

/-- A coroutine that goes on holds its own run data. -/
theorem Metered.resumed (h : Metered m) (ht : t < m.executor.nextTask) {aux : Aux}
    (hs : m.executor.resumeTask t aux = some s') :
    m.context t = some (m.executor.obj t).data.data := by
  have hok := h.inv.tasks t ht
  refine h.own t ?_
  unfold resumeTask at hs
  split at hs
  · rename_i hc; simp only [TaskOk, hc] at hok; exact hok.1
  · rename_i hc; simp only [TaskOk, hc] at hok; exact hok.1.1
  · rename_i hc; simp only [TaskOk, hc] at hok; exact hok.1
  · rename_i hc; simp only [TaskOk, hc] at hok; exact hok.1.1
  · cases hs

/-- Where the code of a task runs, the run data are those of a task of the same job, if they are
set. They are, unless it runs the done-callback of a task that has begun. -/
theorem Metered.current_job (h : Metered m) (ha : Attributable m e)
    (hs : m.executor.step (m.answered e) = some s') (he : e.task = some t) :
    (∀ d, m.current e = some d → d.jobId = (m.executor.obj t).data.jobId) ∧
      (e.idle m.executor t ∨ m.current e ≠ none) := by
  have ht := task_lt h.inv hs ((answer_task _ e).trans he)
  cases e with
  | start v aux =>
    cases he
    simp only [current, ((ha.harmless t).begins aux rfl).1, if_true]
    exact ⟨fun d hd => by cases hd; rfl, .inr (by simp)⟩
  | handlerEnds v res aux =>
    cases he
    simp only [answered, Event.answer, Executor.step] at hs
    split at hs
    · rename_i ts hc
      have hown := h.own t (running_of_inHandler h.inv ht hc).started
      simp only [current, hown]
      exact ⟨fun d hd => by cases hd; rfl, .inr (by simp)⟩
    · cases hs
  | resumeTask v aux =>
    cases he
    simp only [current, h.resumed ht hs]
    exact ⟨fun d hd => by cases hd; rfl, .inr (by simp)⟩
  | abort v =>
    cases he
    exact ⟨fun d hd => h.created t d ht hd, .inr (ha.begun t rfl)⟩
  | resumeCleanup v aux =>
    cases he
    refine ⟨fun d hd => h.created t d ht hd, ?_⟩
    by_cases hst : (m.executor.obj t).started = true
    · exact .inl ⟨hst, aux, rfl⟩
    · obtain ⟨exc, hd⟩ := (h.inv.tasks t ht).ended fun hc => by
        simp [answered, Event.answer, Executor.step, resumeCleanup, hc] at hs
      exact .inr (h.aborted t exc ht (by simpa using hst) hd)
  | _ => cases he

/-- An observer that is called does not raise. -/
theorem Metered.answers (h : Metered m) (ha : Attributable m e)
    (hs : m.executor.step (m.answered e) = some s') (he : e.task = some t) {aux : Aux}
    (hx : (m.answered e).aux = some (t, aux)) :
    (m.answered e).idle m.executor t ∨ aux.succeeded = none ∧ aux.failed = none := by
  obtain ⟨h₁, h₂⟩ := answer_aux hx
  rcases (h.current_job ha hs he).2 with ⟨hst, aux', rfl⟩ | hc
  · exact .inl ⟨hst, _, rfl⟩
  · refine .inr ?_
    cases hd : m.current e with
    | none => exact absurd hd hc
    | some d => rw [h₁, h₂, hd]; exact ⟨rfl, rfl⟩

theorem Metered.step_inv (h : Metered m) (ha : Attributable m e)
    (hs : m.executor.step (m.answered e) = some s') : Inv (fun _ => True) s' := by
  refine (step_good h.inv (fun t _ => ?_) hs).1
  have hh := harmless_answer (ha.harmless t) (answer (m.current e))
  refine ⟨hh.gentle, fun aux he => ?_, fun aux he hst => ?_⟩
  · obtain ⟨hhandler, hl, -⟩ := hh.begins aux he
    exact ⟨hl, hhandler⟩
  · have hown : e.task = some t := (answer_task _ e).symm.trans (congrArg Event.task he)
    rcases h.answers ha hs hown (congrArg Event.aux he) with ⟨hst', -⟩ | ho
    · rw [hst] at hst'; cases hst'
    · exact ho.2

/-! ## One step -/

/-- Only the task of the event is counted in it, once for each call. -/
theorem Metered.counted_calls (h : Metered m) (ha : Attributable m e)
    (hs : m.executor.step (m.answered e) = some s') (t : Nat) :
    ((m.counted e).filter fun c => c.1 = t).length =
      if e.task = some t then ((m.answered e).calls m.executor).length else 0 := by
  cases he : e.task with
  | none => simp [counted, he]
  | some u =>
    cases hd : m.current e with
    | none =>
      have hidle := ((h.current_job ha hs he).2.resolve_right fun hc => hc hd)
      have hcalls : (m.answered e).calls m.executor = [] := by
        obtain ⟨hst, aux, rfl⟩ := hidle
        exact idle_calls h.inv ⟨hst, _, rfl⟩
      simp [counted, he, hd, hcalls]
    | some d =>
      by_cases hut : u = t
      · subst hut
        simp only [counted, he, hd, if_true]
        rw [List.filter_eq_self.mpr, List.length_map]
        intro c hc
        obtain ⟨o, -, rfl⟩ := List.mem_map.mp hc
        simp
      · have hne : ¬some u = some t := fun heq => hut (Option.some.inj heq)
        simp only [counted, he, hd, hne, if_false, List.length_eq_zero_iff, List.filter_eq_nil_iff]
        intro c hc
        obtain ⟨o, -, rfl⟩ := List.mem_map.mp hc
        simpa using hut

theorem Metered.counted_job (h : Metered m) (ha : Attributable m e)
    (hs : m.executor.step (m.answered e) = some s') {c : Nat × Observer × JobId}
    (hc : c ∈ m.counted e) :
    c.1 < m.executor.nextTask ∧ c.2.2 = (m.executor.obj c.1).data.jobId := by
  unfold counted at hc
  split at hc
  · rename_i t d he hd
    obtain ⟨o, -, rfl⟩ := List.mem_map.mp hc
    exact ⟨task_lt h.inv hs ((answer_task _ e).trans he), (h.current_job ha hs he).1 d hd⟩
  · cases hc

/-- A call of `run_job` or `cancel_job` runs in the context of its request. -/
theorem current_call (he : e.task = none) : m.current e = none := by
  cases e <;> first | rfl | cases he

/-- A task that the event has created has not begun. -/
theorem Metered.new (h : Metered m) (hs : m.executor.step (m.answered e) = some s')
    (hi' : Inv (fun _ => True) s') (hn : m.executor.nextTask ≤ t) (ht : t < s'.nextTask) :
    ∃ x, s'.obj t = newTask x := by
  refine (step_new h.inv hs hn).resolve_left fun ho => ?_
  have hok := hi'.tasks t ht
  rw [ho] at hok
  exact hok

/-- The first step of a task and its `cancel()` before that are the only ways out of `scheduled`. -/
theorem Metered.leaves (h : Metered m) (hs : m.executor.step (m.answered e) = some s')
    (ht : t < m.executor.nextTask) (hst : (m.executor.obj t).started = false)
    (hd : ∀ exc, (m.executor.obj t).task ≠ .done exc) (hown : e.task = some t) :
    (∃ aux, e = .start t aux) ∧ (s'.obj t).started = true ∨
      e = .abort t ∧ (s'.obj t).started = false := by
  have hok := h.inv.tasks t ht
  cases hc : (m.executor.obj t).task with
  | scheduled b =>
    rcases step_begins h.inv hs ((answer_task _ e).trans hown) hc with ⟨aux, he, -, hst'⟩ | ⟨he, rfl⟩
    · cases e with
      | start u aux' => cases hown; exact .inl ⟨⟨aux', rfl⟩, hst'⟩
      | _ => cases he
    · cases e with
      | abort u =>
        cases hown
        simp only [answered, Event.answer, Executor.step, hc, Option.some.injEq] at hs
        rw [← hs]
        exact .inr ⟨rfl, by simp [endTask, hst]⟩
      | _ => cases he
  | done exc => exact absurd hc (hd exc)
  | inHandler ts => simp [TaskOk, hc, hst] at hok
  | pushing inTry r => simp [TaskOk, hc, hst] at hok
  | thrownPushing inTry ts => simp [TaskOk, hc, hst] at hok
  | locking exc => simp [TaskOk, hc, hst] at hok
  | thrownLocking => simp [TaskOk, hc, hst] at hok

theorem Metered.own_step (h : Metered m) (ha : Attributable m e) (hstep : m.step e = some m')
    (hst : (m'.executor.obj t).started = true) :
    m'.context t = some (m'.executor.obj t).data.data := by
  obtain ⟨hs, -, hcontext, -⟩ := step_executor hstep
  have hlt : t < m.executor.nextTask := by
    by_contra hge
    rcases step_new h.inv hs (Nat.le_of_not_lt hge) with ho | ⟨x, ho⟩
    · rw [ho] at hst; cases hst
    · rw [ho] at hst; cases hst
  rw [hcontext, copied, if_neg (by omega), (step_keeps h.inv hs hlt).1]
  by_cases he : ∃ aux, e = .start t aux
  · obtain ⟨aux, rfl⟩ := he
    simp only [entered, Function.update_self, current, ((ha.harmless t).begins aux rfl).1, if_true]
  · have hcontext' : m.entered e t = m.context t := by
      unfold entered
      split
      · rename_i u aux
        rw [Function.update_of_ne]
        rintro rfl
        exact he ⟨aux, rfl⟩
      · rfl
    rw [hcontext']
    refine h.own t ?_
    by_contra hst₀
    obtain ⟨-, hown, b, hc⟩ := begins_scheduled h.inv hs (by simpa using hst₀) hst
    rcases h.leaves hs hlt (by simpa using hst₀) (by simp [hc])
      ((answer_task _ e).symm.trans hown) with ⟨hstart, -⟩ | ⟨-, hst'⟩
    · exact he hstart
    · rw [hst'] at hst; cases hst

theorem Metered.aborted_step (h : Metered m) (ha : Attributable m e) (hstep : m.step e = some m')
    (ht : t < m'.executor.nextTask) (hst : (m'.executor.obj t).started = false) {exc : Option Exc}
    (hd : (m'.executor.obj t).task = .done exc) : m'.creator t ≠ none := by
  obtain ⟨hs, hcreator, -, -⟩ := step_executor hstep
  by_cases hlt : t < m.executor.nextTask
  · rw [hcreator, copied, if_neg (by omega)]
    have hst₀ : (m.executor.obj t).started = false := by
      by_contra hst₀
      rw [(step_keeps h.inv hs hlt).2 (by simpa using hst₀)] at hst
      cases hst
    by_cases hd₀ : ∃ exc, (m.executor.obj t).task = .done exc
    · obtain ⟨exc₀, hd₀⟩ := hd₀
      exact h.aborted t exc₀ hlt hst₀ hd₀
    · by_cases hown : e.task = some t
      · rcases h.leaves hs hlt hst₀ (fun exc₀ hc => hd₀ ⟨exc₀, hc⟩) hown with ⟨-, hst'⟩ | ⟨rfl, -⟩
        · rw [hst'] at hst; cases hst
        · exact ha.begun t rfl
      · refine absurd ?_ hd₀
        rcases step_obj h.inv.books hs hlt (by rw [answered, answer_task]; exact hown) with
          ho | ⟨-, reason, ho⟩
        · rw [ho] at hd; exact ⟨exc, hd⟩
        · rw [ho] at hd
          simp only [killed] at hd
          cases hc : (m.executor.obj t).task <;> simp [hc, Coro.cancelled] at hd
          exact ⟨_, rfl⟩
  · obtain ⟨x, ho⟩ := h.new hs (h.step_inv ha hs) (by omega) ht
    rw [ho] at hd
    cases hd

theorem Metered.once_step (h : Metered m) (ha : Attributable m e) (hstep : m.step e = some m')
    (ht : t < m'.executor.nextTask) :
    (m'.counters.filter fun c => c.1 = t).length + owes (m'.executor.obj t) = 1 := by
  obtain ⟨hs, -, -, hcounters⟩ := step_executor hstep
  have hlen := h.counted_calls ha hs t
  rw [hcounters, List.filter_append, List.length_append, hlen]
  by_cases hlt : t < m.executor.nextTask
  · have hold := h.once t hlt
    by_cases hown : e.task = some t
    · have howed := calls_owed h.inv trivial hs ((answer_task _ e).trans hown)
        (harmless_answer (ha.harmless t) _) fun aux hx => h.answers ha hs hown hx
      rw [if_pos hown]
      omega
    · have hsame : owes (m'.executor.obj t) = owes (m.executor.obj t) := by
        rcases step_obj h.inv.books hs hlt (by rw [answered, answer_task]; exact hown) with
          ho | ⟨-, reason, ho⟩
        · rw [ho]
        · rw [ho, owes_killed]
      rw [if_neg hown]
      omega
  · obtain ⟨x, ho⟩ := h.new hs (h.step_inv ha hs) (by omega) ht
    have hnone : m.counters.filter (fun c => c.1 = t) = [] := by
      rw [List.filter_eq_nil_iff]
      intro c hc hct
      have := h.known c hc
      simp only [decide_eq_true_eq] at hct
      omega
    have hown : e.task ≠ some t := fun he => by
      have := task_lt h.inv hs ((answer_task _ e).trans he)
      omega
    rw [if_neg hown, hnone, ho]
    rfl

theorem Metered.step (h : Metered m) (ha : Attributable m e) (hstep : m.step e = some m') :
    Metered m' := by
  obtain ⟨hs, hcreator, hcontext, hcounters⟩ := step_executor hstep
  have hi' := h.step_inv ha hs
  have htask := answer_task (answer (m.current e)) e
  have hmono := step_nextTask h.inv.books hs
  refine ⟨hi', fun t hst => ?_, fun t d ht hd => ?_, fun t exc ht hst hd => ?_, fun t ht => ?_,
    fun c hc => ?_, fun c hc => ?_⟩
  · exact h.own_step ha hstep hst
  · by_cases hlt : t < m.executor.nextTask
    · rw [hcreator, copied, if_neg (by omega)] at hd
      rw [(step_keeps h.inv hs hlt).1]
      exact h.created t d hlt hd
    · rw [hcreator, copied, if_pos ⟨by omega, ht⟩] at hd
      cases he : e.task with
      | none => rw [current_call he] at hd; cases hd
      | some u =>
        rw [created_job h.inv hi' hs (htask.trans he) (by omega) ht]
        exact (h.current_job ha hs he).1 d hd
  · exact h.aborted_step ha hstep ht hst hd
  · exact h.once_step ha hstep ht
  · rw [hcounters, List.mem_append] at hc
    rcases hc with hc | hc
    · exact Nat.lt_of_lt_of_le (h.known c hc) hmono
    · exact Nat.lt_of_lt_of_le (h.counted_job ha hs hc).1 hmono
  · rw [hcounters, List.mem_append] at hc
    rcases hc with hc | hc
    · rw [(step_keeps h.inv hs (h.known c hc)).1]; exact h.job c hc
    · obtain ⟨hlt, hjob⟩ := h.counted_job ha hs hc
      rw [(step_keeps h.inv hs hlt).1]
      exact hjob

/-! ## Every run -/

theorem metered (h : Reachable Attributable m) : Metered m := by
  obtain ⟨handler, n, hr⟩ := h
  exact hr.invariant (P := Metered) (fun _ _ _ h ha hs => h.step ha hs) (metered_init handler n)

/-- In a run in which nothing goes wrong around a handler and no task that a request created is
cancelled before its first step: whenever `success` or `failed` is called, the run data are set,
and are those of a task of the same job; and a task whose coroutine and cleanup have ended has
been counted once, for its job, and has been finished. -/
theorem metrics_attributed (h : Reachable Attributable m) :
    (∀ e m' t, Attributable m e → m.step e = some m' → e.task = some t →
      (m.answered e).calls m.executor ≠ [] →
        ∃ d, m.current e = some d ∧ d.jobId = (m.executor.obj t).data.jobId) ∧
    ∀ t, t < m.executor.nextTask → (m.executor.obj t).cleanup = .ended →
      (∃ o, m.counters.filter (fun c => c.1 = t) = [(t, o, (m.executor.obj t).data.jobId)]) ∧
        m.executor.finished.count t = 1 := by
  have hm := metered h
  refine ⟨fun e m' t ha hstep he hcalls => ?_, fun t ht hc => ?_⟩
  · obtain ⟨hs, -, -, -⟩ := step_executor hstep
    obtain ⟨hjob, hset⟩ := hm.current_job ha hs he
    cases hd : m.current e with
    | some d => exact ⟨d, rfl, hjob d hd⟩
    | none =>
      obtain ⟨hst, aux, rfl⟩ := hset.resolve_right fun hne => hne hd
      exact absurd (idle_calls hm.inv ⟨hst, _, rfl⟩) hcalls
  · obtain ⟨exc, hd⟩ := (hm.inv.tasks t ht).ended (by rw [hc]; simp)
    have hok := hm.inv.tasks t ht
    simp only [TaskOk, hd, hc] at hok
    refine ⟨?_, List.count_eq_one_of_mem hm.inv.books.once (hok trivial)⟩
    have hone := hm.once t ht
    rw [show owes (m.executor.obj t) = 0 by simp [owes, hd, hc], Nat.add_zero] at hone
    obtain ⟨⟨u, o, j⟩, hlist⟩ := List.length_eq_one_iff.mp hone
    have hmem : (u, o, j) ∈ m.counters.filter fun c => c.1 = t := by rw [hlist]; simp
    obtain ⟨hin, hu⟩ := List.mem_filter.mp hmem
    have hj := hm.job _ hin
    simp only [decide_eq_true_eq] at hu
    simp only at hj
    subst hu
    exact ⟨o, by rw [hlist, hj]⟩

def after (es : List Event) : Option InstrumentedExecutor := run step (init (fun _ => true) 0) es

/-- Task 0, in its handler, is replaced by task 1, which is cancelled before its first step. -/
def replaced : List Event :=
  [.runJob (coverJob 1), .start 0 .quiet, .runJob (coverJob 2),
    .handlerEnds 0 (.error .cancelled) .quiet,
    .cancelJob 1 true [], .abort 1, .resumeCleanup 0 .quiet, .resumeCleanup 1 .quiet,
    .resumeCleanup 1 .quiet]

/-- Task 0 is cancelled before its first step. -/
def killedAtOnce : List Event :=
  [.runJob (serialJob 1), .cancelJob 1 true [], .abort 0, .resumeCleanup 0 .quiet,
    .resumeCleanup 0 .quiet]

/-- The loggers are quiet, the handlers stay, none exits, no `cancel()` comes late, and none comes
before the first step of a task of a request. -/
def undisturbed (m : InstrumentedExecutor) (e : Event) : Bool :=
  (match e.target m.executor with
    | some t => !(m.executor.obj t).task.pastHandler
    | none => true) &&
  match e with
  | .start t aux =>
    aux = .quiet && m.executor.handler (m.executor.obj t).data.data.executorHandler
  | .handlerEnds _ (.error exc) aux => exc.reportable && aux = .quiet
  | .handlerEnds _ (.ok _) aux => aux = .quiet
  | .resumeTask _ aux => aux = .quiet
  | .abort t => (m.creator t).isSome
  | _ => true

theorem attributable_of_undisturbed (h : m.undisturbed e = true) : Attributable m e := by
  simp only [undisturbed, Bool.and_eq_true] at h
  obtain ⟨hg, h⟩ := h
  refine ⟨fun t => ⟨fun aux he => ?_, fun res aux he => ?_, fun aux ts he hc => ?_, fun ht => ?_⟩,
    fun t he => ?_⟩
  · subst he
    simp only [Bool.and_eq_true, decide_eq_true_eq] at h
    obtain ⟨rfl, hh⟩ := h
    exact ⟨hh, rfl, fun e he => by cases he⟩
  · subst he
    intro e he
    cases res with
    | ok v =>
      obtain rfl : aux = .quiet := by simpa using h
      cases he
    | error e' =>
      cases he
      simp only [Bool.and_eq_true, decide_eq_true_eq] at h
      exact ⟨h.1, by rw [h.2]; rfl⟩
  · subst he
    rw [show aux = .quiet by simpa using h]
    rfl
  · rw [ht] at hg
    simpa using hg
  · subst he
    intro hn
    simp [hn] at h

theorem replaced_attributable : Allowed step Attributable (init (fun _ => true) 0) replaced :=
  Allowed.mono (fun _ _ => attributable_of_undisturbed)
    (show Allowed step (fun m e => m.undisturbed e = true) (init (fun _ => true) 0) replaced by decide)

def replacedState : InstrumentedExecutor := (after replaced).get rfl

/-- Task 1 is counted in the context it has from task 0, and finished. -/
theorem metrics_attributed_replaced :
    (∃ o, replacedState.counters.filter (fun c => c.1 = 1) = [(1, o, 1)]) ∧
      replacedState.executor.finished.count 1 = 1 :=
  (metrics_attributed ⟨_, _, .of_allowed replaced_attributable
    (show run step _ replaced = some replacedState from rfl)⟩).2 1 (by decide) rfl

/-- A task that a request created, cancelled before its first step: `failed` is called where no
run data are set. It raises, nothing is counted, and `_finish` is not reached. -/
theorem metrics_unattributed :
    (∃ m m', after (killedAtOnce.take 4) = some m ∧ m.step (.resumeCleanup 0 .quiet) = some m' ∧
      (m.answered (.resumeCleanup 0 .quiet)).calls m.executor = [.failedCallback] ∧
      m.current (.resumeCleanup 0 .quiet) = none) ∧
    ∃ m, after killedAtOnce = some m ∧ (m.executor.obj 0).cleanup = .ended ∧ m.counters = [] ∧
      m.executor.finished = [] ∧ m.executor.tasks 1 = some 0 :=
  ⟨⟨_, _, rfl, rfl, rfl, rfl⟩, _, rfl, rfl, rfl, rfl, rfl⟩

end InstrumentedExecutor
end Pyxxl
