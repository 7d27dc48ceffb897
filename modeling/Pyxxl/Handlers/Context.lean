import Pyxxl.Executor.Moves
import Pyxxl.Executor.Order

/-!
# Pyxxl.Handlers.Context

What a handler sees of the context variables of `pyxxl/context/runtime.py`: `g.xxl_run_data`,
`g.logger` and `g.cancel_event`.

`create_task` copies the context of its caller for the coroutine, `add_done_callback` copies it for
the done-callback, and the cleanup task has the context of the done-callback. `_run` sets the run
data and the logger in its own copy, and `_start_thread` the cancel event. A handler in a child
process has the variables that `process_handler_entry` sets, with run data rebuilt from its fields.

* a logger goes by its `logId`, a `threading.Event` by the task it was made for.
* `caller n`: the context of the `run_job` or `cancel_job` call `n`.
* `creator t`: the context where `_create_task` was called for `t`, and so of its cleanup task.
* `context t`: the context of the coroutine of `t`.
* `origin` and `threaded` record where `creator t` was copied from, and for which tasks a handler in
  thread mode has begun; no code reads them.
* handlers only read the variables. The mode of a handler is the one it is registered with when its
  task begins.
* an observation is what the variables hold when the handler is started; an event of its own may be
  set later, by its own timeout or kill.
* `Inherits`: the task was created, at one or more removes, from a context with a cancel event.
-/

namespace Pyxxl

open Executor Transition

inductive HandlerRunMode where
  | async
  | thread
  | process
  deriving DecidableEq, Repr

inductive CancelEvent where
  | thread (t : Nat)
  /-- An event that was in the context of a call. -/
  | outside (isSet : Bool)
  deriving DecidableEq, Repr

/-- The variables of `GlobalVars` in one context. -/
structure Context where
  data : Option RunData := none
  logger : Option LogId := none
  event : Option CancelEvent := none
  deriving DecidableEq, Repr

inductive Origin where
  | call (context : Context)
  | task (u : Nat)

structure ContextualExecutor where
  executor : Executor
  caller : Nat → Context
  creator : Nat → Context
  context : Nat → Context
  isSet : Nat → Bool
  origin : Nat → Origin
  threaded : Nat → Bool

/-- An event, with the mode of the handler that begins in it and the context of the call that
begins in it. -/
structure Move where
  event : Event
  mode : HandlerRunMode := .async
  context : Context := {}

namespace ContextualExecutor

def init (handler : String → Bool) (taskQueueLength : Int) : ContextualExecutor where
  executor := Executor.init handler taskQueueLength
  caller _ := {}
  creator _ := {}
  context _ := {}
  isSet _ := false
  origin _ := .call {}
  threaded _ := false

/-- `_run` comes to `handler.start`. -/
def begins (m : ContextualExecutor) (t : Nat) (aux : Aux) : Bool :=
  m.executor.handler (m.executor.obj t).data.data.executorHandler && aux.getLogger.isNone &&
    aux.startLog.isNone

/-- The context of `t` at the end of the first stretch of `_run`. -/
def entered (m : ContextualExecutor) (mode : HandlerRunMode) (t : Nat) (aux : Aux) : Context :=
  let d := (m.executor.obj t).data.data
  if m.executor.handler d.executorHandler then
    -- `g.set_xxl_run_data(data)`, then `g.set_task_logger` in `new_logger`
    let c := { m.context t with data := some d }
    if aux.getLogger.isSome then c
    else
      let c := { c with logger := some d.logId }
      if m.begins t aux && mode = .thread then { c with event := some (.thread t) } else c
  else m.context t

/-- The context the event runs in, where it may create a task. -/
def current (m : ContextualExecutor) (x : Move) : Context :=
  match x.event with
  | .start t aux => m.entered x.mode t aux
  | .handlerEnds t _ _ => m.context t
  | .resumeTask t _ => m.context t
  | .abort t => m.creator t
  | .resumeCleanup t _ => m.creator t
  | .resumeCall n => m.caller n
  | _ => x.context

/-- The origin of a task that is created in the event. -/
def source (m : ContextualExecutor) (x : Move) : Origin :=
  match x.event with
  | .start t _ | .handlerEnds t _ _ | .resumeTask t _ => .task t
  | .abort t | .resumeCleanup t _ => m.origin t
  | _ => .call (m.current x)

/-- What holds of the tasks that were created in the event, else of those before it. -/
def created {α : Type} (m : ContextualExecutor) (s' : Executor) (new : α) (old : Nat → α) (u : Nat) :
    α :=
  if m.executor.nextTask ≤ u ∧ u < s'.nextTask then new else old u

def callers (m : ContextualExecutor) (x : Move) : Nat → Context :=
  match x.event with
  | .runJob _ | .cancelJob _ _ _ => Function.update m.caller m.executor.nextCall x.context
  | _ => m.caller

def contexts (m : ContextualExecutor) (x : Move) : Nat → Context :=
  match x.event with
  | .start t aux => Function.update m.context t (m.entered x.mode t aux)
  | _ => m.context

def threads (m : ContextualExecutor) (x : Move) : Nat → Bool :=
  match x.event with
  | .start t aux => Function.update m.threaded t (m.begins t aux && x.mode = .thread)
  | _ => m.threaded

/-- The `except` clause of `_start_thread`. -/
def setEvents (m : ContextualExecutor) (x : Move) : Nat → Bool :=
  match x.event with
  | .handlerEnds t (.error .timeout) _ | .handlerEnds t (.error .cancelled) _ =>
    if m.threaded t then Function.update m.isSet t true else m.isSet
  | _ => m.isSet

def step (m : ContextualExecutor) (x : Move) : Option ContextualExecutor :=
  match m.executor.step x.event with
  | none => none
  | some s' => some {
      executor := s'
      caller := m.callers x
      creator := m.created s' (m.current x) m.creator
      context := m.created s' (m.current x) (m.contexts x)
      isSet := m.setEvents x
      origin := m.created s' (m.source x) m.origin
      threaded := m.threads x }

def Reachable (m : ContextualExecutor) : Prop :=
  ∃ handler taskQueueLength, Steps step Any (init handler taskQueueLength) m

/-! ## What a handler sees -/

/-- `g.cancel_event` as a handler finds it: there is none, it was made for this handler, or it is
somebody else's. -/
inductive CancelView where
  | absent
  | own (isSet : Bool)
  | foreign (isSet : Bool)
  deriving DecidableEq, Repr

structure Observation where
  data : Option RunData
  logger : Option LogId
  cancelEvent : CancelView
  deriving DecidableEq, Repr

def view (m : ContextualExecutor) (t : Nat) : Option CancelEvent → CancelView
  | none => .absent
  | some (.outside b) => .foreign b
  | some (.thread u) => if u = t then .own (m.isSet u) else .foreign (m.isSet u)

/-- `process_handler_entry` up to the handler. -/
def processEntry (d : RunData) : Observation where
  data := some d
  logger := some d.logId
  cancelEvent := .own false

/-- The handler that begins in the event, with its run data, its mode and what it sees. -/
def observes (m : ContextualExecutor) (x : Move) : Option (Nat × Observation) :=
  match x.event with
  | .start t aux =>
    match (m.executor.obj t).task with
    | .scheduled false =>
      if m.begins t aux then
        match x.mode with
        | .process => some (t, processEntry (m.executor.obj t).data.data)
        | _ => some (t, {
            data := (m.current x).data
            logger := (m.current x).logger
            cancelEvent := m.view t (m.current x).event })
      else none
    | _ => none
  | _ => none

/-- Its own run data, its own logger, and an unset event of its own or none at all. -/
def ownView (mode : HandlerRunMode) (d : RunData) : Observation where
  data := some d
  logger := some d.logId
  cancelEvent := if mode = .async then .absent else .own false

/-- Up the tasks from whose contexts the one of `t` was copied, a handler in thread mode had begun,
or the call at the root had a cancel event. -/
inductive Inherits (m : ContextualExecutor) : Nat → Prop where
  | call {t : Nat} {c : Context} : m.origin t = .call c → c.event ≠ none → Inherits m t
  | thread {t u : Nat} : m.origin t = .task u → m.threaded u = true → Inherits m t
  | up {t u : Nat} : m.origin t = .task u → Inherits m u → Inherits m t

variable {m m' : ContextualExecutor} {x : Move} {s' : Executor} {t u : Nat}

theorem step_executor (h : m.step x = some m') : m.executor.step x.event = some m'.executor ∧
    m'.creator = m.created m'.executor (m.current x) m.creator ∧
    m'.context = m.created m'.executor (m.current x) (m.contexts x) ∧
    m'.isSet = m.setEvents x ∧
    m'.origin = m.created m'.executor (m.source x) m.origin ∧
    m'.threaded = m.threads x := by
  simp only [step] at h
  split at h
  · cases h
  · rename_i hs
    cases h
    exact ⟨hs, rfl, rfl, rfl, rfl, rfl⟩

theorem created_old {α : Type} {new : α} {old : Nat → α} (h : u < m.executor.nextTask) :
    m.created s' new old u = old u := if_neg fun hn => Nat.not_le.mpr h hn.1

theorem created_new {α : Type} {new : α} {old : Nat → α} (h : m.executor.nextTask ≤ u)
    (hu : u < s'.nextTask) : m.created s' new old u = new := if_pos ⟨h, hu⟩

/-! ## What holds in every state -/

structure Tracked (m : ContextualExecutor) : Prop where
  inv : Inv (fun _ => False) m.executor
  begun : ∀ t, m.threaded t = true →
    t < m.executor.nextTask ∧ (m.executor.obj t).started = true
  set : ∀ t, m.isSet t = true → m.threaded t = true
  /-- A coroutine has the event of its creator, but for its own. -/
  own : ∀ t, t < m.executor.nextTask → (m.context t).event =
    if m.threaded t = true then some (.thread t) else (m.creator t).event
  /-- The creator has begun, and its context is the one that was copied. -/
  task : ∀ t u, t < m.executor.nextTask → m.origin t = .task u → u < t ∧
    (m.executor.obj u).started = true ∧ (m.creator t).event = (m.context u).event
  call : ∀ t c, t < m.executor.nextTask → m.origin t = .call c → (m.creator t).event = c.event

theorem tracked_init (handler : String → Bool) (n : Int) : Tracked (init handler n) where
  inv := inv_init handler n
  begun t h := by cases h
  set t h := by cases h
  own t ht := absurd ht (Nat.not_lt_zero t)
  task t u ht := absurd ht (Nat.not_lt_zero t)
  call t c ht := absurd ht (Nat.not_lt_zero t)

/-- A task that begins had not begun. -/
theorem Tracked.fresh (h : Tracked m) {aux : Aux} (hs : m.executor.step (.start t aux) = some s') :
    t < m.executor.nextTask ∧ (m.executor.obj t).started = false ∧ m.threaded t = false := by
  have hlt := task_lt h.inv hs rfl
  have hst : (m.executor.obj t).started = false := by
    simp only [Executor.step] at hs
    split at hs
    · rename_i hc
      exact ((h.inv.tasks t hlt).scheduled hc).1
    · cases hs
  refine ⟨hlt, hst, ?_⟩
  cases ht : m.threaded t with
  | false => rfl
  | true =>
    rw [(h.begun t ht).2] at hst
    cases hst

theorem threads_of_ne (h : ∀ aux, x.event ≠ .start t aux) : m.threads x t = m.threaded t := by
  obtain ⟨e, mode, c⟩ := x
  cases e with
  | start u aux => exact Function.update_of_ne (fun hu => h aux (by rw [hu])) _ _
  | _ => rfl

theorem contexts_of_ne (h : ∀ aux, x.event ≠ .start t aux) : m.contexts x t = m.context t := by
  obtain ⟨e, mode, c⟩ := x
  cases e with
  | start u aux => exact Function.update_of_ne (fun hu => h aux (by rw [hu])) _ _
  | _ => rfl

theorem entered_event (m : ContextualExecutor) (mode : HandlerRunMode) (t : Nat) (aux : Aux) :
    (m.entered mode t aux).event =
      if (m.begins t aux && mode = .thread) = true then some (.thread t)
      else (m.context t).event := by
  by_cases hh : m.executor.handler (m.executor.obj t).data.data.executorHandler = true
  · cases hg : aux.getLogger with
    | some e => simp [entered, begins, hh, hg]
    | none =>
      simp only [entered, begins, hh, hg, if_true, Option.isSome_none, Bool.false_eq_true, if_false]
      split
      · rfl
      · rfl
  · simp [entered, begins, hh]

/-- A coroutine that goes on has begun. -/
theorem Tracked.resumed (h : Tracked m) {aux : Aux}
    (hs : m.executor.step (.resumeTask t aux) = some s') : (m.executor.obj t).started = true := by
  have hok := h.inv.tasks t (task_lt h.inv hs rfl)
  simp only [Executor.step, resumeTask] at hs
  split at hs
  · rename_i hc
    simp only [TaskOk, hc] at hok
    exact hok.1
  · rename_i hc
    simp only [TaskOk, hc] at hok
    exact hok.1.1
  · rename_i hc
    simp only [TaskOk, hc] at hok
    exact hok.1
  · rename_i hc
    simp only [TaskOk, hc] at hok
    exact hok.1.1
  · cases hs

/-- Where the code of a task may create one, the task has begun and the context is its own. -/
theorem Tracked.source_task (h : Tracked m) (hs : m.executor.step x.event = some s')
    (hu : m.source x = .task u) : u < m.executor.nextTask ∧ (s'.obj u).started = true ∧
      (m.current x).event = (m.contexts x u).event := by
  obtain ⟨e, mode, c⟩ := x
  have hup : ∀ t, m.origin t = .task u → t < m.executor.nextTask →
      u < m.executor.nextTask ∧ (s'.obj u).started = true ∧
        (m.creator t).event = (m.context u).event := fun t ho ht => by
    obtain ⟨hlt, hst, hevent⟩ := h.task t u ht ho
    have hlt : u < m.executor.nextTask := Nat.lt_trans hlt ht
    exact ⟨hlt, (step_keeps h.inv hs hlt).2 hst, hevent⟩
  cases e with
  | start t aux =>
    cases hu
    have hlt := (h.fresh hs).1
    have hself : m.contexts ⟨.start u aux, mode, c⟩ u = m.entered mode u aux :=
      Function.update_self ..
    refine ⟨hlt, ?_, by rw [hself]; rfl⟩
    simp only [Executor.step] at hs
    split at hs
    · cases hs
      exact startRun_begun hlt aux
    · cases hs
  | handlerEnds t res aux =>
    cases hu
    have hlt := task_lt h.inv hs rfl
    refine ⟨hlt, (step_keeps h.inv hs hlt).2 ?_, rfl⟩
    simp only [Executor.step] at hs
    split at hs
    · rename_i hc
      exact (running_of_inHandler h.inv hlt hc).started
    · cases hs
  | resumeTask t aux =>
    cases hu
    have hlt := task_lt h.inv hs rfl
    exact ⟨hlt, (step_keeps h.inv hs hlt).2 (h.resumed hs), rfl⟩
  | abort t => exact hup t hu (task_lt h.inv hs rfl)
  | resumeCleanup t aux => exact hup t hu (task_lt h.inv hs rfl)
  | _ => cases hu

theorem Tracked.source_call (h : Tracked m) (hs : m.executor.step x.event = some s') {c : Context}
    (hc : m.source x = .call c) : (m.current x).event = c.event := by
  obtain ⟨e, mode, c'⟩ := x
  cases e with
  | start t aux => cases hc
  | handlerEnds t res aux => cases hc
  | resumeTask t aux => cases hc
  | abort t => exact h.call t c (task_lt h.inv hs rfl) hc
  | resumeCleanup t aux => exact h.call t c (task_lt h.inv hs rfl) hc
  | _ =>
    cases hc
    rfl

/-- Only a handler in thread mode sets its event. -/
theorem setEvents_true (ht : m.setEvents x t = true) : m.isSet t = true ∨ m.threaded t = true := by
  have hupdate : ∀ u, (if m.threaded u = true then Function.update m.isSet u true else m.isSet) t =
      true → m.isSet t = true ∨ m.threaded t = true := fun u h => by
    split at h
    · rename_i hu
      by_cases htu : t = u
      · exact .inr (htu ▸ hu)
      · rw [Function.update_of_ne htu] at h
        exact .inl h
    · exact .inl h
  obtain ⟨e, mode, c⟩ := x
  cases e with
  | handlerEnds u res aux =>
    cases res with
    | error exc =>
      cases exc with
      | timeout => exact hupdate u ht
      | cancelled => exact hupdate u ht
      | _ => exact .inl ht
    | ok v => exact .inl ht
  | _ => exact .inl ht

theorem Tracked.step (h : Tracked m) (hs : m.step x = some m') : Tracked m' := by
  obtain ⟨hexec, hcreator, hcontext, hset, horigin, hthreaded⟩ := step_executor hs
  have hstart : ∀ t, (m.executor.obj t).started = true → ∀ aux, x.event ≠ .start t aux := by
    intro t hst aux he
    rw [he] at hexec
    rw [(h.fresh hexec).2.1] at hst
    cases hst
  have hold : ∀ t, m.executor.nextTask ≤ t → ∀ aux, x.event ≠ .start t aux := by
    intro t ht aux he
    rw [he] at hexec
    exact Nat.not_le.mpr (h.fresh hexec).1 ht
  refine ⟨(step_good h.inv (fun _ hf => hf.elim) hexec).1, fun t ht => ?_, fun t ht => ?_,
    fun t ht => ?_, fun t u ht ho => ?_, fun t c ht ho => ?_⟩
  · rw [hthreaded] at ht
    by_cases hx : ∃ aux, x.event = .start t aux
    · obtain ⟨aux, he⟩ := hx
      have hsource : m.source x = .task t := by rw [source, he]
      obtain ⟨hlt, hst, -⟩ := h.source_task hexec hsource
      exact ⟨Nat.lt_of_lt_of_le hlt (step_nextTask h.inv.books hexec), hst⟩
    · rw [threads_of_ne (not_exists.mp hx)] at ht
      obtain ⟨hlt, hst⟩ := h.begun t ht
      exact ⟨Nat.lt_of_lt_of_le hlt (step_nextTask h.inv.books hexec),
        (step_keeps h.inv hexec hlt).2 hst⟩
  · rw [hset] at ht
    have hth : m.threaded t = true := (setEvents_true ht).elim (h.set t) id
    rw [hthreaded, threads_of_ne (hstart t (h.begun t hth).2), hth]
  · rw [hcontext, hcreator, hthreaded]
    by_cases hlt : t < m.executor.nextTask
    · rw [created_old hlt, created_old hlt]
      by_cases hx : ∃ aux, x.event = .start t aux
      · obtain ⟨aux, he⟩ := hx
        have hth : m.threaded t = false := (h.fresh (he ▸ hexec)).2.2
        have hown := h.own t hlt
        rw [hth, if_neg Bool.false_ne_true] at hown
        have hc : m.contexts x t = m.entered x.mode t aux := by
          rw [contexts, he]
          exact Function.update_self ..
        have ht' : m.threads x t = (m.begins t aux && x.mode = .thread) := by
          rw [threads, he]
          exact Function.update_self ..
        rw [hc, ht', entered_event, hown]
      · rw [contexts_of_ne (not_exists.mp hx), threads_of_ne (not_exists.mp hx)]
        exact h.own t hlt
    · have hle : m.executor.nextTask ≤ t := Nat.not_lt.mp hlt
      have hth : m.threads x t = false := by
        rw [threads_of_ne (hold t hle)]
        cases hth : m.threaded t with
        | false => rfl
        | true => exact absurd (h.begun t hth).1 hlt
      rw [created_new hle ht, created_new hle ht, hth, if_neg Bool.false_ne_true]
  · rw [hcreator, hcontext]
    by_cases hlt : t < m.executor.nextTask
    · rw [horigin, created_old hlt] at ho
      obtain ⟨hut, hst, hevent⟩ := h.task t u hlt ho
      have hu : u < m.executor.nextTask := Nat.lt_trans hut hlt
      rw [created_old hlt, created_old hu, contexts_of_ne (hstart u hst)]
      exact ⟨hut, (step_keeps h.inv hexec hu).2 hst, hevent⟩
    · have hle : m.executor.nextTask ≤ t := Nat.not_lt.mp hlt
      rw [horigin, created_new hle ht] at ho
      obtain ⟨hu, hst, hevent⟩ := h.source_task hexec ho
      rw [created_new hle ht, created_old hu]
      exact ⟨Nat.lt_of_lt_of_le hu hle, hst, hevent⟩
  · rw [hcreator]
    by_cases hlt : t < m.executor.nextTask
    · rw [horigin, created_old hlt] at ho
      rw [created_old hlt]
      exact h.call t c hlt ho
    · have hle : m.executor.nextTask ≤ t := Nat.not_lt.mp hlt
      rw [horigin, created_new hle ht] at ho
      rw [created_new hle ht]
      exact h.source_call hexec ho

theorem reachable_tracked (h : Reachable m) : Tracked m := by
  obtain ⟨handler, n, hr⟩ := h
  exact hr.invariant (fun _ _ _ hi _ hs => hi.step hs) (tracked_init handler n)

/-- The creator's context has a cancel event exactly if one was left there. -/
theorem Tracked.inherits_iff (h : Tracked m) (ht : t < m.executor.nextTask) :
    (m.creator t).event ≠ none ↔ Inherits m t := by
  induction t using Nat.strongRecOn with
  | ind t ih =>
    cases ho : m.origin t with
    | call c =>
      rw [h.call t c ht ho]
      refine ⟨fun hc => .call ho hc, fun hi => ?_⟩
      cases hi with
      | call ho' hc =>
        cases ho.symm.trans ho'
        exact hc
      | thread ho' _ => cases ho.symm.trans ho'
      | up ho' _ => cases ho.symm.trans ho'
    | task u =>
      obtain ⟨hut, -, hevent⟩ := h.task t u ht ho
      have hu : u < m.executor.nextTask := Nat.lt_trans hut ht
      rw [hevent, h.own u hu]
      cases hth : m.threaded u with
      | true =>
        rw [if_pos rfl]
        exact ⟨fun _ => .thread ho hth, fun _ => nofun⟩
      | false =>
        rw [if_neg Bool.false_ne_true, ih u hut hu]
        refine ⟨fun hi => .up ho hi, fun hi => ?_⟩
        cases hi with
        | call ho' _ => cases ho.symm.trans ho'
        | thread ho' hth' =>
          cases ho.symm.trans ho'
          rw [hth] at hth'
          cases hth'
        | up ho' hi' =>
          cases ho.symm.trans ho'
          exact hi'

/-! ## One handler -/

theorem entered_begins (mode : HandlerRunMode) {aux : Aux} (hb : m.begins t aux = true) :
    (m.entered mode t aux).data = some (m.executor.obj t).data.data ∧
      (m.entered mode t aux).logger = some (m.executor.obj t).data.data.logId := by
  have hb' := hb
  simp only [begins, Bool.and_eq_true, Option.isNone_iff_eq_none] at hb'
  simp only [entered, hb'.1.1, hb'.1.2, if_true, Option.isSome_none, Bool.false_eq_true, if_false]
  split
  · exact ⟨rfl, rfl⟩
  · exact ⟨rfl, rfl⟩

theorem view_absent (e : Option CancelEvent) : m.view t e = .absent ↔ e = none := by
  cases e with
  | none => exact iff_of_true rfl rfl
  | some e =>
    refine iff_of_false (fun h => ?_) nofun
    cases e with
    | outside b => cases h
    | thread u =>
      simp only [view] at h
      split at h
      · cases h
      · cases h

/-- What the variables hold in the coroutine where a handler begins. -/
theorem observes_start {o : Observation} (ho : m.observes x = some (t, o)) : ∃ aux,
    (m.executor.obj t).task = .scheduled false ∧ m.begins t aux = true ∧
      o = if x.mode = .process then processEntry (m.executor.obj t).data.data
        else {
          data := (m.entered x.mode t aux).data
          logger := (m.entered x.mode t aux).logger
          cancelEvent := m.view t (m.entered x.mode t aux).event } := by
  obtain ⟨e, mode, c⟩ := x
  cases e with
  | start u aux =>
    simp only [observes] at ho
    split at ho
    · rename_i htask
      split at ho
      · rename_i hb
        cases mode with
        | process =>
          cases ho
          exact ⟨aux, htask, hb, rfl⟩
        | thread =>
          cases ho
          exact ⟨aux, htask, hb, rfl⟩
        | async =>
          cases ho
          exact ⟨aux, htask, hb, rfl⟩
      · cases ho
    · cases ho
  | _ => cases ho

/-- A handler sees its own variables exactly if it is not an async one that inherits an event. -/
theorem Tracked.observes_own (h : Tracked m) {o : Observation} (ho : m.observes x = some (t, o)) :
    o = ownView x.mode (m.executor.obj t).data.data ↔ (x.mode = .async → ¬Inherits m t) := by
  obtain ⟨aux, htask, hb, rfl⟩ := observes_start ho
  have hlt : t < m.executor.nextTask := h.inv.lt_of_obj fun hn => by
    rw [hn] at htask
    cases htask
  have hth : m.threaded t = false := by
    cases hth : m.threaded t with
    | false => rfl
    | true =>
      have hst := (h.begun t hth).2
      rw [((h.inv.tasks t hlt).scheduled htask).1] at hst
      cases hst
  have hset : m.isSet t = false := by
    cases hs : m.isSet t with
    | false => rfl
    | true =>
      rw [h.set t hs] at hth
      cases hth
  have hown := h.own t hlt
  rw [hth, if_neg Bool.false_ne_true] at hown
  obtain ⟨hdata, hlogger⟩ := entered_begins x.mode hb
  have hevent := m.entered_event x.mode t aux
  rw [hb, Bool.true_and] at hevent
  cases hmode : x.mode with
  | process => exact iff_of_true rfl nofun
  | thread =>
    rw [hmode] at hdata hlogger hevent
    refine iff_of_true ?_ nofun
    simp only [hdata, hlogger, hevent, decide_true, if_true, view, hset]
    rfl
  | async =>
    rw [hmode] at hdata hlogger hevent
    have hnone : (m.entered .async t aux).event = (m.creator t).event := hevent.trans hown
    simp only [reduceCtorEq, if_false, hdata, hlogger, hnone, ownView, if_true, Observation.mk.injEq,
      true_and, view_absent, forall_const]
    rw [← h.inherits_iff hlt, not_not]

/-- Two handlers with the same run data and the same mode, in any two runs, see the same, and each
its own variables, exactly if they are not async or neither inherits an event. -/
theorem context_own {m₁ m₂ : ContextualExecutor} {x₁ x₂ : Move} {t₁ t₂ : Nat} {o₁ o₂ : Observation}
    (h₁ : m₁.Reachable) (h₂ : m₂.Reachable) (hx₁ : m₁.observes x₁ = some (t₁, o₁))
    (hx₂ : m₂.observes x₂ = some (t₂, o₂)) (hmode : x₂.mode = x₁.mode)
    (hdata : (m₂.executor.obj t₂).data.data = (m₁.executor.obj t₁).data.data) :
    (o₁ = o₂ ∧ o₁ = ownView x₁.mode (m₁.executor.obj t₁).data.data) ↔
      (x₁.mode = .async → ¬Inherits m₁ t₁ ∧ ¬Inherits m₂ t₂) := by
  have ho₁ := (reachable_tracked h₁).observes_own hx₁
  have ho₂ := (reachable_tracked h₂).observes_own hx₂
  rw [hmode, hdata] at ho₂
  constructor
  · rintro ⟨heq, hown⟩ hasync
    exact ⟨ho₁.mp hown hasync, ho₂.mp (heq ▸ hown) hasync⟩
  · intro h
    have hown₁ := ho₁.mpr fun hasync => (h hasync).1
    have hown₂ := ho₂.mpr fun hasync => (h hasync).2
    exact ⟨hown₁.trans hown₂.symm, hown₁⟩

/-! ## A trigger after a timeout -/

def slow : RunData := ⟨1, 10, "slow", "SERIAL_EXECUTION", none⟩

def next : RunData := ⟨1, 11, "next", "SERIAL_EXECUTION", none⟩

/-- The trigger finds the job idle. -/
def alone : List Move := [⟨.runJob next, .async, {}⟩]

/-- The trigger waits for a handler in thread mode that runs into its timeout. -/
def behind : List Move :=
  [⟨.runJob slow, .async, {}⟩, ⟨.start 0 .quiet, .thread, {}⟩, ⟨.runJob next, .async, {}⟩,
    ⟨.handlerEnds 0 (.error .timeout) .quiet, .async, {}⟩]

def ran (xs : List Move) : Option ContextualExecutor :=
  run step (init (fun _ => true) 30) xs

theorem ran_reachable (xs : List Move) (h : ran xs = some m) : m.Reachable :=
  ⟨_, _, Steps.of_run (fun _ _ _ => trivial) h⟩

/-- In thread mode both see an unset event of their own. -/
theorem context_own_thread : ∃ m₁ m₂ o₁ o₂, ran alone = some m₁ ∧ ran behind = some m₂ ∧
    m₁.observes ⟨.start 0 .quiet, .thread, {}⟩ = some (0, o₁) ∧
    m₂.observes ⟨.start 1 .quiet, .thread, {}⟩ = some (1, o₂) ∧
    o₁ = o₂ ∧ o₁ = ownView .thread (m₁.executor.obj 0).data.data := by
  have hdata₁ : (ran alone).map (fun m => (m.executor.obj 0).data.data) = some next := rfl
  have hdata₂ : (ran behind).map (fun m => (m.executor.obj 1).data.data) = some next := rfl
  have hx₁ : (ran alone).bind (·.observes ⟨.start 0 .quiet, .thread, {}⟩) =
    some (0, ownView .thread next) := rfl
  have hx₂ : (ran behind).bind (·.observes ⟨.start 1 .quiet, .thread, {}⟩) =
    some (1, ownView .thread next) := rfl
  obtain ⟨m₁, hm₁, ho₁⟩ := Option.bind_eq_some_iff.mp hx₁
  obtain ⟨m₂, hm₂, ho₂⟩ := Option.bind_eq_some_iff.mp hx₂
  rw [hm₁, Option.map_some, Option.some.injEq] at hdata₁
  rw [hm₂, Option.map_some, Option.some.injEq] at hdata₂
  exact ⟨m₁, m₂, _, _, hm₁, hm₂, ho₁, ho₂,
    (context_own (ran_reachable alone hm₁) (ran_reachable behind hm₂) ho₁ ho₂ rfl
      (hdata₂.trans hdata₁.symm)).mpr nofun⟩

/-- An async handler sees the event of the handler before it, which is set. -/
theorem context_inherited :
    ((ran alone).bind fun m => (m.observes ⟨.start 0 .quiet, .async, {}⟩).map (·.2)) =
        some (ownView .async next) ∧
      ((ran behind).bind fun m => (m.observes ⟨.start 1 .quiet, .async, {}⟩).map (·.2)) =
        some { ownView .async next with cancelEvent := .foreign true } :=
  ⟨rfl, rfl⟩

end ContextualExecutor
end Pyxxl
