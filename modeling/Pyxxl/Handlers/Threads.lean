import Pyxxl.Executor.AtRest
import Pyxxl.Executor.Order
import Pyxxl.Lib.Pool

/-!
# Pyxxl.Handlers.Threads

Thread mode: `HandlerInfo._start_thread` (`pyxxl/runtime/handlers.py`) over the thread pool that
`Executor.__init__` makes the default executor of the loop.

* the `to_thread` of a task is called once its coroutine is in the handler, in the same stretch or
  in a later one (`submit`).
* a task that runs into its timeout, or is cancelled, leaves `_start_thread` at once; its function
  cannot be stopped, and is only told by the cancel event.
* the pool also runs what others give it: `aiofiles`, the scan for expired logs, `process.join`.
* `Does s e s'`: what an event can do to the tasks and the pool; `Sound s`: the invariant.
* `threads_overlap`: which functions may run at a time. `threads_finish`: where functions return,
  each gets its turn; where too many hang, none does.
-/

namespace Pyxxl

open Transition Executor

namespace Threads

/-- What is given to the pool: the function of a task's handler, or anything else. -/
inductive Job where
  | handler (t : Nat)
  | other (n : Nat)
  deriving DecidableEq

end Threads

open Threads

/-- `cancelEvent`: for a task in another mode it has no meaning. -/
structure Threads where
  executor : Executor
  pool : Pool Job
  submitted : Nat → Bool
  result : Nat → Option (Except Exc PyVal)
  cancelEvent : Nat → Bool

namespace Threads

variable {s s' : Threads} {t u : Nat} {j : JobId}

def init (handler : String → Bool) (taskQueueLength : Int) (maxWorkers : Nat) : Threads where
  executor := .init handler taskQueueLength
  pool := .init maxWorkers
  submitted _ := false
  result _ := none
  cancelEvent _ := false

/-- What the `except` branch of `_start_thread` catches. -/
def abandons : Except Exc PyVal → Bool
  | .error .timeout | .error .cancelled => true
  | _ => false

/-- `event.set()`; the future of `to_thread` has been cancelled before. -/
def abandon (s : Threads) (t : Nat) : Threads :=
  { s with
    pool := s.pool.cancel (.handler t)
    cancelEvent := Function.update s.cancelEvent t true }

/-- `_start_thread` is left with `res`, and `_run` goes on with it. -/
def leave (s : Threads) (t : Nat) (res : Except Exc PyVal) (aux : Aux) : Option Threads :=
  (s.executor.step (.handlerEnds t res aux)).map fun x =>
    { (if abandons res then s.abandon t else s) with executor := x }

def inHandler (s : Threads) (t : Nat) : Bool :=
  match (s.executor.obj t).task with
  | .inHandler _ => true
  | _ => false

inductive Event where
  | executor (e : Executor.Event)
  /-- `asyncio.to_thread(self.handler)`. -/
  | submit (t : Nat)
  | submitOther (n : Nat)
  | cancelOther (n : Nat)
  /-- A worker takes the next job. -/
  | take
  | returns (t : Nat) (res : Except Exc PyVal)
  | otherReturns (n : Nat)
  /-- `wait_for` returns or raises what the function has returned or raised. -/
  | awaited (t : Nat) (aux : Aux)

def step (s : Threads) : Event → Option Threads
  | .executor (.handlerEnds t res aux) =>
    if s.submitted t && !abandons res then none else s.leave t res aux
  | .executor e => (s.executor.step e).map fun x => { s with executor := x }
  | .submit t =>
    if s.inHandler t && !s.submitted t then
      some { s with
        pool := s.pool.submit (.handler t)
        submitted := Function.update s.submitted t true }
    else none
  | .submitOther n =>
    if s.pool.Known (.other n) then none else some { s with pool := s.pool.submit (.other n) }
  | .cancelOther n => some { s with pool := s.pool.cancel (.other n) }
  | .take => s.pool.take.map fun p => { s with pool := p }
  | .returns t res =>
    (s.pool.ret (.handler t)).map fun p =>
      { s with pool := p, result := Function.update s.result t (some res) }
  | .otherReturns n => (s.pool.ret (.other n)).map fun p => { s with pool := p }
  | .awaited t aux =>
    match s.result t with
    | some res => s.leave t res aux
    | none => none

/-- A state some run reaches, whatever happens. -/
def Reachable (s : Threads) : Prop :=
  ∃ handler taskQueueLength maxWorkers,
    Steps step Any (init handler taskQueueLength maxWorkers) s

/-! ## What an event does -/

/-- What happens in the pool without the tasks. -/
inductive Others (p p' : Pool Job) : Prop where
  | submits (n : Nat) (hn : ¬p.Known (.other n)) (he : p' = p.submit (.other n))
  | cancels (n : Nat) (he : p' = p.cancel (.other n))
  | takes (hp : p.take = some p')

inductive Does (s : Threads) (e : Event) (s' : Threads) : Prop where
  | goes (m : Executor.Event) (x : Executor) (hx : s.executor.step m = some x)
      (hr : ∀ t res aux, m = .handlerEnds t res aux → s.submitted t = true → s.result t ≠ none)
      (he : s' = { s with executor := x })
  | abandons (t : Nat) (res : Except Exc PyVal) (aux : Aux) (x : Executor)
      (hx : s.executor.step (.handlerEnds t res aux) = some x)
      (he : s' = { s.abandon t with executor := x })
  | submits (t : Nat) (hin : s.inHandler t = true) (hsub : s.submitted t = false)
      (he : s' = { s with
        pool := s.pool.submit (.handler t)
        submitted := Function.update s.submitted t true })
  | returns (t : Nat) (res : Except Exc PyVal) (p : Pool Job) (hm : e = .returns t res)
      (hp : s.pool.ret (.handler t) = some p)
      (he : s' = { s with pool := p, result := Function.update s.result t (some res) })
  | otherReturns (n : Nat) (p : Pool Job) (hm : e = .otherReturns n)
      (hp : s.pool.ret (.other n) = some p) (he : s' = { s with pool := p })
  | other (p : Pool Job) (hp : Others s.pool p) (he : s' = { s with pool := p })

theorem leave_does {e : Event} {res : Except Exc PyVal} {aux : Aux}
    (hr : abandons res = false → s.submitted t = true → s.result t ≠ none)
    (hs : s.leave t res aux = some s') : Does s e s' := by
  obtain ⟨x, hx, rfl⟩ := Option.map_eq_some_iff.mp hs
  cases hab : abandons res with
  | true => exact .abandons t res aux x hx rfl
  | false =>
    refine .goes _ x hx (fun u res' aux' he hsub => ?_) rfl
    cases he
    exact hr hab hsub

theorem step_does {e : Event} (hs : step s e = some s') : Does s e s' := by
  cases e with
  | executor m =>
    have hplain : (∀ t res aux, m ≠ .handlerEnds t res aux) →
        (s.executor.step m).map (fun x => { s with executor := x }) = some s' →
          Does s (.executor m) s' := by
      intro hne hmap
      obtain ⟨x, hx, rfl⟩ := Option.map_eq_some_iff.mp hmap
      exact .goes m x hx (fun t res aux he => absurd he (hne t res aux)) rfl
    cases m with
    | handlerEnds t res aux =>
      simp only [step] at hs
      split at hs
      · cases hs
      · rename_i hguard
        refine leave_does (fun hab hsub => ?_) hs
        simp [hab, hsub] at hguard
    | _ => exact hplain (fun t res aux he => by cases he) hs
  | submit t =>
    simp only [step] at hs
    split at hs
    · rename_i hguard
      simp only [Bool.and_eq_true, Bool.not_eq_true'] at hguard
      cases hs
      exact .submits t hguard.1 hguard.2 rfl
    · cases hs
  | submitOther n =>
    simp only [step] at hs
    split at hs
    · cases hs
    · rename_i hnew
      cases hs
      exact .other _ (.submits n hnew rfl) rfl
  | cancelOther n => cases hs; exact .other _ (.cancels n rfl) rfl
  | take =>
    obtain ⟨p, hp, rfl⟩ := Option.map_eq_some_iff.mp hs
    exact .other p (.takes hp) rfl
  | returns t res =>
    obtain ⟨p, hp, rfl⟩ := Option.map_eq_some_iff.mp hs
    exact .returns t res p rfl hp rfl
  | otherReturns n =>
    obtain ⟨p, hp, rfl⟩ := Option.map_eq_some_iff.mp hs
    exact .otherReturns n p rfl hp rfl
  | awaited t aux =>
    simp only [step] at hs
    split at hs
    · rename_i res hr
      exact leave_does (fun _ _ hn => by rw [hr] at hn; cases hn) hs
    · cases hs

/-! ## The invariant -/

/-- The coroutine of the task is past its handler. -/
def Past (x : Executor) (t : Nat) : Prop := t < x.nextTask ∧ (x.obj t).effort ≤ 8

structure Sound (s : Threads) : Prop where
  inv : Inv (fun _ => False) s.executor
  pool : s.pool.Ok
  known : ∀ t, s.pool.Known (.handler t) ↔ s.submitted t = true
  waiting : ∀ t, s.submitted t = true → s.cancelEvent t = false → s.result t = none →
    s.inHandler t = true
  given : ∀ t, s.result t ≠ none → s.submitted t = true
  returned : ∀ t, .handler t ∈ s.pool.returned → s.result t ≠ none
  unreturned : ∀ t, .handler t ∈ s.pool.queue ∨ .handler t ∈ s.pool.running → s.result t = none
  left : ∀ t, s.cancelEvent t = true → Past s.executor t
  dropped : ∀ t, s.cancelEvent t = true → .handler t ∈ s.pool.queue →
    .handler t ∈ s.pool.cancelled
  told : ∀ t, .handler t ∈ s.pool.cancelled → s.cancelEvent t = true

theorem sound_init (handler : String → Bool) (q : Int) (n : Nat) : Sound (init handler q n) where
  inv := inv_init handler q
  pool := Pool.ok_init n
  known t := ⟨fun h => absurd h (Pool.not_known_init n _), fun h => by cases h⟩
  waiting t h := by cases h
  given t h := absurd rfl h
  returned t h := by cases h
  unreturned t _ := rfl
  left t h := by cases h
  dropped t h := by cases h
  told t h := by cases h

theorem Past.notInHandler (h : Past s.executor t) : s.inHandler t = false := by
  unfold inHandler
  split
  · rename_i ts hc
    have hle := h.2
    simp only [XXLTask.effort, hc, Coro.effort] at hle
    omega
  · rfl

/-! ## What the executor does meanwhile -/

theorem effort_inHandler {x : Executor} (hi : Inv (fun _ => False) x) {ts : Int}
    (hc : (x.obj t).task = .inHandler ts) : (x.obj t).effort = 9 ∧ t < x.nextTask := by
  have hlt : t < x.nextTask := hi.lt_of_obj fun ho => by rw [ho] at hc; cases hc
  have hok := hi.tasks t hlt
  simp only [TaskOk, hc] at hok
  exact ⟨by simp [XXLTask.effort, hc, hok.2.2.1, Coro.effort, Cleanup.effort], hlt⟩

/-- A task that is past its handler never comes back to it. -/
theorem Past.step {x x' : Executor} {e : Executor.Event} (h : Past x t)
    (hi : Inv (fun _ => False) x) (hx : x.step e = some x') : Past x' t := by
  refine ⟨Nat.lt_of_lt_of_le h.1 (step_nextTask hi.books hx), ?_⟩
  by_cases he : e.task = some t
  · have hless := task_effort hi hx he
    have hle := h.2
    omega
  · rcases step_obj hi.books hx h.1 he with ho | ⟨-, reason, ho⟩
    · rw [ho]; exact h.2
    · rw [ho]
      exact Nat.le_trans (effort_killed reason _) h.2

/-- A handler ends in one way only. -/
theorem inHandler_step {x x' : Executor} {e : Executor.Event} {ts : Int}
    (hi : Inv (fun _ => False) x) (hx : x.step e = some x')
    (he : ∀ res aux, e ≠ .handlerEnds t res aux) (hc : (x.obj t).task = .inHandler ts) :
    (x'.obj t).task = .inHandler ts := by
  obtain ⟨-, hlt⟩ := effort_inHandler hi hc
  have hok := hi.tasks t hlt
  simp only [TaskOk, hc] at hok
  by_cases ht : e.task = some t
  · cases e with
    | start u aux => cases ht; simp [Executor.step, hc] at hx
    | abort u => cases ht; simp [Executor.step, hc] at hx
    | handlerEnds u res aux => cases ht; exact absurd rfl (he res aux)
    | resumeTask u aux => cases ht; simp [Executor.step, resumeTask, hc] at hx
    | resumeCleanup u aux => cases ht; simp [Executor.step, resumeCleanup, hok.2.2.1] at hx
    | _ => cases ht
  · rcases step_obj hi.books hx hlt ht with ho | ⟨-, reason, ho⟩
    · rw [ho]; exact hc
    · rw [ho]
      simp only [killed, hc, Coro.cancelled]

theorem inHandler_iff : s.inHandler t = true ↔ ∃ ts, (s.executor.obj t).task = .inHandler ts := by
  unfold inHandler
  split
  · rename_i ts hc; exact ⟨fun _ => ⟨ts, hc⟩, fun _ => rfl⟩
  · rename_i hne; exact ⟨fun h => (by cases h), fun ⟨ts, hc⟩ => absurd hc (hne ts)⟩

theorem Sound.executor {x : Executor} {e : Executor.Event} (h : Sound s)
    (hx : s.executor.step e = some x)
    (hr : ∀ t res aux, e = .handlerEnds t res aux → s.submitted t = true → s.result t ≠ none) :
    Sound { s with executor := x } where
  inv := (step_good h.inv (fun _ hf => hf.elim) hx).1
  pool := h.pool
  known := h.known
  waiting t hs hc hn := by
    obtain ⟨ts, hin⟩ := inHandler_iff.mp (h.waiting t hs hc hn)
    refine inHandler_iff.mpr ⟨ts, inHandler_step h.inv hx (fun res aux he => ?_) hin⟩
    exact hr t res aux he hs hn
  given := h.given
  returned := h.returned
  unreturned := h.unreturned
  left t hc := (h.left t hc).step h.inv hx
  dropped := h.dropped
  told := h.told

/-! ## One event -/

theorem Sound.abandons {res : Except Exc PyVal} {aux : Aux} {x : Executor} (h : Sound s)
    (hx : s.executor.step (.handlerEnds t res aux) = some x) :
    Sound { s.abandon t with executor := x } := by
  have hin : ∃ ts, (s.executor.obj t).task = .inHandler ts := by
    simp only [Executor.step] at hx
    split at hx
    · exact ⟨_, by assumption⟩
    · cases hx
  obtain ⟨ts, hin⟩ := hin
  obtain ⟨heff, hlt⟩ := effort_inHandler h.inv hin
  have hpast : Past x t := by
    refine ⟨Nat.lt_of_lt_of_le hlt (step_nextTask h.inv.books hx), ?_⟩
    have hless := task_effort h.inv hx (t := t) rfl
    omega
  refine ⟨(step_good h.inv (fun _ hf => hf.elim) hx).1, h.pool.cancel _, fun u => ?_,
    fun u hsub hc hres => ?_, h.given, fun u hu => ?_, fun u hu => ?_, fun u hc => ?_,
    fun u hc hu => ?_, fun u hu => ?_⟩
  · exact Pool.known_cancel.trans (h.known u)
  · by_cases hut : u = t
    · subst hut
      simp [abandon] at hc
    · have hc' : s.cancelEvent u = false := by simpa [abandon, hut] using hc
      obtain ⟨ts', hin'⟩ := inHandler_iff.mp (h.waiting u hsub hc' hres)
      refine inHandler_iff.mpr ⟨ts', inHandler_step h.inv hx (fun res' aux' he => ?_) hin'⟩
      cases he
      exact hut rfl
  · refine h.returned u ?_
    rwa [abandon, Pool.returned_cancel] at hu
  · refine h.unreturned u ?_
    rwa [abandon, Pool.queue_cancel, Pool.running_cancel] at hu
  · by_cases hut : u = t
    · subst hut; exact hpast
    · exact (h.left u (by simpa [abandon, hut] using hc)).step h.inv hx
  · have hq : Job.handler u ∈ s.pool.queue := by simpa [abandon, Pool.queue_cancel] using hu
    refine Pool.mem_cancel.mpr ?_
    by_cases hut : u = t
    · subst hut; exact .inr ⟨rfl, hq⟩
    · exact .inl (h.dropped u (by simpa [abandon, hut] using hc) hq)
  · by_cases hut : u = t
    · subst hut; simp [abandon]
    · rcases Pool.mem_cancel.mp hu with hc | ⟨he, -⟩
      · simpa [abandon, hut] using h.told u hc
      · cases he
        exact absurd rfl hut

theorem running_take {p : Pool Job} (hs : s.pool.take = some p) (hu : .handler u ∈ p.running) :
    .handler u ∈ s.pool.running ∨ .handler u ∈ s.pool.queue := by
  cases Pool.take_cases hs with
  | drops i rest hq hc he => subst he; exact .inl hu
  | begins i rest hq hc hw he =>
    subst he
    rcases List.mem_append.mp hu with hr | hi
    · exact .inl hr
    · rw [List.mem_singleton.mp hi, hq]
      exact .inr (List.mem_cons_self ..)

theorem Sound.pooled {p : Pool Job} (h : Sound s) (hp : p.Ok)
    (hknown : ∀ u, p.Known (.handler u) ↔ s.pool.Known (.handler u))
    (hreturned : ∀ u, .handler u ∈ p.returned → .handler u ∈ s.pool.returned)
    (hplace : ∀ u, .handler u ∈ p.queue ∨ .handler u ∈ p.running →
      .handler u ∈ s.pool.queue ∨ .handler u ∈ s.pool.running)
    (hcancelled : ∀ u, .handler u ∈ p.cancelled ↔ .handler u ∈ s.pool.cancelled)
    (hqueue : ∀ u, .handler u ∈ p.queue → .handler u ∈ s.pool.queue) :
    Sound { s with pool := p } where
  inv := h.inv
  pool := hp
  known u := (hknown u).trans (h.known u)
  waiting := h.waiting
  given := h.given
  returned u hu := h.returned u (hreturned u hu)
  unreturned u hu := h.unreturned u (hplace u hu)
  left := h.left
  dropped u hc hu := (hcancelled u).mpr (h.dropped u hc (hqueue u hu))
  told u hu := h.told u ((hcancelled u).mp hu)

theorem Sound.submit (h : Sound s) (hin : s.inHandler t = true) (hsub : s.submitted t = false) :
    Sound { s with
      pool := s.pool.submit (.handler t)
      submitted := Function.update s.submitted t true } := by
  have hnew : ¬s.pool.Known (.handler t) := fun hk => by
    rw [(h.known t).mp hk] at hsub
    cases hsub
  have hnone : s.result t = none := by
    by_contra hne
    rw [h.given t hne] at hsub
    cases hsub
  refine ⟨h.inv, h.pool.submit hnew, fun u => ?_, fun u hu hc hr => ?_, fun u hr => ?_,
    h.returned, fun u hu => ?_, h.left, fun u hc hu => ?_, h.told⟩
  · rw [Pool.known_submit]
    by_cases hut : u = t
    · subst hut; simp
    · simp [hut, h.known u]
  · by_cases hut : u = t
    · subst hut; exact hin
    · exact h.waiting u (by simpa [hut] using hu) hc hr
  · by_cases hut : u = t
    · subst hut; simp
    · simpa [hut] using h.given u hr
  · by_cases hut : u = t
    · subst hut; exact hnone
    · refine h.unreturned u ?_
      simpa [Pool.submit, hut] using hu
  · by_cases hut : u = t
    · subst hut
      rw [(h.left u hc).notInHandler] at hin
      cases hin
    · exact h.dropped u hc (by simpa [Pool.submit, hut] using hu)

theorem Sound.returns {p : Pool Job} {res : Except Exc PyVal} (h : Sound s)
    (hs : s.pool.ret (.handler t) = some p) :
    Sound { s with pool := p, result := Function.update s.result t (some res) } := by
  have hret := Pool.ret_cases hs
  have hsub : s.submitted t = true := (h.known t).mp (.inr (.inr (.inl hret.1)))
  refine ⟨h.inv, h.pool.ret hs, fun u => (Pool.known_ret hs).trans (h.known u),
    fun u hu hc hr => ?_, fun u hr => ?_, fun u hu => ?_, fun u hu => ?_, h.left,
    fun u hc hu => ?_, fun u hu => ?_⟩
  · by_cases hut : u = t
    · subst hut; simp at hr
    · exact h.waiting u hu hc (by simpa [hut] using hr)
  · by_cases hut : u = t
    · subst hut; exact hsub
    · exact h.given u (by simpa [hut] using hr)
  · by_cases hut : u = t
    · subst hut; simp
    · have hold : Job.handler u ∈ s.pool.returned := by
        have hp := hret.2
        subst hp
        simpa [hut] using hu
      simpa [hut] using h.returned u hold
  · by_cases hut : u = t
    · subst hut
      exact absurd hu (Pool.gone_ret h.pool hs)
    · have hold : Job.handler u ∈ s.pool.queue ∨ Job.handler u ∈ s.pool.running := by
        have hp := hret.2
        subst hp
        exact hu.imp_right List.mem_of_mem_erase
      simpa [hut] using h.unreturned u hold
  · have hp := hret.2
    subst hp
    exact h.dropped u hc hu
  · have hp := hret.2
    subst hp
    exact h.told u hu

theorem Sound.others {p : Pool Job} (h : Sound s) (hp : Others s.pool p) :
    Sound { s with pool := p } := by
  cases hp with
  | submits n hn he =>
    subst he
    refine h.pooled (h.pool.submit hn) (fun u => ?_) (fun u hu => hu) (fun u hu => ?_)
      (fun u => Iff.rfl) fun u hu => ?_
    · simp [Pool.known_submit]
    · simpa [Pool.submit] using hu
    · simpa [Pool.submit] using hu
  | cancels n he =>
    subst he
    refine h.pooled (h.pool.cancel _) (fun u => Pool.known_cancel) (fun u hu => ?_) (fun u hu => ?_)
      (fun u => ?_) fun u hu => by rwa [Pool.queue_cancel] at hu
    · rwa [Pool.returned_cancel] at hu
    · rwa [Pool.queue_cancel, Pool.running_cancel] at hu
    · simp [Pool.mem_cancel]
  | takes hp =>
    refine h.pooled (h.pool.take hp) (fun u => Pool.known_take hp)
      (fun u hu => by rwa [Pool.returned_take hp] at hu) (fun u hu => ?_)
      (fun u => by rw [Pool.cancelled_take hp]) fun u hu => Pool.queue_take hp hu
    rcases hu with hq | hr
    · exact .inl (Pool.queue_take hp hq)
    · exact (running_take hp hr).symm

theorem Sound.otherReturns {n : Nat} {p : Pool Job} (h : Sound s)
    (hp : s.pool.ret (.other n) = some p) : Sound { s with pool := p } := by
  have hret := (Pool.ret_cases hp).2
  refine h.pooled (h.pool.ret hp) (fun u => Pool.known_ret hp) (fun u hu => ?_) (fun u hu => ?_)
    (fun u => ?_) fun u hu => ?_
  · subst hret
    simpa using hu
  · subst hret
    exact hu.imp_right List.mem_of_mem_erase
  · subst hret; rfl
  · subst hret; exact hu

theorem step_sound {e : Event} (h : Sound s) (hs : step s e = some s') : Sound s' := by
  cases step_does hs with
  | goes m x hx hr he => subst he; exact h.executor hx hr
  | abandons t res aux x hx he => subst he; exact h.abandons hx
  | submits t hin hsub he => subst he; exact h.submit hin hsub
  | returns t res p hm hp he => subst he; exact h.returns hp
  | otherReturns n p hm hp he => subst he; exact h.otherReturns hp
  | other p hp he => subst he; exact h.others hp

theorem reachable_sound (h : Reachable s) : Sound s := by
  obtain ⟨handler, q, n, hr⟩ := h
  exact hr.invariant (fun _ _ _ hi _ hs => step_sound hi hs) (sound_init handler q n)

/-! ## Functions of one job at a time -/

/-- Who runs and has not been given up is the current task of its job. -/
theorem Sound.current (h : Sound s) (hr : .handler t ∈ s.pool.running)
    (hc : s.cancelEvent t = false) :
    InHandler s.executor (s.executor.obj t).data.jobId t ∧
      s.executor.tasks (s.executor.obj t).data.jobId = some t := by
  have hsub : s.submitted t = true := (h.known t).mp (.inr (.inr (.inl hr)))
  obtain ⟨ts, hin⟩ := inHandler_iff.mp (h.waiting t hsub hc (h.unreturned t (.inr hr)))
  have hin' : InHandler s.executor (s.executor.obj t).data.jobId t := ⟨rfl, ts, hin⟩
  exact ⟨hin', h.inv.unfinished_current (h.inv.inHandler_unfinished hin')⟩

theorem step_cancelEvent {e : Event} (hs : step s e = some s') (hc : s.cancelEvent t = true) :
    s'.cancelEvent t = true := by
  cases step_does hs with
  | goes m x hx hr he => subst he; exact hc
  | abandons u res aux x hx he =>
    subst he
    by_cases ht : t = u
    · subst ht; simp [abandon]
    · simpa [abandon, ht] using hc
  | submits u hin hsub he => subst he; exact hc
  | returns u res p hm hp he => subst he; exact hc
  | otherReturns n p hm hp he => subst he; exact hc
  | other p hp he => subst he; exact hc

/-- A function begins only when a worker takes it. -/
theorem step_begun {e : Event} {b : Job} (hs : step s e = some s') (hb : s'.pool.Begun b) :
    s.pool.Begun b ∨ b ∈ s.pool.queue ∧ b ∉ s.pool.cancelled := by
  cases step_does hs with
  | goes m x hx hr he => subst he; exact .inl hb
  | abandons u res aux x hx he => subst he; exact .inl ((Pool.begun_cancel ..).mp hb)
  | submits u hin hsub he => subst he; exact .inl hb
  | returns u res p hm hp he => subst he; exact .inl ((Pool.begun_ret hp).mp hb)
  | otherReturns n p hm hp he => subst he; exact .inl ((Pool.begun_ret hp).mp hb)
  | other p hp he =>
    subst he
    cases hp with
    | submits n hn he => subst he; exact .inl hb
    | cancels n he => subst he; exact .inl ((Pool.begun_cancel ..).mp hb)
    | takes hp => exact Pool.begun_take hp hb

/-- In every run: no more functions run than there are workers, and none is run twice. One whose
task has not given it up is that of the current task of its job, so that of two functions of one job
that run at a time one has been told to stop. A function whose task gave it up before a worker took it
is never run. -/
theorem threads_overlap (h : Reachable s) :
    s.pool.running.length ≤ s.pool.maxWorkers ∧ (s.pool.running ++ s.pool.returned).Nodup ∧
    (∀ t, .handler t ∈ s.pool.running → s.cancelEvent t = false →
      InHandler s.executor (s.executor.obj t).data.jobId t) ∧
    (∀ t u, .handler t ∈ s.pool.running → .handler u ∈ s.pool.running → t ≠ u →
      (s.executor.obj t).data.jobId = (s.executor.obj u).data.jobId →
        s.cancelEvent t = true ∨ s.cancelEvent u = true) ∧
    ∀ t s', s.cancelEvent t = true → ¬s.pool.Begun (.handler t) → Steps step Any s s' →
      ¬s'.pool.Begun (.handler t) := by
  have hsound := reachable_sound h
  refine ⟨hsound.pool.bound, (List.nodup_append.mp hsound.pool.once).2.1,
    fun t hr hc => (hsound.current hr hc).1, fun t u ht hu hne hj => ?_, fun t s' hc hb hs => ?_⟩
  · cases hct : s.cancelEvent t with
    | true => exact .inl rfl
    | false =>
      cases hcu : s.cancelEvent u with
      | true => exact .inr rfl
      | false =>
        have htask := (hsound.current ht hct).2
        rw [hj, (hsound.current hu hcu).2] at htask
        exact absurd (Option.some.inj htask).symm hne
  · have key := hs.invariant (P := fun s => Sound s ∧ s.cancelEvent t = true ∧
      ¬s.pool.Begun (.handler t)) (fun s e s' hi _ hst => ?_) ⟨hsound, hc, hb⟩
    · exact key.2.2
    · obtain ⟨hi, hc, hb⟩ := hi
      refine ⟨step_sound hi hst, step_cancelEvent hst hc, fun hb' => ?_⟩
      rcases step_begun hst hb' with hold | ⟨hq, hnc⟩
      · exact hb hold
      · exact hnc (hi.dropped t hc hq)

/-- A function outlives its timeout, and the next trigger of the job begins beside it. -/
def overrun : List Event :=
  [.executor (.runJob (serialJob 1)), .executor (.runJob (serialJob 2)),
    .executor (.start 0 .quiet), .submit 0, .take,
    .executor (.handlerEnds 0 (.error .timeout) .quiet), .executor (.start 1 .quiet), .submit 1,
    .take]

def overlapping : Threads := (run step (init (fun _ => true) 30 2) overrun).get rfl

theorem reachable_overlapping : Reachable overlapping :=
  ⟨fun _ => true, 30, 2, .of_run (fun _ _ _ => trivial) (Option.some_get _).symm⟩

theorem threads_overlap_timeout : overlapping.pool.running = [.handler 0, .handler 1] ∧
    (overlapping.cancelEvent 0 = true ∨ overlapping.cancelEvent 1 = true) := by
  refine ⟨rfl, (threads_overlap reachable_overlapping).2.2.2.1 0 1 ?_ ?_ (by decide) rfl⟩
  · exact List.mem_cons_self ..
  · exact List.mem_cons_of_mem _ (List.mem_cons_self ..)

/-! ## Where functions return, and where they do not -/

def Event.own : Event → Bool
  | .take => true
  | .returns _ _ => true
  | .otherReturns _ => true
  | _ => false

/-- No function returns in the event. -/
def Hangs (_ : Threads) : Event → Prop
  | .returns _ _ => False
  | .otherReturns _ => False
  | _ => True

theorem descends : Descends step (fun e => e.own = true) Event.own Sound
    (fun s => s.pool.load) where
  kept _ _ _ h _ hs := step_sound h hs
  falls s e s' h he hs := by
    cases e with
    | take =>
      obtain ⟨p, hp, rfl⟩ := Option.map_eq_some_iff.mp hs
      exact Pool.load_take hp
    | returns t res =>
      obtain ⟨p, hp, rfl⟩ := Option.map_eq_some_iff.mp hs
      exact Pool.load_ret hp
    | otherReturns n =>
      obtain ⟨p, hp, rfl⟩ := Option.map_eq_some_iff.mp hs
      exact Pool.load_ret hp
    | _ => cases he

/-- Where nothing can be taken and nothing returns, nothing is there. -/
theorem empty_at_rest (hn : 0 < s.pool.maxWorkers) (hr : AtRest step Event.own s) :
    s.pool.queue = [] ∧ s.pool.running = [] := by
  have hrun : s.pool.running = [] := by
    by_contra hne
    obtain ⟨b, hb⟩ := List.exists_mem_of_ne_nil _ hne
    cases b with
    | handler t =>
      have hret := hr (.returns t (.ok .none)) rfl
      simp [step, Pool.ret, hb] at hret
    | other n =>
      have hret := hr (.otherReturns n) rfl
      simp [step, Pool.ret, hb] at hret
  refine ⟨?_, hrun⟩
  by_contra hne
  obtain ⟨b, rest, hq⟩ := List.exists_cons_of_ne_nil hne
  have htake := hr .take rfl
  simp only [step, Pool.take, hq, hrun, List.length_nil, hn, if_true] at htake
  split at htake <;> cases htake

/-- Where all workers are held by functions that do not return, no other begins. -/
theorem hangs_step {e : Event} (he : Hangs s e) (hfull : s.pool.maxWorkers ≤ s.pool.running.length)
    (hs : step s e = some s') : s'.pool.maxWorkers = s.pool.maxWorkers ∧
      s'.pool.running = s.pool.running ∧ s'.pool.returned = s.pool.returned := by
  cases step_does hs with
  | goes m x hx hr he' => subst he'; exact ⟨rfl, rfl, rfl⟩
  | abandons t res aux x hx he' =>
    subst he'
    exact ⟨Pool.maxWorkers_cancel .., Pool.running_cancel .., Pool.returned_cancel ..⟩
  | submits t hin hsub he' => subst he'; exact ⟨rfl, rfl, rfl⟩
  | returns t res p hm hp he' => subst hm; exact he.elim
  | otherReturns n p hm hp he' => subst hm; exact he.elim
  | other p hp he' =>
    subst he'
    cases hp with
    | submits n hn hp => subst hp; exact ⟨rfl, rfl, rfl⟩
    | cancels n hp =>
      subst hp
      exact ⟨Pool.maxWorkers_cancel .., Pool.running_cancel .., Pool.returned_cancel ..⟩
    | takes hp => exact Pool.full_take hp hfull

/-- In every run: where functions return, the pool works off what it was given, and then each
function has returned, or was given up before a worker took it. Where as many hang as there are
workers, no other begins, whatever times out or is cancelled. -/
theorem threads_finish (h : Reachable s) :
    (∀ es s', (∀ e ∈ es, e.own = true) → run step s es = some s' → es.length ≤ s.pool.load) ∧
    (∃ es s', (∀ e ∈ es, e.own = true) ∧ run step s es = some s' ∧ AtRest step Event.own s') ∧
    (0 < s.pool.maxWorkers → AtRest step Event.own s → ∀ t, s.submitted t = true →
      (∃ res, s.result t = some res) ∨ s.cancelEvent t = true ∧ ¬s.pool.Begun (.handler t)) ∧
    ∀ s', s.pool.maxWorkers ≤ s.pool.running.length → Steps step Hangs s s' →
      s'.pool.running = s.pool.running ∧ s'.pool.returned = s.pool.returned := by
  have hsound := reachable_sound h
  refine ⟨fun es s' hes hr => ?_, descends.rests (fun _ he => he) _ hsound (Nat.le_refl _),
    fun hn hrest t hsub => ?_, fun s' hfull hs => ?_⟩
  · have hle := (descends.bounded hsound hes hr).2
    rw [List.countP_eq_length.mpr hes] at hle
    omega
  · obtain ⟨hq, hrun⟩ := empty_at_rest hn hrest
    rcases (hsound.known t).mpr hsub with hm | hc | hm | hret
    · rw [hq] at hm; cases hm
    · exact .inr ⟨hsound.told t hc, hsound.pool.dropped _ hc⟩
    · rw [hrun] at hm; cases hm
    · exact .inl (Option.ne_none_iff_exists'.mp (hsound.returned t hret))
  · have key := hs.invariant (P := fun r => r.pool.maxWorkers = s.pool.maxWorkers ∧
      r.pool.running = s.pool.running ∧ r.pool.returned = s.pool.returned)
      (fun r e r' hi he hst => ?_) ⟨rfl, rfl, rfl⟩
    · exact key.2
    · obtain ⟨h1, h2, h3⟩ := hangs_step he (by rw [hi.1, hi.2.1]; exact hfull) hst
      exact ⟨h1.trans hi.1, h2.trans hi.2.1, h3.trans hi.2.2⟩

/-- Both functions return. -/
theorem threads_finish_overlapping : ∃ es s', (∀ e ∈ es, e.own = true) ∧
    run step overlapping es = some s' ∧ AtRest step Event.own s' ∧ es.length ≤ 2 := by
  obtain ⟨hle, ⟨es, s', hown, hr, hrest⟩, -⟩ := threads_finish reachable_overlapping
  exact ⟨es, s', hown, hr, hrest, hle es s' hown hr⟩

end Threads
end Pyxxl
