import Pyxxl.App.Runner
import Pyxxl.Callbacks.Muted
import Pyxxl.Executor.Resting

/-!
# Pyxxl.App.Teardown

What the teardown of a `PyxxlRunner` leaves behind.

* `Closed s`: the callback manager is stopped for good, the client session is closed, each accepted
  trigger has a callback, and all callbacks are delivered or stored.
* `Orderly`: the condition on the steps. Nothing that `_cleanup_ctx` awaits raises, and every task
  reports with a message that can be stored.
* `Good s`: the invariant, phase by phase. Up to the first `stop` the executor is `Prompt` and the
  manager `Opened` (`AtWork`), from there on the one rests and the other is muted (`AtRest`).
* `teardown_closes`: in orderly runs the teardown leaves all closed. Whatever raises leaves the
  manager and the session open.
-/

namespace Pyxxl
namespace PyxxlRunner

open CallbackManager (FilesOk EnqueueFree StopFree Opened Muted always)
open Executor (Prompt Resting Reporting Stilled Names)
open Transition

variable {s s' : PyxxlRunner} {x x' : Executor} {m m' : CallbackManager} {n : Nat}
  {todo : List JobId} {calls : List Nat}

/-- What the executor has sent is, one by one, what the manager has to tell. -/
def Mirrors (x : Executor) (m : CallbackManager) : Prop :=
  x.callbacks.map (fun p => p.2.message) = m.messages

structure Closed (s : PyxxlRunner) : Prop where
  stopped : ∃ n drained, s.manager.stop n = .returned true drained
  closed : s.manager.closed = true
  session : s.sessionOpen = false
  reported : ∀ d ∈ s.executor.accepted, ∃ r, (d, r) ∈ s.executor.callbacks ∧ Names (d, r)
  told : Mirrors s.executor s.manager
  kept : ∀ i ∈ s.manager.enqueued, i ∈ s.manager.delivered ∨ s.manager.store.Stored i

/-- What the event may give the manager to tell can be stored. -/
def Storable (x : Executor) (e : Executor.Event) : Prop := ∀ v, e.words x v → v.storable = true

def Orderly (s : PyxxlRunner) : Event → Prop
  | .start paths => FilesOk s.manager (.start paths)
  | .executor e => e.tells ∧ Storable s.executor e
  | .manager e => FilesOk s.manager e
  | .registryRemove answers => (s.xxlClient.registryRemove answers).2.isOk = true
  | .tasksOver writes | .cancelled writes | .stopped writes => ∀ i, writes i = true
  | .timeout | .cancelRaised _ => False
  | .register _ | .exit | .shutdown _ | .cancelJob _ => True

/-! ## Before the first `stop` -/

structure AtWork (x : Executor) (m : CallbackManager) : Prop where
  executor : Prompt x
  manager : Opened m
  mirrors : Mirrors x m

theorem sent_append {new : List (Trigger × CallbackRequest)}
    (h : x'.callbacks = x.callbacks ++ new) : sent x x' = new.map Prod.snd := by
  rw [sent, h, List.drop_left]

/-- What the executor sends is new, and says what the event has for it. -/
theorem AtWork.sent_words {e : Executor.Event} {P : PyVal → Prop} (h : AtWork x m)
    (hw : ∀ v, e.words x v → P v) (hx : x.step e = some x') :
    ∀ r ∈ sent x x', r.persistedPath = none ∧ P r.msg := by
  obtain ⟨new, he, hn⟩ := h.executor.free.sends hx
  intro r hr
  rw [sent_append he] at hr
  obtain ⟨p, hp, rfl⟩ := List.mem_map.mp hr
  exact ⟨(hn p hp).1.unfiled, hw _ (hn p hp).2⟩

theorem AtWork.step {e : Executor.Event} (h : AtWork x m) (hst : m.started = true)
    (hr : Reporting x e) (hw : Storable x e) (hx : x.step e = some x') :
    AtWork x' (tell x x' m) ∧ (tell x x' m).started = true := by
  obtain ⟨new, he, hn⟩ := h.executor.free.sends hx
  have hsent : sent x x' = new.map Prod.snd := sent_append he
  obtain ⟨ho, hs, hm⟩ := h.manager.enqueues hst (h.sent_words hw hx)
  refine ⟨⟨h.executor.step hr hx, ho, ?_⟩, hs⟩
  have hmir := h.mirrors
  unfold Mirrors at hmir ⊢
  rw [tell, hm, he, List.map_append, hmir, hsent, List.map_map]
  rfl

theorem own_free {e : CallbackManager.Event} (h : ownEvent e = true) :
    EnqueueFree m e ∧ StopFree m e := by
  cases e with
  | enqueue r => cases h
  | stop timed close writes => cases h
  | _ => exact ⟨trivial, trivial⟩

theorem AtWork.manage {e : CallbackManager.Event} (h : AtWork x m) (hf : FilesOk m e)
    (he : EnqueueFree m e) (hst : StopFree m e) (hm : m.step e = some m') :
    AtWork x m' ∧ (m.started = true → m'.started = true) := by
  obtain ⟨ho, hmsg, hstart⟩ := h.manager.step hf he hst hm
  exact ⟨⟨h.executor, ho, h.mirrors.trans hmsg.symm⟩, hstart⟩

theorem step_start {paths : List CallbackPath} (hm : m.step (.start paths) = some m') :
    m'.started = true := by
  simp only [CallbackManager.step] at hm
  split at hm
  · rename_i hst; cases hm; exact hst
  · split at hm
    · cases hm; rfl
    · cases hm

/-! ## From the first `stop` on -/

structure AtRest (x : Executor) (m : CallbackManager) : Prop where
  executor : Resting x
  names : ∀ p ∈ x.callbacks, Names p
  reported : ∀ d ∈ x.accepted, ∃ r, (d, r) ∈ x.callbacks
  manager : Muted m
  mirrors : Mirrors x m

theorem AtWork.atRest (h : AtWork x m) (hr : Resting x) : AtRest x m where
  executor := hr
  names := h.executor.names
  reported _ hd := h.executor.reported hr hd
  manager := h.manager.silenced
  mirrors := h.mirrors

theorem AtRest.manage {e : CallbackManager.Event} (h : AtRest x m) (hf : FilesOk m e)
    (he : EnqueueFree m e) (hm : m.step e = some m') :
    AtRest x m' ∧ ∀ n, (m.stop n).close = true → (m'.stop n).close = true := by
  have hacts := h.manager.stepActs hf he hm
  exact ⟨⟨h.executor, h.names, h.reported, h.manager.acts hacts,
    h.mirrors.trans (h.manager.messages_same hacts).symm⟩, (h.manager.same hacts).close⟩

/-- An executor at rest sends nothing. -/
theorem AtRest.step {e : Executor.Event} (h : AtRest x m) (hr : Reporting x e)
    (he : ∀ d, e ≠ .runJob d) (hx : x.step e = some x') : AtRest x' m ∧ tell x x' m = m := by
  obtain ⟨hrest, hcb, hacc⟩ := h.executor.step hr.noStop he hx
  refine ⟨⟨hrest, ?_, ?_, h.manager, ?_⟩, ?_⟩
  · rw [hcb]; exact h.names
  · rw [hcb, hacc]; exact h.reported
  · rw [Mirrors, hcb]; exact h.mirrors
  · rw [tell, sent, hcb, List.drop_length]
    rfl

/-- The call of `stop` that is awaited last. -/
structure Stopping (n : Nat) (x : Executor) (m : CallbackManager) : Prop extends AtRest x m where
  close : (m.stop n).close = true

/-- A `stop` is called while nothing is running. -/
theorem AtRest.call (h : AtRest x m) (timed close : Bool) {writes : Nat → Bool}
    (hw : ∀ i, writes i = true) : AtRest x (m.stopCall timed close writes) :=
  (h.manage (e := .stop timed close writes) hw trivial rfl).1

theorem AtRest.stopping (h : AtRest x m) {writes : Nat → Bool} (hw : ∀ i, writes i = true) :
    Stopping m.nextStop { x with closed := true } (m.stopCall true true writes) := by
  have hcall := h.call true true hw
  refine ⟨⟨?_, hcall.names, hcall.reported, hcall.manager, hcall.mirrors⟩, ?_⟩
  · exact ⟨h.executor.locks, h.executor.pending, h.executor.call, h.executor.rested⟩
  · exact CallbackManager.stopCall_close m true true writes

/-- When it has come back, all is closed. -/
theorem Stopping.closed (h : Stopping n s.executor s.manager) {close drained : Bool}
    (hn : s.manager.stop n = .returned close drained) : Closed s.close := by
  have hclose : close = true := by
    have hc := h.close
    rw [hn] at hc
    exact hc
  subst hclose
  refine ⟨⟨n, drained, hn⟩, h.manager.plain.closed n h.close, rfl, fun d hd => ?_, h.mirrors,
    fun i hi => h.manager.closes hn hi⟩
  obtain ⟨r, hr⟩ := h.reported d hd
  exact ⟨r, hr, h.names _ hr⟩

/-! ## The end of `graceful_close` and of `shutdown` -/

theorem resting_of_allOver (h : Prompt x) (ho : allOver x = true) : Resting x := by
  refine h.resting_of_idle fun d hd => ?_
  simpa using List.all_eq_true.mp ho d hd

theorem stilled_of_covers {jobIds : List JobId} (h : Prompt x) (hc : covers x jobIds = true)
    {j : JobId} (hj : j ∉ jobIds) : Stilled [] x j := by
  refine .of_line (h.inv.books.line_of_accepted fun d hd he => ?_)
  have hd := List.all_eq_true.mp hc d hd
  rw [he, Bool.or_eq_true, Bool.not_eq_true', List.contains_iff_mem] at hd
  exact Executor.idle_line (hd.resolve_right hj)

theorem resting_of_gathered (h : Prompt x) (hst : ∀ j, Stilled calls x j)
    (hg : gathered x calls = true) : Resting x := by
  simp only [gathered, Bool.and_eq_true, List.all_eq_true, List.mem_range] at hg
  refine h.resting_of_stilled hst (fun n hn t hc => ?_) fun t ht => ?_
  · have hr := hg.1 n hn
    rw [hc] at hr
    cases hr
  · have hc := hg.2 t ht
    constructor
    · intro hcl
      rw [hcl] at hc
      cases hc
    · intro hcl
      rw [hcl] at hc
      cases hc

/-- The text for a trigger that `shutdown` drops. -/
theorem storable_shutdown (x : Executor) (j : JobId) :
    Storable x (.cancelJob j true shutdownReason) := by
  rintro v rfl
  decide

structure Cancelling (todo : List JobId) (calls : List Nat) (x : Executor) (m : CallbackManager) :
    Prop extends AtWork x m where
  started : m.started = true
  stilled : ∀ j, j ∉ todo → Stilled calls x j

theorem Cancelling.cancelJob (h : Cancelling todo calls x m) (j : JobId) :
    Cancelling (todo.erase j) (x.nextCall :: calls) (x.cancelJob j true shutdownReason)
      (tell x (x.cancelJob j true shutdownReason) m) := by
  have hr : Reporting x (.cancelJob j true shutdownReason) :=
    ⟨trivial, trivial, trivial⟩
  have hx : x.step (.cancelJob j true shutdownReason) =
      some (x.cancelJob j true shutdownReason) := rfl
  obtain ⟨hwork, hst⟩ := h.toAtWork.step h.started hr (storable_shutdown x j) hx
  refine ⟨hwork, hst, fun k hk => ?_⟩
  by_cases hkj : k = j
  · subst hkj
    refine (h.executor.cancelJob_stills k shutdownReason).mono fun n hn => ?_
    rw [List.mem_singleton.mp hn]
    exact List.mem_cons_self ..
  · have hk : k ∉ todo := fun hm => hk ((List.mem_erase_of_ne hkj).mpr hm)
    exact ((h.stilled k hk).step h.executor hwork.executor (fun d hd => by cases hd) hx).mono
      fun n hn => List.mem_cons_of_mem _ hn

/-! ## The invariant -/

def Good (s : PyxxlRunner) : Prop :=
  match s.phase with
  | .starting => AtWork s.executor s.manager ∧ s.sessionOpen = true
  | .serving | .removing | .closing =>
    (AtWork s.executor s.manager ∧ s.manager.started = true) ∧ s.sessionOpen = true
  | .cancelling todo calls => Cancelling todo calls s.executor s.manager ∧ s.sessionOpen = true
  | .flushing _ => AtRest s.executor s.manager ∧ s.sessionOpen = true
  | .stopping n => Stopping n s.executor s.manager ∧ s.sessionOpen = true
  | .ended _ => Closed s

theorem good_init (handler : String → Bool) (taskQueueLength : Int)
    (files : CallbackPath → Option StoredFile) (nextUuid : Nat) (xxlClient : XXL)
    (gracefulClose : Bool) :
    Good (init handler taskQueueLength files nextUuid xxlClient gracefulClose) :=
  ⟨⟨Executor.prompt_init handler taskQueueLength, CallbackManager.opened_init files nextUuid, rfl⟩,
    rfl⟩

theorem Phase.admits_running {p : Phase} {e : Executor.Event} (h : p.admits e = true) :
    p.running = true := by
  cases e with
  | runJob d => cases p <;> first | rfl | cases h
  | setHandler handler => cases h
  | stopCalled close => cases h
  | stopLock n => cases h
  | stopUnlock n => cases h
  | _ => exact h

theorem Phase.admits_reporting {p : Phase} {e : Executor.Event} (h : p.admits e = true)
    (ht : e.tells) : Reporting x e := by
  cases e with
  | setHandler handler => cases h
  | stopCalled close => cases h
  | stopLock n => cases h
  | stopUnlock n => cases h
  | _ => exact ⟨trivial, trivial, ht⟩

/-- Only the server takes in triggers. -/
theorem Phase.admits_runJob {p : Phase} {e : Executor.Event} (h : p.admits e = true)
    (hp : p.isServing = false) (d : RunData) : e ≠ .runJob d := by
  rintro rfl
  exact absurd (hp.symm.trans h) (by simp)

theorem Good.setExecutor {e : Executor.Event} (h : Good s) (hrun : s.phase.running = true)
    (hr : Reporting s.executor e) (hw : Storable s.executor e)
    (hjob : s.phase.isServing = false → ∀ d, e ≠ .runJob d) (hx : s.executor.step e = some x) :
    Good (s.setExecutor x) := by
  unfold Good at h ⊢
  cases hp : s.phase with
  | starting => rw [hp] at hrun; cases hrun
  | serving | removing | closing =>
    rw [hp] at h
    simp only [PyxxlRunner.setExecutor, hp]
    exact ⟨h.1.1.step h.1.2 hr hw hx, h.2⟩
  | cancelling todo calls =>
    rw [hp] at h hjob
    simp only [PyxxlRunner.setExecutor, hp]
    obtain ⟨hwork, hst⟩ := h.1.toAtWork.step h.1.started hr hw hx
    refine ⟨⟨hwork, hst, fun j hj => ?_⟩, h.2⟩
    exact (h.1.stilled j hj).step h.1.executor hwork.executor (hjob rfl) hx
  | flushing n =>
    rw [hp] at h hjob
    simp only [PyxxlRunner.setExecutor, hp]
    obtain ⟨hrest, htell⟩ := h.1.step hr (hjob rfl) hx
    rw [htell]
    exact ⟨hrest, h.2⟩
  | stopping n =>
    rw [hp] at h hjob
    simp only [PyxxlRunner.setExecutor, hp]
    obtain ⟨hrest, htell⟩ := h.1.toAtRest.step hr (hjob rfl) hx
    rw [htell]
    exact ⟨⟨hrest, h.1.close⟩, h.2⟩
  | ended error => rw [hp] at hrun; cases hrun

theorem Good.executor {e : Executor.Event} (h : Good s) (hok : Orderly s (.executor e))
    (hs : s.step (.executor e) = some s') : Good s' := by
  simp only [step] at hs
  split at hs
  · rename_i ha
    obtain ⟨x, hx, rfl⟩ := Option.map_eq_some_iff.mp hs
    obtain ⟨ht, hw⟩ := hok
    exact h.setExecutor (Phase.admits_running ha) (Phase.admits_reporting ha ht) hw
      (Phase.admits_runJob ha) hx
  · cases hs

theorem Good.register {name : String} (h : Good s) (hs : s.step (.register name) = some s') :
    Good s' := by
  simp only [step] at hs
  split at hs
  · rename_i hrun
    obtain ⟨x, hx, rfl⟩ := Option.map_eq_some_iff.mp hs
    -- there is a handler more, and none less
    have hr : Reporting s.executor (.setHandler fun h => h = name || s.executor.handler h) :=
      ⟨trivial, fun k hk => by simp [hk], trivial⟩
    exact h.setExecutor hrun hr (fun v hv => hv.elim) (fun _ d hd => by cases hd) hx
  · cases hs

theorem Good.manager {e : CallbackManager.Event} (h : Good s) (hok : Orderly s (.manager e))
    (hs : s.step (.manager e) = some s') : Good s' := by
  simp only [step] at hs
  split at hs
  · rename_i hown
    simp only [Bool.and_eq_true] at hown
    obtain ⟨hrun, hown⟩ := hown
    obtain ⟨m, hm, rfl⟩ := Option.map_eq_some_iff.mp hs
    obtain ⟨he, hst⟩ := own_free (m := s.manager) hown
    have hok : FilesOk s.manager e := hok
    unfold Good at h ⊢
    cases hp : s.phase with
    | starting => rw [hp] at hrun; cases hrun
    | serving | removing | closing =>
      rw [hp] at h
      obtain ⟨hwork, hstart⟩ := h.1.1.manage hok he hst hm
      exact ⟨⟨hwork, hstart h.1.2⟩, h.2⟩
    | cancelling todo calls =>
      rw [hp] at h
      obtain ⟨hwork, hstart⟩ := h.1.toAtWork.manage hok he hst hm
      exact ⟨⟨hwork, hstart h.1.started, h.1.stilled⟩, h.2⟩
    | flushing n =>
      rw [hp] at h
      exact ⟨(h.1.manage hok he hm).1, h.2⟩
    | stopping n =>
      rw [hp] at h
      obtain ⟨hrest, hclose⟩ := h.1.toAtRest.manage hok he hm
      exact ⟨⟨hrest, hclose n h.1.close⟩, h.2⟩
    | ended error => rw [hp] at hrun; cases hrun
  · cases hs

theorem Good.step {e : Event} (h : Good s) (hok : Orderly s e) (hs : s.step e = some s') :
    Good s' := by
  cases e with
  | executor e => exact h.executor hok hs
  | register name => exact h.register hs
  | manager e => exact h.manager hok hs
  | start paths =>
    simp only [PyxxlRunner.step] at hs
    split at hs
    · rename_i hp
      simp only [Good, hp] at h
      obtain ⟨m, hm, rfl⟩ := Option.map_eq_some_iff.mp hs
      have hf : FilesOk s.manager (.start paths) := hok
      exact ⟨⟨(h.1.manage hf trivial trivial hm).1, step_start hm⟩, h.2⟩
    · cases hs
  | exit =>
    simp only [PyxxlRunner.step] at hs
    split at hs
    · rename_i hp
      simp only [Good, hp] at h
      cases hs
      exact h
    · cases hs
  | registryRemove answers =>
    simp only [PyxxlRunner.step] at hs
    split at hs
    · rename_i hp
      simp only [Good, hp] at h
      split at hs
      · cases hs; exact h
      · -- it has returned
        rename_i he
        rw [Orderly, he] at hok
        cases hok
    · cases hs
  | timeout => exact hok.elim
  | tasksOver writes =>
    simp only [PyxxlRunner.step] at hs
    split at hs
    · rename_i hp
      simp only [Good, hp] at h
      split at hs
      · rename_i hover
        simp only [Bool.and_eq_true] at hover
        cases hs
        have hrest := h.1.1.atRest (resting_of_allOver h.1.1.executor hover.2)
        exact ⟨hrest.call true false hok, h.2⟩
      · cases hs
    · cases hs
  | shutdown jobIds =>
    simp only [PyxxlRunner.step] at hs
    split at hs
    · rename_i hp
      simp only [Good, hp] at h
      split at hs
      · rename_i hc
        simp only [Bool.and_eq_true] at hc
        cases hs
        exact ⟨⟨h.1.1, h.1.2, fun j hj => stilled_of_covers h.1.1.executor hc.2 hj⟩, h.2⟩
      · cases hs
    · cases hs
  | cancelJob j =>
    simp only [PyxxlRunner.step] at hs
    split at hs
    · rename_i hp
      simp only [Good, hp] at h
      split at hs
      · cases hs
        exact ⟨h.1.cancelJob j, h.2⟩
      · cases hs
    · cases hs
  | cancelled writes =>
    simp only [PyxxlRunner.step] at hs
    split at hs
    · rename_i hp
      simp only [Good, hp] at h
      split at hs
      · rename_i hg
        cases hs
        have hstill := fun j => h.1.stilled j List.not_mem_nil
        have hrest := h.1.toAtWork.atRest (resting_of_gathered h.1.executor hstill hg)
        exact ⟨hrest.stopping hok, h.2⟩
      · cases hs
    · cases hs
  | cancelRaised n => exact hok.elim
  | stopped writes =>
    simp only [PyxxlRunner.step] at hs
    split at hs
    · rename_i hp
      simp only [Good, hp] at h
      split at hs
      · cases hs; exact ⟨h.1.stopping hok, h.2⟩
      · rename_i hr
        exact absurd hr (h.1.manager.plain.unraised _ _)
      · cases hs
    · rename_i hp
      simp only [Good, hp] at h
      split at hs
      · rename_i hr
        cases hs
        exact h.1.closed hr
      · rename_i hr
        exact absurd hr (h.1.manager.plain.unraised _ _)
      · cases hs
    · cases hs

theorem reachable_good (h : Reachable Orderly s) : Good s := by
  obtain ⟨handler, taskQueueLength, files, nextUuid, xxlClient, gracefulClose, hs⟩ := h
  exact hs.invariant (fun _ _ _ hi hok hst => Good.step hi hok hst)
    (good_init handler taskQueueLength files nextUuid xxlClient gracefulClose)

/-! ## How the teardown ends -/

/-- A call that `_cleanup_ctx` or `shutdown` awaits raises in the event. -/
def Raises (s : PyxxlRunner) : Event → Prop
  | .registryRemove answers => (s.xxlClient.registryRemove answers).2.isOk = false
  | .timeout | .cancelRaised _ => True
  | _ => False

/-- The steps that end the teardown. -/
inductive Ends (s : PyxxlRunner) (e : Event) (s' : PyxxlRunner) : Prop where
  | raised (h : Raises s e)
  | closed {n : Nat} {close drained : Bool} (hp : s.phase = .stopping n)
      (hn : s.manager.stop n = .returned close drained) (hs : s' = s.close)
  | worker {n : Nat} {close : Bool} (hn : s.manager.stop n = .raised close)
      (hp : s.phase = .flushing n ∨ s.phase = .stopping n)

theorem step_ends {e : Event} {error : Option Error} (hs : s.step e = some s')
    (hend : s'.phase = .ended error) : Ends s e s' := by
  cases e with
  | executor e =>
    simp only [step] at hs
    split at hs
    · rename_i ha
      obtain ⟨x, -, rfl⟩ := Option.map_eq_some_iff.mp hs
      have hend : s.phase = .ended error := hend
      have hrun := Phase.admits_running ha
      rw [hend] at hrun
      cases hrun
    · cases hs
  | register name =>
    simp only [step] at hs
    split at hs
    · rename_i hrun
      obtain ⟨x, -, rfl⟩ := Option.map_eq_some_iff.mp hs
      have hend : s.phase = .ended error := hend
      rw [hend] at hrun
      cases hrun
    · cases hs
  | manager e =>
    simp only [step] at hs
    split at hs
    · rename_i hown
      obtain ⟨m, -, rfl⟩ := Option.map_eq_some_iff.mp hs
      have hend : s.phase = .ended error := hend
      rw [hend] at hown
      cases hown
    · cases hs
  | start paths =>
    simp only [step] at hs
    split at hs
    · obtain ⟨m, -, rfl⟩ := Option.map_eq_some_iff.mp hs
      cases hend
    · cases hs
  | exit =>
    simp only [step] at hs
    split at hs
    · cases hs; cases hend
    · cases hs
  | registryRemove answers =>
    simp only [step] at hs
    split at hs
    · split at hs
      · cases hs; cases hend
      · rename_i he
        exact .raised (by rw [Raises, he]; rfl)
    · cases hs
  | timeout => exact .raised trivial
  | tasksOver writes =>
    simp only [step] at hs
    split at hs
    · split at hs
      · cases hs; cases hend
      · cases hs
    · cases hs
  | shutdown jobIds =>
    simp only [step] at hs
    split at hs
    · split at hs
      · cases hs; cases hend
      · cases hs
    · cases hs
  | cancelJob j =>
    simp only [step] at hs
    split at hs
    · split at hs
      · cases hs; cases hend
      · cases hs
    · cases hs
  | cancelled writes =>
    simp only [step] at hs
    split at hs
    · split at hs
      · cases hs; cases hend
      · cases hs
    · cases hs
  | cancelRaised n => exact .raised trivial
  | stopped writes =>
    simp only [step] at hs
    split at hs
    · rename_i hp
      split at hs
      · cases hs; cases hend
      · rename_i hn; exact .worker hn (.inl hp)
      · cases hs
    · rename_i hp
      split at hs
      · rename_i hn
        cases hs
        exact .closed hp hn rfl
      · rename_i hn; exact .worker hn (.inr hp)
      · cases hs
    · cases hs

/-- Whatever raises ends the teardown before the manager was stopped. -/
theorem Good.raises {e : Event} (h : Good s) (hr : Raises s e) (hs : s.step e = some s') :
    ∃ error, s'.phase = .ended (some error) ∧ s'.manager.closed = false ∧
      (∀ n, s'.manager.stop n = .none) ∧ s'.sessionOpen = true := by
  cases e with
  | registryRemove answers =>
    simp only [PyxxlRunner.step] at hs
    split at hs
    · rename_i hp
      simp only [Good, hp] at h
      split at hs
      · rename_i he
        rw [Raises, he] at hr
        cases hr
      · cases hs
        exact ⟨_, rfl, h.1.1.manager.opened, h.1.1.manager.stops, h.2⟩
    · cases hs
  | timeout =>
    simp only [PyxxlRunner.step] at hs
    split at hs
    · rename_i hp
      simp only [Good, hp] at h
      split at hs
      · cases hs
        exact ⟨_, rfl, h.1.1.manager.opened, h.1.1.manager.stops, h.2⟩
      · cases hs
    · cases hs
  | cancelRaised n =>
    simp only [PyxxlRunner.step] at hs
    split at hs
    · rename_i hp
      simp only [Good, hp] at h
      split at hs
      · split at hs
        · cases hs
          exact ⟨_, rfl, h.1.manager.opened, h.1.manager.stops, h.2⟩
        · cases hs
      · cases hs
    · cases hs
  | _ => exact hr.elim

/-- In a run whose steps are all orderly, a teardown that has ended has closed everything. And if
they are orderly up to its last step, it has done so exactly if nothing has raised in that step:
after a `registryRemove` that has raised, after `graceful_timeout` or a killed task with an
exception of its own, neither the manager nor the session is closed. -/
theorem teardown_closes (s : PyxxlRunner) (h : Reachable Orderly s) :
    (∀ error, s.phase = .ended error → Closed s) ∧
    ∀ e s' error, s.step e = some s' → s'.phase = .ended error → (Closed s' ↔ ¬Raises s e) := by
  have hgood := reachable_good h
  refine ⟨fun error hp => ?_, fun e s' error hs hend => ⟨fun hc hr => ?_, fun hr => ?_⟩⟩
  · simpa only [Good, hp] using hgood
  · obtain ⟨_, -, hopen, -⟩ := hgood.raises hr hs
    rw [hc.closed] at hopen
    cases hopen
  · cases step_ends hs hend with
    | raised hraise => exact absurd hraise hr
    | closed hp hn hs =>
      simp only [Good, hp] at hgood
      rw [hs]
      exact hgood.1.closed hn
    | worker hn hp =>
      rcases hp with hp | hp
      · simp only [Good, hp] at hgood
        exact absurd hn (hgood.1.manager.plain.unraised _ _)
      · simp only [Good, hp] at hgood
        exact absurd hn (hgood.1.manager.plain.unraised _ _)

/-! ## Runs -/

/-- A runner with one admin, one handler and `graceful_close`. -/
def fresh : PyxxlRunner :=
  init (fun _ => true) 0 (fun _ => none) 0
    { adminUrls := [py "http://localhost/api/"], retryTimes := 1, str := fun _ => [] } true

def down (_ _ : Nat) : Answer := .error (.connection (py "refused"))

def accepts (_ _ : Nat) : Answer := .ok ⟨200, .ok (.dict [(.str (py "code"), .int 200)]), .ok []⟩

/-- A job is running when the teardown begins. -/
def busyRun : List Event :=
  [.start [], .executor (.runJob (Executor.serialJob 7)), .executor (.start 0 .quiet), .exit]

def busy : PyxxlRunner := (run step fresh busyRun).get rfl

theorem busy_steps : Steps step Orderly fresh busy := by
  have hok : Allowed step Orderly fresh busyRun := by
    refine (allowed_cons rfl).mpr ⟨(fun p hp => by cases hp), ?_⟩
    refine (allowed_cons rfl).mpr ⟨⟨trivial, ?_⟩, ?_⟩
    · rintro v rfl
      decide
    refine (allowed_cons rfl).mpr ⟨⟨⟨rfl, fun exc he => by cases he⟩, ?_⟩, ?_⟩
    · rintro v ⟨exc, he, -⟩
      cases he
    exact (allowed_cons rfl).mpr ⟨trivial, trivial⟩
  exact .of_allowed hok rfl

/-- The job ends, its callback is delivered, and both calls of `stop` come back. -/
def closingRun : List Event :=
  [.registryRemove accepts, .executor (.handlerEnds 0 (.ok .none) .quiet), .tasksOver always,
    .manager .workerTakes, .manager (.workerDelivers always), .manager (.stopDrained 0 always),
    .manager (.workerEnds always), .manager (.stopJoined 0), .stopped always, .stopped always]

def closedRunner : PyxxlRunner := (run step busy closingRun).get rfl

theorem closed_steps : Steps step Orderly busy closedRunner := by
  have hok : Allowed step Orderly busy closingRun := by
    refine (allowed_cons rfl).mpr ⟨rfl, ?_⟩
    refine (allowed_cons rfl).mpr ⟨⟨(fun exc he => by cases he), ?_⟩, ?_⟩
    · rintro v (hv | ⟨exc, (he | he | he), -⟩)
      · cases hv; rfl
      · cases he
      · cases he
      · cases he
    refine (allowed_cons rfl).mpr ⟨fun _ => rfl, ?_⟩
    refine (allowed_cons rfl).mpr ⟨trivial, ?_⟩
    refine (allowed_cons rfl).mpr ⟨fun _ => rfl, ?_⟩
    refine (allowed_cons rfl).mpr ⟨fun _ => rfl, ?_⟩
    refine (allowed_cons rfl).mpr ⟨fun _ => rfl, ?_⟩
    refine (allowed_cons rfl).mpr ⟨trivial, ?_⟩
    refine (allowed_cons rfl).mpr ⟨fun _ => rfl, ?_⟩
    exact (allowed_cons rfl).mpr ⟨fun _ => rfl, trivial⟩
  exact .of_allowed hok rfl

theorem reachable_fresh (h : Steps step Orderly fresh s) : Reachable Orderly s :=
  ⟨_, _, _, _, _, _, h⟩

/-- No admin answers, in none of the three rounds. -/
def unanswered : PyxxlRunner := (step busy (.registryRemove down)).get rfl

theorem teardown_closes_busy : Closed closedRunner ∧ ¬Closed unanswered := by
  have hbusy := teardown_closes busy (reachable_fresh busy_steps)
  have hclosed := teardown_closes closedRunner (reachable_fresh (busy_steps.trans closed_steps))
  refine ⟨hclosed.1 none rfl, fun hc => ?_⟩
  exact (hbusy.2 (.registryRemove down) unanswered _ rfl rfl).mp hc rfl

/-- `_cleanup_ctx` ends with the error of `registryRemove`: the manager is never stopped, the session
stays open, and the trigger that is running is not reported. -/
theorem teardown_left_open : Reachable Orderly busy ∧
    busy.step (.registryRemove down) = some unanswered ∧
    unanswered.phase =
      .ended (some (.client (.xxl (.str (py "http://localhost/api/ refused"))))) ∧
    unanswered.manager.closed = false ∧ unanswered.sessionOpen = true ∧
    unanswered.executor.accepted = [⟨0, Executor.serialJob 7⟩] ∧
    unanswered.executor.callbacks = [] ∧ ¬Closed unanswered := by
  refine ⟨reachable_fresh busy_steps, rfl, rfl, rfl, rfl, rfl, rfl, fun hc => ?_⟩
  have hopen : true = false := hc.session
  cases hopen

end PyxxlRunner
end Pyxxl
