import Pyxxl.App.Delivered

/-!
# Pyxxl.App.Restarts

An executor that is started again and again over one `store_dir`. Each process is a `PyxxlRunner`,
from its start to its teardown, or to a crash.

* `Service`: the runner of the present process, what those before it have delivered, and the
  triggers they had accepted when their teardown was through.
* `Orderly`: the steps of the runner are orderly, and a crash cuts no callback file short that can
  be loaded.
* `runner_manages`: to the manager, what the runner does is one `start`, `enqueue`s and `stop`s.
* `results_survive`: each of these triggers has its result delivered by some process, or it is in a
  file, and the present process can go on to deliver it.
-/

namespace Pyxxl

open CallbackManager (FilesOk Lists Opened Attended Carries Turn turn always)
open PyxxlRunner (AtWork AtRest Good Closed Storable tell sent)
open Transition

structure Service where
  runner : PyxxlRunner
  past : List (Option CallbackPath × CallbackRequest)
  settled : List Trigger

namespace CallbackManager

/-- File operations succeed, messages are plain data that can be stored, and `start` gets through all
files. -/
def Tended (m : CallbackManager) (e : Event) : Prop := Steady m e ∧ Lists m e

theorem attended_steps {m m' : CallbackManager} (h : Attended m) (hr : Read m)
    (hs : Steps step Tended m m') : Attended m' ∧ Read m' ∧ Carries m m' := by
  refine hs.invariant (P := fun x => Attended x ∧ Read x ∧ Carries m x) ?_ ⟨h, hr, .refl⟩
  intro x e x' hx hok hstep
  obtain ⟨ha, hc⟩ := hx.1.step hok.1 hstep
  exact ⟨ha, hx.2.1.step hx.1 hok.1.1 hok.2 hstep, hx.2.2.trans hc⟩

theorem enqueues_steps : ∀ {rs : List CallbackRequest} {m : CallbackManager}, m.started = true →
    (∀ r ∈ rs, r.persistedPath = none ∧ r.msg.plain = true ∧ r.msg.storable = true) →
      Steps step Tended m (rs.foldl enqueue m) := by
  intro rs
  induction rs with
  | nil => intro m _ _; exact .refl
  | cons r rs ih =>
    intro m hst hrs
    obtain ⟨hp, hplain, hr⟩ := hrs r (List.mem_cons_self ..)
    have hs : m.step (.enqueue r) = some (m.enqueue r) := by
      simp [step, hst, hp]
    have hok : Tended m (.enqueue r) := ⟨⟨hr, hplain⟩, trivial⟩
    have hst' : (m.enqueue r).started = true := (started_enqueue m r).trans hst
    exact (Steps.single hok hs).trans (ih hst' fun r' hr' => hrs r' (List.mem_cons_of_mem _ hr'))

end CallbackManager

namespace Service

variable {s s' : Service}

inductive Event where
  | runner (e : PyxxlRunner.Event)
  /-- The process ends, however it does, and a new one begins. -/
  | restart (torn : Option CallbackPath) (within : Bool) (handler : String → Bool)
      (taskQueueLength : Int) (xxlClient : XXL) (gracefulClose : Bool)

/-- All that was ever delivered. -/
def sent (s : Service) : List (Option CallbackPath × CallbackRequest) :=
  s.past ++ s.runner.manager.delivered.map fun i =>
    (s.runner.manager.store.home i, (s.runner.manager.request i).message)

/-- The triggers the present process had accepted, if its teardown is through. -/
def done (r : PyxxlRunner) : List Trigger :=
  match r.phase with
  | .ended none => r.executor.accepted
  | _ => []

def step (s : Service) : Event → Option Service
  | .runner e => (s.runner.step e).map fun r => { s with runner := r }
  | .restart torn within handler taskQueueLength xxlClient gracefulClose =>
    let store := Lifetimes.tear s.runner.manager.store within torn
    some
      { runner := .init handler taskQueueLength store.files store.nextUuid xxlClient gracefulClose
        past := s.sent
        settled := s.settled ++ done s.runner }

def Orderly (s : Service) : Event → Prop
  | .runner (.start paths) =>
    PyxxlRunner.Orderly s.runner (.start paths) ∧ Lists s.runner.manager (.start paths)
  | .runner (.executor e) =>
    PyxxlRunner.Orderly s.runner (.executor e) ∧ Deployment.Sayable s.runner.executor e
  | .runner e => PyxxlRunner.Orderly s.runner e
  | .restart torn _ _ _ _ _ =>
    ∀ p, torn = some p → ∀ r, s.runner.manager.store.files p ≠ some (.whole r)

def Reachable (s : Service) : Prop :=
  ∃ handler taskQueueLength files nextUuid xxlClient gracefulClose,
    (∀ p f, files p = some f → p.uuid < nextUuid) ∧
    Steps step Orderly
      ⟨.init handler taskQueueLength files nextUuid xxlClient gracefulClose, [], []⟩ s

/-! ## What the manager sees of a process -/

section
variable {r r' : PyxxlRunner} {x : Executor}

theorem sayable_shutdown (x : Executor) (j : JobId) :
    Deployment.Sayable x (.cancelJob j true PyxxlRunner.shutdownReason) := by
  rintro v rfl
  exact ⟨rfl, by decide⟩

theorem tell_steps {m : CallbackManager} {x' : Executor} {e : Executor.Event} (h : AtWork x m)
    (hst : m.started = true) (hw : Deployment.Sayable x e) (hx : x.step e = some x') :
    Steps CallbackManager.step CallbackManager.Tended m (tell x x' m) :=
  CallbackManager.enqueues_steps hst (h.sent_words hw hx)

theorem setExecutor_manages {e : Executor.Event} (h : Good r) (hrun : r.phase.running = true)
    (hr : Executor.Reporting r.executor e) (hw : Deployment.Sayable r.executor e)
    (hjob : r.phase.isServing = false → ∀ d, e ≠ .runJob d) (hx : r.executor.step e = some x) :
    Steps CallbackManager.step CallbackManager.Tended r.manager (r.setExecutor x).manager := by
  simp only [PyxxlRunner.setExecutor]
  unfold Good at h
  cases hp : r.phase with
  | starting => rw [hp] at hrun; cases hrun
  | serving | removing | closing =>
    rw [hp] at h
    exact tell_steps h.1.1 h.1.2 hw hx
  | cancelling todo calls =>
    rw [hp] at h
    exact tell_steps h.1.toAtWork h.1.started hw hx
  | flushing n =>
    rw [hp] at h hjob
    rw [(h.1.step hr (hjob rfl) hx).2]
    exact .refl
  | stopping n =>
    rw [hp] at h hjob
    rw [(h.1.toAtRest.step hr (hjob rfl) hx).2]
    exact .refl
  | ended error => rw [hp] at hrun; cases hrun

theorem stop_manages {m : CallbackManager} {writes : Nat → Bool} (hw : ∀ i, writes i = true)
    (close : Bool) :
    Steps CallbackManager.step CallbackManager.Tended m (m.stopCall true close writes) := by
  have hok : CallbackManager.Tended m (.stop true close writes) := ⟨⟨hw, trivial⟩, trivial⟩
  exact .single hok rfl

theorem runner_manages {e : PyxxlRunner.Event} (h : Good r) (hok : PyxxlRunner.Orderly r e)
    (hl : ∀ paths, e = .start paths → Lists r.manager (.start paths))
    (hw : ∀ e', e = .executor e' → Deployment.Sayable r.executor e') (hs : r.step e = some r') :
    Steps CallbackManager.step CallbackManager.Tended r.manager r'.manager := by
  cases e with
  | executor e =>
    simp only [PyxxlRunner.step] at hs
    split at hs
    · rename_i ha
      obtain ⟨x, hx, rfl⟩ := Option.map_eq_some_iff.mp hs
      exact setExecutor_manages h (PyxxlRunner.Phase.admits_running ha)
        (PyxxlRunner.Phase.admits_reporting ha hok.1) (hw e rfl) (PyxxlRunner.Phase.admits_runJob ha)
        hx
    · cases hs
  | register name =>
    simp only [PyxxlRunner.step] at hs
    split at hs
    · rename_i hrun
      obtain ⟨x, hx, rfl⟩ := Option.map_eq_some_iff.mp hs
      have hr : Executor.Reporting r.executor
          (.setHandler fun h => h = name || r.executor.handler h) :=
        ⟨trivial, fun k hk => by simp [hk], trivial⟩
      exact setExecutor_manages h hrun hr (fun v hv => hv.elim) (fun _ d hd => by cases hd) hx
    · cases hs
  | manager e =>
    simp only [PyxxlRunner.step] at hs
    split at hs
    · rename_i hown
      simp only [Bool.and_eq_true] at hown
      obtain ⟨m, hm, rfl⟩ := Option.map_eq_some_iff.mp hs
      have htended : CallbackManager.Tended r.manager e := by
        refine ⟨CallbackManager.FilesOk.steady hok (PyxxlRunner.own_free (m := r.manager) hown.2).1,
          ?_⟩
        cases e with
        | start paths => cases hown.2
        | _ => trivial
      exact .single htended hm
    · cases hs
  | start paths =>
    simp only [PyxxlRunner.step] at hs
    split at hs
    · obtain ⟨m, hm, rfl⟩ := Option.map_eq_some_iff.mp hs
      have htended : CallbackManager.Tended r.manager (.start paths) :=
        ⟨CallbackManager.FilesOk.steady hok trivial, hl paths rfl⟩
      exact .single htended hm
    · cases hs
  | registryRemove answers =>
    simp only [PyxxlRunner.step] at hs
    split at hs
    · split at hs <;> cases hs <;> exact .refl
    · cases hs
  | tasksOver writes =>
    simp only [PyxxlRunner.step] at hs
    split at hs
    · split at hs
      · cases hs; exact stop_manages hok false
      · cases hs
    · cases hs
  | cancelJob j =>
    simp only [PyxxlRunner.step] at hs
    split at hs
    · rename_i hp
      simp only [Good, hp] at h
      split at hs
      · cases hs
        exact tell_steps (e := .cancelJob j true PyxxlRunner.shutdownReason) h.1.toAtWork
          h.1.started (sayable_shutdown _ j) rfl
      · cases hs
    · cases hs
  | cancelled writes =>
    simp only [PyxxlRunner.step] at hs
    split at hs
    · split at hs
      · cases hs; exact stop_manages hok true
      · cases hs
    · cases hs
  | stopped writes =>
    simp only [PyxxlRunner.step] at hs
    split at hs
    · split at hs
      · cases hs; exact stop_manages hok true
      · cases hs; exact .refl
      · cases hs
    · split at hs
      · cases hs; exact .refl
      · cases hs; exact .refl
      · cases hs
    · cases hs
  | timeout => exact hok.elim
  | cancelRaised n => exact hok.elim
  | exit =>
    simp only [PyxxlRunner.step] at hs
    split at hs
    · cases hs; exact .refl
    · cases hs
  | shutdown jobIds =>
    simp only [PyxxlRunner.step] at hs
    split at hs
    · split at hs
      · cases hs; exact .refl
      · cases hs
    · cases hs

end

/-! ## Over all processes -/

/-- Some process has told the admin this, or it is in a file. -/
def Told (s : Service) (m : CallbackRequest) : Prop :=
  (∃ q, (q, m) ∈ s.sent) ∨ ∃ p, s.runner.manager.Holds p m

structure Holding (s : Service) : Prop where
  good : Good s.runner
  attended : Attended s.runner.manager
  read : CallbackManager.Read s.runner.manager
  settled : ∀ d ∈ s.settled, ∃ r, Executor.Names (d, r) ∧ s.Told r.message

/-- What a teardown leaves is told or stored. -/
theorem closed_told (h : Closed s.runner) (ha : Attended s.runner.manager) {d : Trigger}
    (hd : d ∈ s.runner.executor.accepted) : ∃ r, Executor.Names (d, r) ∧ s.Told r.message := by
  obtain ⟨r, hr, hnames⟩ := h.reported d hd
  have hmem : r.message ∈ s.runner.manager.messages := by
    rw [← h.told]
    exact List.mem_map.mpr ⟨(d, r), hr, rfl⟩
  obtain ⟨i, hi, hmsg⟩ := List.mem_map.mp hmem
  refine ⟨r, hnames, ?_⟩
  rw [← hmsg]
  rcases h.kept i hi with hdel | ⟨p, q, hp, hf, -⟩
  · exact .inl ⟨_, List.mem_append_right _ (List.mem_map.mpr ⟨i, hdel, rfl⟩)⟩
  · exact .inr ⟨p, q, hf, ha.owned.message hf (ha.kept.store.home i p hp)⟩

theorem Told.carried {r : PyxxlRunner} {m : CallbackRequest} (h : s.Told m)
    (hc : Carries s.runner.manager r.manager) : Told { s with runner := r } m := by
  rcases h with ⟨q, hq⟩ | ⟨p, hp⟩
  · rcases List.mem_append.mp hq with hpast | hdel
    · exact .inl ⟨q, List.mem_append_left _ hpast⟩
    · obtain ⟨i, hi, he⟩ := List.mem_map.mp hdel
      obtain ⟨hi', hhome, hmsg⟩ := hc.delivered i hi
      refine .inl ⟨q, List.mem_append_right _ (List.mem_map.mpr ⟨i, hi', ?_⟩)⟩
      rw [hhome, hmsg]
      exact he
  · rcases hc.holds p m hp with hp | ⟨i, hi, hhome, hmsg⟩
    · exact .inr ⟨p, hp⟩
    · refine .inl ⟨some p, List.mem_append_right _ (List.mem_map.mpr ⟨i, hi, ?_⟩)⟩
      simp only [hhome, hmsg]

/-- A crash spares the files that can be loaded. -/
theorem Told.restarted {m : CallbackRequest} (h : s.Told m) {e : Event} (hok : Orderly s e)
    (hs : step s e = some s') (he : ∀ r, e ≠ .runner r) : s'.Told m := by
  cases e with
  | runner e => exact absurd rfl (he e)
  | restart torn within handler taskQueueLength xxlClient gracefulClose =>
    cases hs
    rcases h with ⟨q, hq⟩ | ⟨p, r, hf, hr⟩
    · exact .inl ⟨q, List.mem_append_left _ hq⟩
    · refine .inr ⟨p, r, ?_, hr⟩
      cases torn with
      | none => exact hf
      | some t =>
        have hne : p ≠ t := by
          intro hpt
          exact hok t rfl r (by rw [← hpt]; exact hf)
        show (s.runner.manager.store.setFile t (some (Lifetimes.cutShort within))).files p =
          some (.whole r)
        simpa [Store.setFile, hne] using hf

theorem Holding.done (h : Holding s) {d : Trigger} (hd : d ∈ s.settled ++ Service.done s.runner) :
    ∃ r, Executor.Names (d, r) ∧ s.Told r.message := by
  rcases List.mem_append.mp hd with hd | hd
  · exact h.settled d hd
  · unfold Service.done at hd
    split at hd
    · rename_i hp
      have hgood := h.good
      simp only [Good, hp] at hgood
      exact closed_told hgood h.attended hd
    · cases hd

theorem Holding.step {e : Event} (h : Holding s) (hok : Orderly s e) (hs : step s e = some s') :
    Holding s' := by
  cases e with
  | runner e =>
    obtain ⟨r, hr, rfl⟩ := Option.map_eq_some_iff.mp hs
    have horderly : PyxxlRunner.Orderly s.runner e := by
      cases e with
      | start paths => exact hok.1
      | executor e => exact hok.1
      | _ => exact hok
    have hlists : ∀ paths, e = .start paths → Lists s.runner.manager (.start paths) := by
      rintro paths rfl
      exact hok.2
    have hwords : ∀ e', e = .executor e' → Deployment.Sayable s.runner.executor e' := by
      rintro e' rfl
      exact hok.2
    obtain ⟨ha, hread, hc⟩ := CallbackManager.attended_steps h.attended h.read
      (runner_manages h.good horderly hlists hwords hr)
    refine ⟨h.good.step horderly hr, ha, hread, fun d hd => ?_⟩
    obtain ⟨m, hnames, htold⟩ := h.settled d hd
    exact ⟨m, hnames, htold.carried hc⟩
  | restart torn within handler taskQueueLength xxlClient gracefulClose =>
    have hrestart : ∀ r, Event.restart torn within handler taskQueueLength xxlClient gracefulClose ≠
        .runner r := by
      intro r he
      cases he
    have htold : ∀ d ∈ s.settled ++ Service.done s.runner,
        ∃ r, Executor.Names (d, r) ∧ s'.Told r.message := by
      intro d hd
      obtain ⟨m, hnames, ht⟩ := h.done hd
      exact ⟨m, hnames, ht.restarted hok hs hrestart⟩
    cases hs
    exact ⟨PyxxlRunner.good_init .., CallbackManager.attended_init
      (Lifetimes.tear_dated h.attended.dated within torn), CallbackManager.read_init _ _, htold⟩

theorem reachable_holding (h : Reachable s) : Holding s := by
  obtain ⟨handler, taskQueueLength, files, nextUuid, xxlClient, gracefulClose, hd, hs⟩ := h
  exact hs.invariant (fun _ _ _ hi hok hst => hi.step hok hst)
    ⟨PyxxlRunner.good_init .., CallbackManager.attended_init hd, CallbackManager.read_init _ _,
      fun d hm => by cases hm⟩

def setManager (s : Service) (m : CallbackManager) : Service :=
  { s with runner := { s.runner with manager := m } }

/-- What the manager does, it does in the running process. -/
theorem run_turns : ∀ {ts : List Turn} {s : Service} {m : CallbackManager},
    s.runner.phase.running = true → run turn s.runner.manager ts = some m →
      run step s (ts.map fun t => .runner (.manager t.event)) = some (s.setManager m) := by
  intro ts
  induction ts with
  | nil => intro s m _ hr; cases hr; rfl
  | cons t ts ih =>
    intro s m hrun hr
    simp only [run] at hr
    split at hr
    · rename_i m₁ h₁
      have hm : s.runner.manager.step t.event = some m₁ := h₁
      have hstep : step s (.runner (.manager t.event)) = some (s.setManager m₁) := by
        have hown : PyxxlRunner.ownEvent t.event = true := by
          cases t <;> rfl
        simp only [Service.step, PyxxlRunner.step, hrun, hown, Bool.and_self, if_true, hm,
          Option.map_some, setManager]
      have hrest := ih (s := s.setManager m₁) hrun hr
      simp only [List.map_cons, run, hstep]
      exact hrest
    · cases hr

theorem turns_orderly {ts : List Turn} {e : Event}
    (he : e ∈ ts.map fun t => Event.runner (.manager t.event)) (s : Service) : Orderly s e := by
  obtain ⟨t, -, rfl⟩ := List.mem_map.mp he
  exact t.filesOk s.runner.manager

/-- Over any number of processes that are started one after the other, some of which crash: each
trigger that a process had accepted whose teardown went through to its end has a result that names
it, and that some process has told the admin or that is in a file. While a process serves, it can go
on, without a failure of the admin, until all of these are told. -/
theorem results_survive (h : Reachable s) :
    (∀ d ∈ s.settled ++ done s.runner, ∃ r, Executor.Names (d, r) ∧
      ((∃ q, (q, r.message) ∈ s.sent) ∨ ∃ p, s.runner.manager.Holds p r.message)) ∧
    (s.runner.phase = .serving → ∃ (ts : List Turn) (m : CallbackManager),
      (∀ t ∈ ts, t.own = true) ∧
      run step s (ts.map fun t => .runner (.manager t.event)) = some (s.setManager m) ∧
      ∀ d ∈ s.settled, ∃ r q, Executor.Names (d, r) ∧ (q, r.message) ∈ (s.setManager m).sent) := by
  have hh := reachable_holding h
  refine ⟨fun d hd => hh.done hd, fun hp => ?_⟩
  have hgood := hh.good
  simp only [Good, hp] at hgood
  obtain ⟨⟨hwork, hstart⟩, -⟩ := hgood
  obtain ⟨ts, m, hown, hr, hrest⟩ :=
    CallbackManager.descends.rests (fun _ ht => ht) _ hwork.manager (Nat.le_refl _)
  have hrun := run_turns (s := s) (by rw [hp]; rfl) hr
  obtain ⟨⟨hopen, hst⟩, -⟩ := hwork.manager.turns hstart hr
  have hreach : Reachable (s.setManager m) := by
    obtain ⟨handler, taskQueueLength, files, nextUuid, xxlClient, gracefulClose, hd, hs⟩ := h
    exact ⟨handler, taskQueueLength, files, nextUuid, xxlClient, gracefulClose, hd,
      hs.trans (.of_run (fun _ he s => turns_orderly he s) hrun)⟩
  have hh' := reachable_holding hreach
  refine ⟨ts, m, hown, hrun, fun d hd => ?_⟩
  obtain ⟨r, hnames, htold⟩ := hh'.settled d hd
  rcases htold with ⟨q, hq⟩ | ⟨p, q, hf, -⟩
  · exact ⟨r, q, hnames, hq⟩
  · have hnone := (hh'.read hst).no_files hh'.attended.kept
      (hopen.delivered_all hh'.attended.data hrest).1 p
    rw [hf] at hnone
    cases hnone

/-! The delivery of a result fails while its process is torn down, and the next process finds it. -/

def first : Service := ⟨PyxxlRunner.fresh, [], []⟩

/-- What the runner does up to the end of its serving. -/
def servedRun : List Event :=
  [.runner (.executor (.runJob (Executor.serialJob 7))), .runner (.executor (.start 0 .quiet)),
    .runner .exit]

/-- What it does once the executor is deregistered. -/
def tornRun : List Event :=
  [.runner (.executor (.handlerEnds 0 (.ok .none) .quiet)), .runner (.tasksOver always),
    .runner (.manager .workerTakes), .runner (.manager (.workerFails always)),
    .runner (.manager (.stopTimeout 0 always)), .runner (.manager (.retryEnds 0)),
    .runner (.manager (.stopRetriesOver 0 always)), .runner (.manager (.workerEnds always)),
    .runner (.manager (.stopJoined 0)), .runner (.stopped always), .runner (.stopped always)]

def began : Service := (step first (.runner (.start []))).get (by decide +kernel)

def served : Service := (run step began servedRun).get (by decide +kernel)

def removed : Service :=
  (step served (.runner (.registryRemove PyxxlRunner.accepts))).get (by decide +kernel)

def tornDown : Service := (run step removed tornRun).get (by decide +kernel)

def leftPath : CallbackPath := ⟨7, 0, 0⟩

def restarted : Service :=
  (step tornDown (.restart none false (fun _ => true) 0 PyxxlRunner.fresh.xxlClient true)).get
    (by decide +kernel)

def resumed : Service := (step restarted (.runner (.start [leftPath]))).get (by decide +kernel)

theorem servedRun_orderly : ∀ e ∈ servedRun, ∀ s, Orderly s e := by
  intro e he s
  simp only [servedRun, List.mem_cons, List.not_mem_nil, or_false] at he
  rcases he with rfl | rfl | rfl
  · have hsay := Deployment.sayable_runJob s.runner.executor (Executor.serialJob 7)
    exact ⟨⟨trivial, hsay.storable⟩, hsay⟩
  · have hsay : Deployment.Sayable s.runner.executor (.start 0 .quiet) := by
      rintro v ⟨exc, hlog, -⟩
      cases hlog
    exact ⟨⟨⟨rfl, fun exc hlog => by cases hlog⟩, hsay.storable⟩, hsay⟩
  · trivial

theorem tornRun_orderly : ∀ e ∈ tornRun, ∀ s, Orderly s e := by
  intro e he s
  simp only [tornRun, List.mem_cons, List.not_mem_nil, or_false] at he
  rcases he with rfl | rfl | rfl | rfl | rfl | rfl | rfl | rfl | rfl | rfl | rfl
  · have hsay : Deployment.Sayable s.runner.executor (.handlerEnds 0 (.ok .none) .quiet) := by
      rintro v (hv | ⟨exc, (hexc | hexc | hexc), -⟩)
      · cases hv; exact ⟨rfl, rfl⟩
      · cases hexc
      · cases hexc
      · cases hexc
    exact ⟨⟨fun exc hexc => (by cases hexc), hsay.storable⟩, hsay⟩
  · exact fun _ => rfl
  · trivial
  · exact fun _ => rfl
  · exact fun _ => rfl
  · trivial
  · exact fun _ => rfl
  · exact fun _ => rfl
  · trivial
  · exact fun _ => rfl
  · exact fun _ => rfl

theorem tornDown_steps : Steps step Orderly first tornDown := by
  have hstart : Orderly first (.runner (.start [])) :=
    ⟨fun p hp => (by cases hp), fun p f hf => (by cases hf)⟩
  have hremove : Orderly served (.runner (.registryRemove PyxxlRunner.accepts)) := by
    show (served.runner.xxlClient.registryRemove PyxxlRunner.accepts).2.isOk = true
    decide +kernel
  have hserved : Steps step Orderly first served :=
    (Steps.single hstart (Option.some_get _).symm).trans
      (.of_run servedRun_orderly (Option.some_get _).symm)
  exact (hserved.tail hremove (Option.some_get _).symm).trans
    (.of_run tornRun_orderly (Option.some_get _).symm)

/-- The one file is there. -/
theorem tornDown_files (h : Reachable tornDown) {p : CallbackPath} {f : StoredFile}
    (hf : tornDown.runner.manager.store.files p = some f) : p = leftPath := by
  have hone : tornDown.runner.manager.nextRequest = 1 := by decide +kernel
  have hpath : (tornDown.runner.manager.request 0).persistedPath = some leftPath := by
    decide +kernel
  have hh := reachable_holding h
  obtain ⟨i, hi, hp⟩ := (hh.read (by decide +kernel)).homed hf
  rw [hone, Nat.lt_one_iff] at hi
  rw [hi, hh.attended.kept.store.home 0 leftPath hpath, Option.some.injEq] at hp
  exact hp.symm

theorem reachable_tornDown : Reachable tornDown :=
  ⟨_, _, _, _, _, _, fun p f hf => (by cases hf), tornDown_steps⟩

theorem reachable_resumed : Reachable resumed := by
  have hrestart : Orderly tornDown
      (.restart none false (fun _ => true) 0 PyxxlRunner.fresh.xxlClient true) :=
    fun p hp => (by cases hp)
  have hfile : ∀ r, tornDown.runner.manager.store.files leftPath = some (.whole r) →
      r.msg.plain = true ∧ r.msg.storable = true := by
    intro r hr
    have hh := reachable_holding reachable_tornDown
    have hmsg : (tornDown.runner.manager.request 0).msg.storable = true := by decide +kernel
    have hone : 0 < tornDown.runner.manager.nextRequest := by decide +kernel
    have hpath : (tornDown.runner.manager.request 0).persistedPath = some leftPath := by
      decide +kernel
    have hm := CallbackManager.msg_of_message
      (hh.attended.owned.message hr (hh.attended.kept.store.home 0 leftPath hpath))
    rw [hm]
    exact ⟨hh.attended.data 0 hone, hmsg⟩
  have hstart : Orderly restarted (.runner (.start [leftPath])) := by
    refine ⟨fun p hp r hr => ?_, fun p f hf => ?_⟩
    · rw [List.mem_singleton.mp hp] at hr
      exact hfile r hr
    · exact List.mem_singleton.mpr (tornDown_files reachable_tornDown hf)
  obtain ⟨handler, q, files, n, xxlClient, gracefulClose, hd, hs⟩ := reachable_tornDown
  exact ⟨handler, q, files, n, xxlClient, gracefulClose, hd,
    (hs.tail hrestart (Option.some_get _).symm).tail hstart (Option.some_get _).symm⟩

theorem results_survive_resumed : ∃ s : Service, ∃ r q,
    Executor.Names (⟨0, Executor.serialJob 7⟩, r) ∧ (q, r.message) ∈ s.sent := by
  have hserving : resumed.runner.phase.isServing = true := by decide +kernel
  have hp : resumed.runner.phase = .serving := by
    cases hphase : resumed.runner.phase with
    | serving => rfl
    | _ => rw [hphase] at hserving; cases hserving
  have hsettled : ⟨0, Executor.serialJob 7⟩ ∈ resumed.settled := by decide +kernel
  obtain ⟨ts, m, -, -, htold⟩ := (results_survive reachable_resumed).2 hp
  exact ⟨resumed.setManager m, htold _ hsettled⟩

end Service
end Pyxxl
