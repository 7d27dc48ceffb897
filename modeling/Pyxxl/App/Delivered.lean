import Pyxxl.App.Teardown
import Pyxxl.Callbacks.Drained
import Pyxxl.Protocol.Served

/-!
# Pyxxl.App.Delivered

The whole path of a result: a POST to `/run`, the executor's task, the callback manager, the admin.

* `Deployment`: a server over its executor, and the manager that the executor's `enqueue` calls. The
  manager has been started before the server takes requests, as `_cleanup_ctx` does it.
* `Sound`: nobody calls `stop`, no handler is taken away, neither loggers nor observers fail, what a
  handler raises is an `Exception` with a text, files can be written, and results are plain data that
  can be stored. Deliveries may fail.
* `results_delivered`: it can always come to rest, and then the admin has been told, once each, the
  result of every `/run` that was answered 200, and of nothing else this process has run.
-/

namespace Pyxxl

open CallbackManager (FilesOk EnqueueFree StopFree Opened Attended Lists Loaded Turn turn)
open PyxxlRunner (AtWork Mirrors Storable tell sent ownEvent)
open Transition

structure Deployment where
  server : Server
  manager : CallbackManager

namespace Deployment

variable {w : Site} {s s' : Deployment} {x : Executor} {m m' : CallbackManager}

inductive Event where
  | server (e : Server.Event)
  | manager (e : CallbackManager.Event)

def step (w : Site) (s : Deployment) : Event → Option Deployment
  | .server e => (Server.step w s.server e).map fun v =>
      { server := v, manager := tell s.server.executor v.executor s.manager }
  | .manager e =>
    if ownEvent e then (s.manager.step e).map fun m => { s with manager := m } else none

/-- What the event may give the manager to tell is plain data that can be stored. -/
def Sayable (x : Executor) (e : Executor.Event) : Prop :=
  ∀ v, e.words x v → v.plain = true ∧ v.storable = true

theorem Sayable.storable {e : Executor.Event} (h : Sayable x e) : Storable x e :=
  fun v hv => (h v hv).2

def Sound (s : Deployment) : Event → Prop
  | .server (.executor e) => Executor.Ordinary s.server.executor e ∧ Sayable s.server.executor e
  | .server _ => True
  | .manager e => FilesOk s.manager e

/-- The manager loads the files of `store_dir`, and from then on the server takes requests. -/
def Reachable (w : Site) (ok : Deployment → Event → Prop) (s : Deployment) : Prop :=
  ∃ handler taskQueueLength accessToken files nextUuid paths m,
    (∀ p f, files p = some f → p.uuid < nextUuid) ∧
    FilesOk (.init files nextUuid) (.start paths) ∧ Lists (.init files nextUuid) (.start paths) ∧
    (CallbackManager.init files nextUuid).step (.start paths) = some m ∧
    Steps (step w) ok ⟨.init handler taskQueueLength accessToken, m⟩ s

/-! ## The invariant -/

theorem reporting {e : Executor.Event} (h : Executor.Ordinary x e) : Executor.Reporting x e where
  noStop := h.1.noStop
  keeps := h.1.keeps
  tells := by
    have hquiet := h.1.quiet
    cases e with
    | start t aux =>
      have haux : aux = .quiet := hquiet
      rw [haux]
      exact ⟨rfl, fun exc he => by cases he⟩
    | handlerEnds t res aux =>
      have haux : aux = .quiet := hquiet
      rw [haux]
      cases res with
      | error exc => exact ⟨h.2, rfl⟩
      | ok v => exact fun exc he => by cases he
    | _ => trivial

theorem sayable_runJob (x : Executor) (d : RunData) : Sayable x (.runJob d) := by
  rintro v rfl
  exact ⟨rfl, by decide⟩

theorem sayable_kill (x : Executor) (j : JobId) :
    Sayable x (.cancelJob j true Server.killReason) := by
  rintro v rfl
  exact ⟨rfl, by decide⟩

structure Working (w : Site) (s : Deployment) : Prop where
  server : Server.Reachable w Executor.Ordinary s.server
  work : AtWork s.server.executor s.manager
  started : s.manager.started = true
  attended : Attended s.manager
  loaded : Loaded [] s.manager
  nodup : s.manager.enqueued.Nodup

theorem enqueued_enqueue (h : Opened m) (r : CallbackRequest) :
    (m.enqueue r).enqueued = m.enqueued ++ [m.nextRequest] := by
  simp [CallbackManager.enqueue, h.opened, h.lock]

/-- The executor has called `enqueue` with these. -/
theorem enqueues_attended : ∀ {rs : List CallbackRequest} {m : CallbackManager}, Opened m →
    m.started = true → Attended m → Loaded [] m → m.enqueued.Nodup →
      (∀ r ∈ rs, r.persistedPath = none ∧ r.msg.plain = true ∧ r.msg.storable = true) →
        Attended (rs.foldl CallbackManager.enqueue m) ∧
          Loaded [] (rs.foldl CallbackManager.enqueue m) ∧
          (rs.foldl CallbackManager.enqueue m).enqueued.Nodup := by
  intro rs
  induction rs with
  | nil => intro m _ _ ha hl hn _; exact ⟨ha, hl, hn⟩
  | cons r rs ih =>
    intro m ho hst ha hl hn hrs
    obtain ⟨hp, hplain, hr⟩ := hrs r (List.mem_cons_self ..)
    have hs : m.step (.enqueue r) = some (m.enqueue r) := by
      simp [CallbackManager.step, hst, hp]
    have hacts : CallbackManager.Acts True False m (m.enqueue r) :=
      CallbackManager.acts_enqueue hst hp hr id
    obtain ⟨ho', hst', -⟩ := ho.enqueue hst hp hr
    refine ih ho' hst' (ha.step (e := .enqueue r) ⟨hr, hplain⟩ hs).1 (hl.acts ha.kept hacts) ?_
      fun r' hr' => hrs r' (List.mem_cons_of_mem _ hr')
    rw [enqueued_enqueue ho, List.nodup_append]
    refine ⟨hn, List.nodup_singleton _, fun i hi j hj => ?_⟩
    rw [List.mem_singleton.mp hj]
    exact Nat.ne_of_lt (ho.known i hi)

theorem Working.tells {v : Server} {e : Executor.Event} (h : Working w s)
    (hserver : Server.Reachable w Executor.Ordinary v) (he : Executor.Ordinary s.server.executor e)
    (hw : Sayable s.server.executor e) (hx : s.server.executor.step e = some v.executor) :
    Working w ⟨v, tell s.server.executor v.executor s.manager⟩ := by
  obtain ⟨hwork, hst⟩ := h.work.step h.started (reporting he) hw.storable hx
  obtain ⟨ha, hl, hn⟩ := enqueues_attended h.work.manager h.started h.attended h.loaded h.nodup
    (h.work.sent_words hw hx)
  exact ⟨hserver, hwork, hst, ha, hl, hn⟩

theorem Working.step {e : Event} (h : Working w s) (hok : Sound s e)
    (hs : step w s e = some s') : Working w s' := by
  cases e with
  | server e =>
    obtain ⟨v, hv, rfl⟩ := Option.map_eq_some_iff.mp hs
    have hserver : Server.Reachable w Executor.Ordinary v := by
      obtain ⟨handler, q, token, hr⟩ := h.server
      refine ⟨handler, q, token, hr.tail (fun e' he => ?_) hv⟩
      subst he
      exact hok.1
    rcases Server.step_does hv with hsame | ⟨e', hx, ⟨d, rfl⟩ | ⟨j, rfl⟩ | rfl⟩
    · have htell : tell s.server.executor v.executor s.manager = s.manager := by
        rw [PyxxlRunner.tell, sent, hsame, List.drop_length]
        rfl
      rw [htell]
      exact ⟨hserver, by rw [hsame]; exact h.work, h.started, h.attended, h.loaded, h.nodup⟩
    · exact h.tells hserver (Server.ordinary_runJob _ d) (sayable_runJob _ d) hx
    · exact h.tells hserver (Server.ordinary_cancelJob _ j true _) (sayable_kill _ j) hx
    · exact h.tells hserver hok.1 hok.2 hx
  | manager e =>
    simp only [Deployment.step] at hs
    split at hs
    · rename_i hown
      obtain ⟨m, hm, rfl⟩ := Option.map_eq_some_iff.mp hs
      obtain ⟨he, hst⟩ := PyxxlRunner.own_free (m := s.manager) hown
      obtain ⟨hwork, hstart⟩ := h.work.manage hok he hst hm
      have hacts := h.work.manager.silenced.stepActs hok he hm
      have hsame := (h.work.manager.silenced.same hacts).enqueued
      exact ⟨h.server, hwork, hstart h.started, (h.attended.step (hok.steady he) hm).1,
        h.loaded.acts h.attended.kept hacts, by rw [hsame]; exact h.nodup⟩
    · cases hs

theorem reachable_working (h : Reachable w Sound s) : Working w s := by
  obtain ⟨handler, q, token, files, n, paths, m, hdated, hf, hl, hm, hr⟩ := h
  refine hr.invariant (fun _ _ _ hi hok hs => hi.step hok hs) ?_
  have hinit := CallbackManager.opened_init files n
  obtain ⟨ho, hmsg, -⟩ := hinit.step hf trivial trivial hm
  have hnone : m.enqueued = [] := by
    have hlist : m.messages = [] := hmsg
    simpa [CallbackManager.messages] using hlist
  have hst := PyxxlRunner.step_start hm
  have hattended := CallbackManager.attended_init hdated
  have hread := (CallbackManager.read_init files n).step hattended hf hl hm
  refine ⟨⟨handler, q, token, .refl⟩, ⟨Executor.prompt_init handler q, ho, ?_⟩, hst,
    (hattended.step (hf.steady trivial) hm).1, hread hst, ?_⟩
  · rw [Mirrors, hmsg]
    rfl
  · rw [hnone]
    exact List.nodup_nil

/-! ## At rest -/

/-- What the admin has been told of what this process has run. -/
def told (s : Deployment) : List CallbackRequest :=
  (s.manager.delivered.filter (· ∈ s.manager.enqueued)).map fun i => (s.manager.request i).message

theorem Working.told_perm (h : Working w s) (hr : AtRest turn Turn.own s.manager) :
    s.told.Perm (s.server.executor.callbacks.map fun p => p.2.message) := by
  have hall := (h.work.manager.delivered_all h.attended.data hr).1
  have hsame : (s.manager.delivered.filter (· ∈ s.manager.enqueued)).Perm s.manager.enqueued := by
    refine (List.perm_ext_iff_of_nodup (h.work.manager.kept.delivered_nodup.filter _)
      h.nodup).mpr fun i => ?_
    rw [List.mem_filter, decide_eq_true_iff]
    refine ⟨fun hi => hi.2, fun hi => ⟨?_, hi⟩⟩
    exact hall.mem_iff.mpr (List.mem_range.mpr (h.work.manager.known i hi))
  have hmir : s.server.executor.callbacks.map (fun p => p.2.message) =
      s.manager.enqueued.map fun i => (s.manager.request i).message := h.work.mirrors
  rw [hmir]
  exact hsame.map _

/-- What the manager does, it does in the deployment. -/
theorem run_turns : ∀ {ts : List Turn} {s : Deployment} {m : CallbackManager},
    run turn s.manager ts = some m →
      run (step w) s (ts.map fun t => .manager t.event) = some { s with manager := m } := by
  intro ts
  induction ts with
  | nil => intro s m hr; cases hr; rfl
  | cons t ts ih =>
    intro s m hr
    simp only [run] at hr
    split at hr
    · rename_i m₁ h₁
      have hm : s.manager.step t.event = some m₁ := h₁
      have hstep : step w s (.manager t.event) = some { s with manager := m₁ } := by
        have hown : ownEvent t.event = true := by
          cases t <;> rfl
        simp only [Deployment.step, hown, if_true, hm, Option.map_some]
      have hrest := ih (s := { s with manager := m₁ }) hr
      simp only [List.map_cons, run, hstep]
      exact hrest
    · cases hr

/-- Once the executor rests, the manager can go on until it rests as well. When both do, the admin
has been told each result once, in messages that name their triggers: one for each `/run` that was
answered 200, and none besides. Nothing is left in `store_dir`. -/
theorem results_delivered (h : Reachable w Sound s)
    (hx : AtRest Executor.step Executor.Event.own s.server.executor) :
    (∃ (ts : List Turn) (m : CallbackManager), (∀ t ∈ ts, t.own = true) ∧
      run (step w) s (ts.map fun t => .manager t.event) = some { s with manager := m } ∧
        AtRest turn Turn.own m) ∧
    (AtRest turn Turn.own s.manager →
      s.told.Perm (s.server.executor.callbacks.map fun p => p.2.message) ∧
      (∀ p ∈ s.server.executor.callbacks, Executor.Names p) ∧
      (∀ d, s.server.executor.callbacks.countP (fun p => p.1.data = d) = s.server.okRuns w d) ∧
      ∀ p, s.manager.store.files p = none) := by
  have hw := reachable_working h
  constructor
  · obtain ⟨ts, m, hown, hr, hrest⟩ :=
      CallbackManager.descends.rests (fun _ ht => ht) _ hw.work.manager (Nat.le_refl _)
    exact ⟨ts, m, hown, run_turns hr, hrest⟩
  · intro hrest
    refine ⟨hw.told_perm hrest, hw.work.executor.names, ?_, ?_⟩
    · exact Server.callbacks_answered hw.server hx
    · exact hw.loaded.no_files hw.attended.kept
        (hw.work.manager.delivered_all hw.attended.data hrest).1

/-! A `/run`, and one without the token; the task has ended, and its result is with the worker. -/

def started : CallbackManager :=
  ((CallbackManager.init (fun _ => none) 0).step (.start [])).get rfl

def atFirst : Deployment := ⟨.init (fun _ => true) 30 (some (py "token")), started⟩

def firstJob : List Event :=
  [.server (.arrive ⟨.run, some (py "token"), some (py Server.runText)⟩),
    .server (.arrive ⟨.run, none, some (py Server.runText)⟩), .server (.read 0),
    .server (.executor (.start 0 .quiet)), .server (.executor (.handlerEnds 0 (.ok .none) .quiet))]

set_option maxRecDepth 8000 in
def ran : Deployment := (run (step Server.site) atFirst firstJob).get rfl

set_option maxRecDepth 8000 in
def finished : Deployment :=
  (run (step Server.site) ran [.server (.executor (.resumeCleanup 0 .quiet)),
    .manager .workerTakes]).get rfl

theorem firstJob_sound : ∀ e ∈ firstJob, ∀ s, Sound s e := by
  intro e he s
  simp only [firstJob, List.mem_cons, List.not_mem_nil, or_false] at he
  rcases he with rfl | rfl | rfl | rfl | rfl
  · trivial
  · trivial
  · trivial
  · refine ⟨Executor.Event.plain_ordinary _ rfl, ?_⟩
    rintro v ⟨exc, hlog, -⟩
    cases hlog
  · refine ⟨Executor.Event.plain_ordinary _ rfl, ?_⟩
    rintro v (hv | ⟨exc, hv | hv | hv, -⟩)
    · cases hv; exact ⟨rfl, rfl⟩
    · cases hv
    · cases hv
    · cases hv

set_option maxRecDepth 8000 in
theorem reachable_finished : Reachable Server.site Sound finished := by
  refine ⟨fun _ => true, 30, some (py "token"), fun _ => none, 0, [], started,
    fun p f hf => (by cases hf), fun p hp => (by cases hp), fun p f hf => (by cases hf), rfl, ?_⟩
  have hfirst : Steps (step Server.site) Sound atFirst ran :=
    .of_run firstJob_sound (Option.some_get _).symm
  have hcleanup : Sound ran (.server (.executor (.resumeCleanup 0 .quiet))) := by
    refine ⟨Executor.Event.plain_ordinary _ rfl, ?_⟩
    rintro v rfl
    exact ⟨rfl, rfl⟩
  have hrun : run (step Server.site) ran [.server (.executor (.resumeCleanup 0 .quiet)),
      .manager .workerTakes] = some finished := (Option.some_get _).symm
  refine hfirst.trans (.of_allowed ?_ hrun)
  exact ⟨hcleanup, fun s' _ => ⟨trivial, fun _ _ => trivial⟩⟩

set_option maxRecDepth 8000 in
theorem finished_rests : AtRest Executor.step Executor.Event.own finished.server.executor := by
  have hw := reachable_working reachable_finished
  have htask : finished.server.executor.nextTask = 1 := rfl
  have hcall : finished.server.executor.nextCall = 1 := rfl
  refine Executor.Ended.atRest ⟨fun t ht => ?_, fun n hn => ?_, fun j => ?_⟩
    hw.work.executor.inv.fresh
  · have ht0 : t = 0 := by omega
    subst ht0
    exact ⟨⟨none, rfl⟩, rfl⟩
  · have hn0 : n = 0 := by omega
    subst hn0
    exact .inl ⟨.ok .running, rfl⟩
  · rw [hw.work.executor.free.locks]

/-- The one result is told. -/
theorem results_delivered_finished : ∃ s : Deployment, s.server = finished.server ∧
    s.told.Perm (finished.server.executor.callbacks.map fun p => p.2.message) ∧
    finished.server.executor.callbacks.countP (fun p => p.1.data = Server.runBody) =
      finished.server.okRuns Server.site Server.runBody := by
  obtain ⟨ts, m, -, hr, hrest⟩ := (results_delivered reachable_finished finished_rests).1
  refine ⟨{ finished with manager := m }, rfl, ?_⟩
  have hreach : Reachable Server.site Sound { finished with manager := m } := by
    obtain ⟨handler, q, token, files, n, paths, m₀, hd, hf, hl, hm, hs⟩ := reachable_finished
    refine ⟨handler, q, token, files, n, paths, m₀, hd, hf, hl, hm, hs.trans (.of_run ?_ hr)⟩
    intro e he s
    obtain ⟨t, -, rfl⟩ := List.mem_map.mp he
    exact t.filesOk s.manager
  obtain ⟨htold, -, hruns, -⟩ := (results_delivered hreach finished_rests).2 hrest
  exact ⟨htold, hruns Server.runBody⟩

end Deployment
end Pyxxl
