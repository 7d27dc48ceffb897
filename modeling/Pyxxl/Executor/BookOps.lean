import Pyxxl.Executor.Books

/-!
# Pyxxl.Executor.BookOps

The six operations that change the books, each shown to keep `Books` and to be an evolution of
the abstract line: a trigger starts on an idle job, joins the queue, takes the replacement slot,
pending triggers are dropped, a task begins, a task is finished.
-/

namespace Pyxxl
namespace Executor

variable {s s' : Executor} {d : RunData} {j : JobId} {t : Nat}

/-- The trigger that accepting `d` creates. -/
def newTrigger (s : Executor) (d : RunData) : Trigger := ⟨s.accepted.length, d⟩

@[simp] theorem newTrigger_jobId (s : Executor) (d : RunData) :
    (newTrigger s d).jobId = d.jobId := rfl

@[simp] theorem newTrigger_logId (s : Executor) (d : RunData) :
    (newTrigger s d).logId = d.logId := rfl

@[simp] theorem newTrigger_ticket (s : Executor) (d : RunData) :
    (newTrigger s d).ticket = s.accepted.length := rfl

theorem line_cons (ht : s.tasks j = some t) : s.line j = (s.obj t).data :: s.pending j := by
  simp [line, current, ht]

theorem Books.line_job (hb : Books s) {x : Trigger} (h : x ∈ s.line j) : x.jobId = j := by
  simp only [line, List.mem_append] at h
  rcases h with h | h
  · simp only [Executor.current] at h
    cases ht : s.tasks j with
    | none => simp [ht] at h
    | some t =>
      simp only [ht, List.mem_singleton] at h
      subst h
      exact ((hb.job j).current t ht).2.1
  · exact (hb.job j).owner x h

theorem Books.tasks_lt (hb : Books s) (ht : s.tasks j = some t) : t < s.nextTask :=
  ((hb.job j).current t ht).1

theorem Books.busy (hb : Books s) (h : s.idle j = false) : ∃ t, s.tasks j = some t := by
  cases ht : s.tasks j with
  | some t => exact ⟨t, rfl⟩
  | none =>
    have hp := (hb.job j).lone ht
    simp only [pending, List.append_eq_nil_iff, Option.toList_eq_nil_iff] at hp
    simp [idle, ht, hp.1, hp.2] at h

theorem ticket_append (hb : Books s) :
    (s.accepted ++ [newTrigger s d]).map Trigger.ticket =
      List.range (s.accepted ++ [newTrigger s d]).length := by
  simp [hb.tickets, List.range_succ]

theorem filter_append_other {α : Type} {p : α → Bool} {xs : List α} {x : α} (h : p x = false) :
    (xs ++ [x]).filter p = xs.filter p := by
  simp [h]

/-! ## A trigger starts on an idle job -/

theorem startIdle_eq (s : Executor) (d : RunData) :
    s.startIdle d =
      { s with
        tasks := Function.update s.tasks d.jobId (some s.nextTask)
        obj := Function.update s.obj s.nextTask
          { task := .scheduled false, data := newTrigger s d }
        nextTask := s.nextTask + 1
        jobLogIds := Function.update s.jobLogIds d.jobId (insert d.logId (s.jobLogIds d.jobId))
        accepted := s.accepted ++ [newTrigger s d] } := rfl

theorem startIdle_away (hb : Books s) {k : JobId} (hk : k ≠ d.jobId) :
    Away s (s.startIdle d) k where
  tasks := Function.update_of_ne hk _ _
  queue := rfl
  logIds := Function.update_of_ne hk _ _
  cover := rfl
  nextTask := Nat.le_succ _
  data t ht := by
    have : t ≠ s.nextTask := (hb.tasks_lt ht).ne
    simp [startIdle_eq, this]
  begun t ht := by
    have : t ≠ s.nextTask := (hb.tasks_lt ht).ne
    simp [startIdle_eq, this]
  finished _ _ h := h
  accepted := List.subset_append_left _ _
  arrived := by rw [startIdle_eq]; exact filter_append_other (by simp [hk.symm])
  served := rfl

theorem startIdle_line (hi : s.idle d.jobId = true) :
    (s.startIdle d).current d.jobId = [newTrigger s d] ∧ (s.startIdle d).pending d.jobId = [] := by
  simp only [idle, Bool.and_eq_true, Option.isNone_iff_eq_none, List.isEmpty_iff] at hi
  simp [current, pending, startIdle_eq, hi.1.2, hi.2]

theorem startIdle_books (hb : Books s) (hi : s.idle d.jobId = true) : Books (s.startIdle d) where
  job k := by
    by_cases hk : k = d.jobId
    · subst hk
      obtain ⟨hc, hp⟩ := startIdle_line hi
      have hl : s.jobLogIds d.jobId = ∅ := by
        simp only [idle, Bool.and_eq_true, Option.isNone_iff_eq_none, List.isEmpty_iff] at hi
        simp [(hb.job _).logIds, line, current, pending, hi.1.1, hi.1.2, hi.2]
      refine ⟨?_, ?_, ?_, ?_, ?_, ?_⟩
      · intro t ht
        simp only [startIdle_eq, Function.update_self, Option.some.injEq] at ht
        subst ht
        refine ⟨Nat.lt_succ_self _, by simp [startIdle_eq], ?_⟩
        intro hf
        exact absurd (hb.finishedLt _ hf) (Nat.lt_irrefl _)
      · intro _; exact hp
      · rw [hp]; simp
      · rw [line, hc, hp]; simp [startIdle_eq]
      · rw [line, hc, hp]; simp [startIdle_eq, hl]
      · rw [line, hc, hp]; simp
    · exact (startIdle_away hb hk).jobBooks (hb.job k)
  unfinished t ht hf := by
    by_cases hn : t = s.nextTask
    · subst hn; simp [startIdle_eq]
    · have hlt : t < s.nextTask := by
        rw [startIdle_eq] at ht
        exact lt_of_le_of_ne (Nat.le_of_lt_succ ht) hn
      have ho : (s.startIdle d).obj t = s.obj t := by
        simp [startIdle_eq, hn]
      have hu := hb.unfinished t hlt hf
      have hne : (s.obj t).data.jobId ≠ d.jobId := by
        intro he
        simp only [idle, Bool.and_eq_true, Option.isNone_iff_eq_none] at hi
        rw [he, hi.1.1] at hu
        cases hu
      rw [ho, startIdle_eq]
      exact (Function.update_of_ne hne _ _).trans hu
  startedKnown t ht hs := by
    by_cases hn : t = s.nextTask
    · subst hn; simp [startIdle_eq] at hs
    · have hlt : t < s.nextTask := by
        rw [startIdle_eq] at ht
        exact lt_of_le_of_ne (Nat.le_of_lt_succ ht) hn
      have ho : (s.startIdle d).obj t = s.obj t := by
        simp [startIdle_eq, hn]
      rw [ho] at hs ⊢
      exact hb.startedKnown t hlt hs
  tickets := by rw [startIdle_eq]; exact ticket_append hb
  finishedLt t ht := Nat.lt_succ_of_lt (hb.finishedLt t ht)
  once := hb.once

theorem startIdle_serves (hb : Books s) (hi : s.idle d.jobId = true) :
    Serves s (s.startIdle d) := by
  intro k L hL
  by_cases hk : k = d.jobId
  · subst hk
    obtain ⟨-, hp⟩ := startIdle_line hi
    have hw : s.waiting d.jobId = [] := by
      simp only [idle, Bool.and_eq_true, Option.isNone_iff_eq_none, List.isEmpty_iff] at hi
      simp [waiting, unstarted, pending, hi.1.1, hi.1.2, hi.2]
    refine ⟨L.arrive (newTrigger s d), .arrive _ .refl, ⟨?_, ?_, ?_⟩⟩
    · simp [Line.arrive, hL.arrived, startIdle_eq]
    · exact hL.served
    · simp only [Line.arrive, hL.waiting, hw]
      rw [waiting, hp]
      simp [unstarted, startIdle_eq]
  · exact ⟨L, .refl, (startIdle_away hb hk).views hL⟩

/-! ## A trigger joins the pending ones of a busy job -/

/-- `d` is accepted and stands last among the pending triggers of its job. -/
structure Joins (s : Executor) (d : RunData) (s' : Executor) : Prop where
  tasks : s'.tasks = s.tasks
  obj : s'.obj = s.obj
  nextTask : s'.nextTask = s.nextTask
  accepted : s'.accepted = s.accepted ++ [newTrigger s d]
  started : s'.started = s.started
  finished : s'.finished = s.finished
  pending : s'.pending d.jobId = s.pending d.jobId ++ [newTrigger s d]
  queue : ∀ k, k ≠ d.jobId → s'.queue k = s.queue k
  cover : ∀ k, k ≠ d.jobId → s'.coverReplacements k = s.coverReplacements k
  logIds : s'.jobLogIds =
    Function.update s.jobLogIds d.jobId (insert d.logId (s.jobLogIds d.jobId))

namespace Joins

theorem away (h : Joins s d s') {k : JobId} (hk : k ≠ d.jobId) : Away s s' k where
  tasks := by rw [h.tasks]
  queue := h.queue k hk
  logIds := by rw [h.logIds, Function.update_of_ne hk]
  cover := h.cover k hk
  nextTask := by rw [h.nextTask]
  data _ _ := by rw [h.obj]
  begun _ _ := by rw [h.obj]
  finished _ _ hf := by rwa [h.finished] at hf
  accepted := by rw [h.accepted]; exact List.subset_append_left _ _
  arrived := by rw [h.accepted]; exact filter_append_other (by simp [hk.symm])
  served := by rw [h.started]

theorem current (h : Joins s d s') (k : JobId) : s'.current k = s.current k := by
  simp only [Executor.current, h.tasks, h.obj]

theorem line (h : Joins s d s') : s'.line d.jobId = s.line d.jobId ++ [newTrigger s d] := by
  simp [Executor.line, h.current, h.pending]

theorem waiting (h : Joins s d s') :
    s'.waiting d.jobId = s.waiting d.jobId ++ [newTrigger s d] := by
  simp [Executor.waiting, unstarted, h.tasks, h.obj, h.pending]

theorem books (h : Joins s d s') (hb : Books s) (ht : s.tasks d.jobId = some t)
    (hl : d.logId ∉ s.jobLogIds d.jobId) : Books s' where
  job k := by
    by_cases hk : k = d.jobId
    · subst hk
      have hj := hb.job d.jobId
      refine ⟨?_, ?_, ?_, ?_, ?_, ?_⟩
      · rw [h.tasks, h.nextTask, h.obj, h.finished]; exact hj.current
      · intro hn; rw [h.tasks, ht] at hn; cases hn
      · intro x hx
        rw [h.pending, List.mem_append, List.mem_singleton] at hx
        rcases hx with hx | rfl
        · exact hj.owner x hx
        · rfl
      · intro x hx
        rw [h.line, List.mem_append] at hx
        rw [h.accepted, List.mem_append]
        exact hx.imp_left (hj.known x)
      · rw [h.line, h.logIds, Function.update_self, hj.logIds]
        ext l
        simp
      · rw [h.line, List.map_append, List.nodup_append]
        refine ⟨hj.distinct, by simp, ?_⟩
        intro l hm l' hm' he
        rw [hj.logIds, List.mem_toFinset] at hl
        simp only [List.map_cons, List.map_nil, List.mem_singleton, newTrigger_logId] at hm'
        exact hl (by rw [← hm', ← he]; exact hm)
    · exact (h.away hk).jobBooks (hb.job k)
  unfinished := by rw [h.nextTask, h.finished, h.obj, h.tasks]; exact hb.unfinished
  startedKnown := by rw [h.nextTask, h.obj, h.started]; exact hb.startedKnown
  tickets := by rw [h.accepted]; exact ticket_append hb
  finishedLt := by rw [h.finished, h.nextTask]; exact hb.finishedLt
  once := by rw [h.finished]; exact hb.once

theorem serves (h : Joins s d s') : Serves s s' := by
  intro k L hL
  by_cases hk : k = d.jobId
  · subst hk
    refine ⟨L.arrive (newTrigger s d), .arrive _ .refl, ⟨?_, ?_, ?_⟩⟩
    · simp [Line.arrive, hL.arrived, h.accepted]
    · rw [h.started]; exact hL.served
    · rw [h.waiting]; simp [Line.arrive, hL.waiting]
  · exact ⟨L, .refl, (h.away hk).views hL⟩

end Joins

theorem enqueueSerial_joins (s : Executor) (d : RunData) : Joins s d (s.enqueueSerial d) where
  tasks := rfl
  obj := rfl
  nextTask := rfl
  accepted := rfl
  started := rfl
  finished := rfl
  pending := by
    simp [Executor.pending, enqueueSerial, accept, setQueue, registerLogId, newTrigger]
  queue k hk := by simp [enqueueSerial, accept, setQueue, registerLogId, hk]
  cover _ _ := rfl
  logIds := rfl

/-! ## The pending triggers are dropped -/

theorem drainLoop_eq (j : JobId) : ∀ (q : List Trigger) (s : Executor),
    s.queue j = q → drainLoop j q s =
      { s with
        queue := Function.update s.queue j []
        jobLogIds := Function.update s.jobLogIds j
          (s.jobLogIds j \ (q.map Trigger.logId).toFinset) } := by
  intro q
  induction q with
  | nil =>
    intro s hq
    have h1 : Function.update s.queue j [] = s.queue := by rw [← hq, Function.update_eq_self]
    simp [drainLoop, h1]
  | cons x rest ih =>
    intro s _
    rw [drainLoop, ih _ (by simp [setQueue, releaseLogId])]
    simp only [setQueue, releaseLogId, Function.update_idem, Function.update_self]
    congr 2
    ext l
    simp only [Finset.mem_sdiff, Finset.mem_erase, List.mem_toFinset, List.map_cons, List.mem_cons]
    tauto

theorem takePending_snd (s : Executor) (j : JobId) :
    (s.takePending j).2 = s.queue j ++ (s.coverReplacements j).toList := by
  simp only [takePending, drainPendingQueueLocked, popCoverReplacement]
  rw [drainLoop_eq j _ s rfl]
  cases s.coverReplacements j <;> simp

theorem takePending_fst (s : Executor) (j : JobId) :
    (s.takePending j).1 =
      { s with
        queue := Function.update s.queue j []
        coverReplacements := Function.update s.coverReplacements j none
        jobLogIds := Function.update s.jobLogIds j
          (s.jobLogIds j \ ((s.pending j).map Trigger.logId).toFinset) } := by
  simp only [takePending, drainPendingQueueLocked, popCoverReplacement]
  rw [drainLoop_eq j _ s rfl]
  cases h : s.coverReplacements j with
  | none => simp [Executor.pending, h]
  | some r =>
    simp only [releaseLogId, Function.update_idem, Function.update_self, Executor.pending, h,
      Option.toList_some, List.singleton_append, List.map_cons]
    congr 2
    ext l
    simp only [Finset.mem_erase, Finset.mem_sdiff, List.mem_toFinset, List.mem_cons]
    tauto

theorem takePending_away (s : Executor) (j : JobId) {k : JobId} (hk : k ≠ j) :
    Away s (s.takePending j).1 k := by
  rw [takePending_fst]
  exact ⟨rfl, Function.update_of_ne hk _ _, Function.update_of_ne hk _ _,
    Function.update_of_ne hk _ _, Nat.le_refl _, fun _ _ => rfl, fun _ _ => rfl,
    fun _ _ h => h, fun _ h => h, rfl, rfl⟩

theorem takePending_pending (s : Executor) (j : JobId) : (s.takePending j).1.pending j = [] := by
  rw [takePending_fst]; simp [Executor.pending]

theorem takePending_current (s : Executor) (j k : JobId) :
    (s.takePending j).1.current k = s.current k := by
  rw [takePending_fst]; rfl

theorem takePending_books (hb : Books s) (j : JobId) : Books (s.takePending j).1 where
  job k := by
    by_cases hk : k = j
    · subst hk
      have hj := hb.job k
      have hl : (s.takePending k).1.line k = s.current k := by
        rw [line, takePending_current, takePending_pending, List.append_nil]
      have hd := hj.distinct
      rw [line, List.map_append, List.nodup_append] at hd
      refine ⟨?_, fun _ => takePending_pending s k, ?_, ?_, ?_, ?_⟩
      · rw [takePending_fst]; exact hj.current
      · rw [takePending_pending]; simp
      · intro x hx
        rw [hl] at hx
        rw [takePending_fst]
        exact hj.known x (List.mem_append_left _ hx)
      · rw [hl, takePending_fst]
        simp only [Function.update_self, hj.logIds, line, List.map_append, List.toFinset_append]
        ext l
        simp only [Finset.mem_sdiff, Finset.mem_union, List.mem_toFinset]
        constructor
        · rintro ⟨h1 | h1, h2⟩
          · exact h1
          · exact absurd h1 h2
        · intro h1
          exact ⟨.inl h1, fun h2 => hd.2.2 l h1 l h2 rfl⟩
      · rw [hl]; exact hd.1
    · exact (takePending_away s j hk).jobBooks (hb.job k)
  unfinished := by rw [takePending_fst]; exact hb.unfinished
  startedKnown := by rw [takePending_fst]; exact hb.startedKnown
  tickets := by rw [takePending_fst]; exact hb.tickets
  finishedLt := by rw [takePending_fst]; exact hb.finishedLt
  once := by rw [takePending_fst]; exact hb.once

theorem takePending_serves (s : Executor) (j : JobId) : Serves s (s.takePending j).1 := by
  intro k L hL
  by_cases hk : k = j
  · subst hk
    have hu : (s.takePending k).1.unstarted k = s.unstarted k := by rw [takePending_fst]; rfl
    have hw : (s.takePending k).1.waiting k = s.unstarted k := by
      rw [Executor.waiting, takePending_pending, List.append_nil, hu]
    refine ⟨L.keep (s.unstarted k) ?_, .keep _ _ .refl, ⟨?_, ?_, ?_⟩⟩
    · rw [hL.waiting]; exact List.sublist_append_left _ _
    · rw [takePending_fst]; exact hL.arrived
    · rw [takePending_fst]; exact hL.served
    · exact hw.symm
  · exact ⟨L, .refl, (takePending_away s j hk).views hL⟩

/-! ## The replacement slot -/

/-- `_handle_cover_early` after the pending triggers are gone: `d` takes the slot. -/
def fillCover (s : Executor) (d : RunData) : Executor :=
  { ((s.registerLogId d.jobId d.logId).accept d).1 with
    coverReplacements := Function.update s.coverReplacements d.jobId (some (newTrigger s d)) }

theorem fillCover_joins (hp : s.pending d.jobId = []) : Joins s d (s.fillCover d) where
  tasks := rfl
  obj := rfl
  nextTask := rfl
  accepted := rfl
  started := rfl
  finished := rfl
  pending := by
    simp only [Executor.pending, List.append_eq_nil_iff] at hp
    simp [Executor.pending, fillCover, accept, registerLogId, hp.1, hp.2]
  queue _ _ := rfl
  cover k hk := by simp [fillCover, hk]
  logIds := rfl

theorem coverEarly_fst (ht : s.tasks d.jobId = some t) :
    (s.coverEarly d).1 =
      (((s.takePending d.jobId).1.fillCover d).setCancelReason t coverReason).cancel t := by
  have h : (s.takePending d.jobId).1.tasks d.jobId = some t := by rw [takePending_fst]; exact ht
  simp only [coverEarly, accept, registerLogId, h]
  rfl

theorem coverEarly_snd (s : Executor) (d : RunData) :
    (s.coverEarly d).2 = s.queue d.jobId ++ (s.coverReplacements d.jobId).toList := by
  rw [← takePending_snd]
  simp only [coverEarly]
  split <;> rfl

theorem coverEarly_sameBooks (ht : s.tasks d.jobId = some t) :
    SameBooks ((s.takePending d.jobId).1.fillCover d) (s.coverEarly d).1 := by
  rw [coverEarly_fst ht]
  exact (SameBooks.setCancelReason t _).trans (.cancel t)

/-! ## A task is finished -/

/-- `t` is gone, and the next pending trigger of its job, if there is one, has a task. -/
structure Finishes (s : Executor) (t : Nat) (s' : Executor) : Prop where
  finished : s'.finished = s.finished ++ [t]
  accepted : s'.accepted = s.accepted
  started : s'.started = s.started
  callbacks : s'.callbacks = s.callbacks
  dropped : s'.dropped = s.dropped
  call : s'.call = s.call
  nextCall : s'.nextCall = s.nextCall
  jobLocks : s'.jobLocks = s.jobLocks
  workerLock : s'.workerLock = s.workerLock
  closed : s'.closed = s.closed
  handler : s'.handler = s.handler
  logIds : s'.jobLogIds = Function.update s.jobLogIds (s.obj t).data.jobId
    ((s.jobLogIds (s.obj t).data.jobId).erase (s.obj t).data.logId)
  tasks : ∀ k, k ≠ (s.obj t).data.jobId → s'.tasks k = s.tasks k
  queue : ∀ k, k ≠ (s.obj t).data.jobId → s'.queue k = s.queue k
  cover : ∀ k, k ≠ (s.obj t).data.jobId → s'.coverReplacements k = s.coverReplacements k
  next : (s.pending (s.obj t).data.jobId = [] ∧ s'.pending (s.obj t).data.jobId = [] ∧
      s'.tasks (s.obj t).data.jobId = none ∧ s'.obj = s.obj ∧ s'.nextTask = s.nextTask) ∨
    ∃ x, s.pending (s.obj t).data.jobId = x :: s'.pending (s.obj t).data.jobId ∧
      s'.tasks (s.obj t).data.jobId = some s.nextTask ∧
      s'.obj = Function.update s.obj s.nextTask { task := .scheduled false, data := x } ∧
      s'.nextTask = s.nextTask + 1

theorem finish_finishes (hb : Books s) (ht : s.tasks (s.obj t).data.jobId = some t) :
    Finishes s t (s.finish t) := by
  have howner := (hb.job (s.obj t).data.jobId).owner
  cases hc : s.coverReplacements (s.obj t).data.jobId with
  | some r =>
    have hr : r.jobId = (s.obj t).data.jobId := howner r (by simp [Executor.pending, hc])
    simp only [finish, ht, if_true, popCoverReplacement, releaseLogId, hc]
    refine ⟨rfl, rfl, rfl, rfl, rfl, rfl, rfl, rfl, rfl, rfl, rfl, rfl, ?_, fun _ _ => rfl, ?_,
      .inr ⟨r, ?_, ?_, rfl, rfl⟩⟩
    · intro k hk; simp [createTask, hr, hk]
    · intro k hk; simp [createTask, hk]
    · simp [Executor.pending, createTask, hc]
    · simp [createTask, hr]
  | none =>
    cases hq : s.queue (s.obj t).data.jobId with
    | nil =>
      simp only [finish, ht, if_true, popCoverReplacement, releaseLogId, hc, hq]
      refine ⟨rfl, rfl, rfl, rfl, rfl, rfl, rfl, rfl, rfl, rfl, rfl, rfl, ?_, fun _ _ => rfl, ?_,
        .inl ⟨?_, ?_, ?_, rfl, rfl⟩⟩
      · intro k hk; simp [hk]
      · intro k hk; simp [hk]
      · simp [Executor.pending, hc, hq]
      · simp [Executor.pending, hq]
      · simp
    | cons y rest =>
      have hy : y.jobId = (s.obj t).data.jobId := howner y (by simp [Executor.pending, hq])
      simp only [finish, ht, if_true, popCoverReplacement, releaseLogId, hc, hq]
      refine ⟨rfl, rfl, rfl, rfl, rfl, rfl, rfl, rfl, rfl, rfl, rfl, rfl, ?_, ?_, ?_,
        .inr ⟨y, ?_, ?_, rfl, ?_⟩⟩
      · intro k hk; simp [createTask, setQueue, hy, hk]
      · intro k hk; simp [createTask, setQueue, hk]
      · intro k hk; simp [createTask, setQueue, hk]
      · simp [Executor.pending, createTask, setQueue, hc, hq]
      · simp [createTask, setQueue, hy]
      · simp [createTask, setQueue]

/-- Whatever the books say, `_finish` touches no history but its own, no callback and no call. -/
theorem finish_frame (s : Executor) (t : Nat) :
    ((s.finish t).finished = s.finished ++ [t] ∧ (s.finish t).accepted = s.accepted ∧
      (s.finish t).started = s.started) ∧
    ((s.finish t).callbacks = s.callbacks ∧ (s.finish t).dropped = s.dropped ∧
      (s.finish t).closed = s.closed ∧ (s.finish t).call = s.call ∧
      (s.finish t).nextCall = s.nextCall) := by
  by_cases ht : s.tasks (s.obj t).data.jobId = some t
  · cases hc : s.coverReplacements (s.obj t).data.jobId with
    | some r => simp [finish, ht, popCoverReplacement, releaseLogId, hc, createTask]
    | none =>
      cases hq : s.queue (s.obj t).data.jobId with
      | nil => simp [finish, ht, popCoverReplacement, releaseLogId, hc, hq]
      | cons y rest =>
        simp [finish, ht, popCoverReplacement, releaseLogId, hc, hq, createTask, setQueue]
  · simp [finish, ht, releaseLogId]

/-- `_finish` records itself and accepts and starts nothing. -/
theorem finish_history (s : Executor) (t : Nat) : (s.finish t).finished = s.finished ++ [t] ∧
    (s.finish t).accepted = s.accepted ∧ (s.finish t).started = s.started :=
  (finish_frame s t).1

/-- `_finish` concerns no callback and no call. -/
theorem finish_callbacks (s : Executor) (t : Nat) : (s.finish t).callbacks = s.callbacks ∧
    (s.finish t).dropped = s.dropped ∧ (s.finish t).closed = s.closed ∧
    (s.finish t).call = s.call ∧ (s.finish t).nextCall = s.nextCall :=
  (finish_frame s t).2

namespace Finishes

theorem nextTask_le (h : Finishes s t s') : s.nextTask ≤ s'.nextTask := by
  rcases h.next with ⟨-, -, -, -, hn⟩ | ⟨_, -, -, -, hn⟩ <;> omega

theorem obj_of_lt (h : Finishes s t s') {u : Nat} (hu : u < s.nextTask) :
    s'.obj u = s.obj u := by
  rcases h.next with ⟨-, -, -, ho, -⟩ | ⟨_, -, -, ho, -⟩
  · rw [ho]
  · rw [ho, Function.update_of_ne hu.ne]

theorem away (h : Finishes s t s') (hb : Books s) {k : JobId} (hk : k ≠ (s.obj t).data.jobId) :
    Away s s' k where
  tasks := h.tasks k hk
  queue := h.queue k hk
  logIds := by rw [h.logIds, Function.update_of_ne hk]
  cover := h.cover k hk
  nextTask := h.nextTask_le
  data u hu := by rw [h.obj_of_lt (hb.tasks_lt hu)]
  begun u hu := by rw [h.obj_of_lt (hb.tasks_lt hu)]
  finished u hu hf := by
    rw [h.finished, List.mem_append, List.mem_singleton] at hf
    rcases hf with hf | rfl
    · exact hf
    · exact absurd ((hb.job k).current _ hu).2.1 hk.symm
  accepted := by rw [h.accepted]; exact fun _ hx => hx
  arrived := by rw [h.accepted]
  served := by rw [h.started]

/-- What was pending is now the whole line, and none of it has begun. -/
theorem line (h : Finishes s t s') :
    s'.line (s.obj t).data.jobId = s.pending (s.obj t).data.jobId ∧
      s'.waiting (s.obj t).data.jobId = s.pending (s.obj t).data.jobId := by
  rcases h.next with ⟨hp, hp', ht, -, -⟩ | ⟨x, hp, ht, ho, -⟩
  · simp [Executor.line, Executor.waiting, Executor.current, unstarted, ht, hp, hp']
  · simp [Executor.line, Executor.waiting, Executor.current, unstarted, ht, ho, hp]

theorem jobBooks (h : Finishes s t s') (hb : Books s) (ht : s.tasks (s.obj t).data.jobId = some t) :
    JobBooks s' (s.obj t).data.jobId := by
  have hj := hb.job (s.obj t).data.jobId
  have hline := line_cons ht
  have hd := hj.distinct
  rw [hline, List.map_cons, List.nodup_cons] at hd
  refine ⟨?_, ?_, ?_, ?_, ?_, ?_⟩
  · intro u hu
    rcases h.next with ⟨-, -, ht', -, -⟩ | ⟨x, hp, ht', ho, hn⟩
    · rw [ht'] at hu; cases hu
    · rw [ht'] at hu
      cases hu
      refine ⟨by omega, ?_, ?_⟩
      · rw [ho, Function.update_self]
        exact hj.owner x (by rw [hp]; simp)
      · rw [h.finished, List.mem_append, List.mem_singleton]
        rintro (hf | hf)
        · exact absurd (hb.finishedLt _ hf) (Nat.lt_irrefl _)
        · exact absurd (hb.tasks_lt ht) (by omega)
  · intro hn
    rcases h.next with ⟨-, hp', -, -, -⟩ | ⟨x, -, ht', -, -⟩
    · exact hp'
    · rw [ht'] at hn; cases hn
  · intro x hx
    apply hj.owner x
    rcases h.next with ⟨-, hp', -, -, -⟩ | ⟨y, hp, -, -, -⟩
    · rw [hp'] at hx; cases hx
    · rw [hp]; exact List.mem_cons_of_mem _ hx
  · intro x hx
    rw [h.line.1] at hx
    rw [h.accepted]
    exact hj.known x (List.mem_append_right _ hx)
  · rw [h.line.1, h.logIds, Function.update_self, hj.logIds, hline]
    ext l
    simp only [Finset.mem_erase, List.mem_toFinset, List.map_cons, List.mem_cons]
    constructor
    · rintro ⟨hne, hl | hl⟩
      · exact absurd hl hne
      · exact hl
    · intro hl
      exact ⟨fun he => hd.1 (he ▸ hl), .inr hl⟩
  · rw [h.line.1]; exact hd.2

theorem books (h : Finishes s t s') (hb : Books s) (ht : s.tasks (s.obj t).data.jobId = some t) :
    Books s' where
  job k := by
    by_cases hk : k = (s.obj t).data.jobId
    · subst hk; exact h.jobBooks hb ht
    · exact (h.away hb hk).jobBooks (hb.job k)
  unfinished u hu hf := by
    rw [h.finished, List.mem_append, List.mem_singleton, not_or] at hf
    by_cases hlt : u < s.nextTask
    · rw [h.obj_of_lt hlt]
      have hcur := hb.unfinished u hlt hf.1
      have hne : (s.obj u).data.jobId ≠ (s.obj t).data.jobId := by
        intro he
        rw [he, ht] at hcur
        exact hf.2 (Option.some.inj hcur).symm
      rw [h.tasks _ hne]
      exact hcur
    · rcases h.next with ⟨-, -, -, -, hn⟩ | ⟨x, hp, ht', ho, hn⟩
      · omega
      · have : u = s.nextTask := by omega
        subst this
        have hx : x.jobId = (s.obj t).data.jobId :=
          (hb.job _).owner x (by rw [hp]; simp)
        rw [ho, Function.update_self]
        simp only [hx]
        exact ht'
  startedKnown u hu hs := by
    rw [h.started]
    by_cases hlt : u < s.nextTask
    · rw [h.obj_of_lt hlt] at hs ⊢
      exact hb.startedKnown u hlt hs
    · rcases h.next with ⟨-, -, -, -, hn⟩ | ⟨x, -, -, ho, hn⟩
      · omega
      · have : u = s.nextTask := by omega
        subst this
        rw [ho, Function.update_self] at hs
        cases hs
  tickets := by rw [h.accepted]; exact hb.tickets
  finishedLt u hu := by
    have := h.nextTask_le
    rw [h.finished, List.mem_append, List.mem_singleton] at hu
    rcases hu with hu | rfl
    · exact Nat.lt_of_lt_of_le (hb.finishedLt u hu) this
    · exact Nat.lt_of_lt_of_le (hb.tasks_lt ht) this
  once := by
    rw [h.finished, List.nodup_append]
    refine ⟨hb.once, by simp, ?_⟩
    intro u hu v hv he
    rw [List.mem_singleton] at hv
    subst hv he
    exact ((hb.job _).current _ ht).2.2 hu

theorem serves (h : Finishes s t s') (hb : Books s) : Serves s s' := by
  intro k L hL
  by_cases hk : k = (s.obj t).data.jobId
  · subst hk
    refine ⟨L.keep (s.pending (s.obj t).data.jobId) ?_, .keep _ _ .refl, ⟨?_, ?_, ?_⟩⟩
    · rw [hL.waiting]; exact List.sublist_append_right _ _
    · rw [h.accepted]; exact hL.arrived
    · rw [h.started]; exact hL.served
    · exact h.line.2.symm
  · exact ⟨L, .refl, (h.away hb hk).views hL⟩

end Finishes

/-! ## A task begins -/

theorem markStarted_away (hb : Books s) {k : JobId} (hk : k ≠ (s.obj t).data.jobId) :
    Away s (s.markStarted t) k where
  tasks := rfl
  queue := rfl
  logIds := rfl
  cover := rfl
  nextTask := Nat.le_refl _
  data u _ := by
    by_cases hu : u = t
    · subst hu; simp [markStarted, modTask]
    · simp [markStarted, modTask, hu]
  begun u hu := by
    have hne : u ≠ t := by
      rintro rfl
      exact hk ((hb.job k).current _ hu).2.1.symm
    simp [markStarted, modTask, hne]
  finished _ _ h := h
  accepted _ h := h
  arrived := rfl
  served := filter_append_other (by simp; exact hk.symm)

theorem markStarted_data (s : Executor) (t u : Nat) :
    ((s.markStarted t).obj u).data = (s.obj u).data := by
  by_cases hu : u = t
  · subst hu; simp [markStarted, modTask]
  · simp [markStarted, modTask, hu]

theorem markStarted_line (s : Executor) (t : Nat) (j : JobId) :
    (s.markStarted t).line j = s.line j := by
  simp only [line, Executor.current, Executor.pending]
  cases h : s.tasks j with
  | none => simp [markStarted, modTask, h]
  | some u =>
    have := markStarted_data s t u
    have ht : (s.markStarted t).tasks j = some u := h
    rw [ht]
    simp only [this]
    rfl

theorem markStarted_books (hb : Books s) : Books (s.markStarted t) where
  job k := by
    have hj := hb.job k
    refine ⟨?_, hj.lone, hj.owner, ?_, ?_, ?_⟩
    · intro u hu
      rw [markStarted_data]
      exact hj.current u hu
    · rw [markStarted_line]; exact hj.known
    · rw [markStarted_line]; exact hj.logIds
    · rw [markStarted_line]; exact hj.distinct
  unfinished u hu hf := by
    rw [markStarted_data]
    exact hb.unfinished u hu hf
  startedKnown u hu hs := by
    rw [markStarted_data]
    by_cases h : u = t
    · subst h; simp [markStarted]
    · have : (s.obj u).started = true := by simpa [markStarted, modTask, h] using hs
      exact List.mem_append_left _ (hb.startedKnown u hu this)
  tickets := hb.tickets
  finishedLt := hb.finishedLt
  once := hb.once

theorem markStarted_serves (hb : Books s) (ht : s.tasks (s.obj t).data.jobId = some t)
    (hs : (s.obj t).started = false) : Serves s (s.markStarted t) := by
  intro k L hL
  by_cases hk : k = (s.obj t).data.jobId
  · subst hk
    have hw : L.waiting = (s.obj t).data :: s.pending (s.obj t).data.jobId := by
      rw [hL.waiting]; simp [Executor.waiting, unstarted, ht, hs]
    refine ⟨L.serve _ _ hw, .serve _ _ hw .refl, ⟨hL.arrived, ?_, ?_⟩⟩
    · simp [Line.serve, hL.served, markStarted]
    · simp [Line.serve, Executor.waiting, unstarted, markStarted, modTask, ht, Executor.pending]
  · exact ⟨L, .refl, (markStarted_away hb hk).views hL⟩

end Executor
end Pyxxl
