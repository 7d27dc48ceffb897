import Mathlib.Data.List.Nodup

/-!
# Pyxxl.Lib.Pool

A pool of at most `maxWorkers` workers over one queue of jobs, as `ThreadPoolExecutor` of
`concurrent.futures` has it. Only a job that waits can be cancelled; a worker drops it when its turn
comes.

* `Ok p`: no more run than there are workers, no job is in two places, and none that was cancelled
  has begun.
* `Ok.submit`, `Ok.cancel`, `Ok.take`, `Ok.ret`: the operations keep it. `begun_take`: only a job at
  the head of the queue that is not cancelled begins.
-/

universe u

structure Pool (ι : Type u) where
  maxWorkers : Nat
  queue : List ι
  cancelled : List ι
  running : List ι
  returned : List ι

namespace Pool

variable {ι : Type u} {p p' : Pool ι} {i j : ι}

def init (maxWorkers : Nat) : Pool ι := ⟨maxWorkers, [], [], [], []⟩

def submit (p : Pool ι) (i : ι) : Pool ι := { p with queue := p.queue ++ [i] }

/-- `Future.cancel`. -/
def cancel [DecidableEq ι] (p : Pool ι) (i : ι) : Pool ι :=
  if i ∈ p.queue then { p with cancelled := i :: p.cancelled } else p

/-- A worker that is idle, or a new one, takes the next job. -/
def take [DecidableEq ι] (p : Pool ι) : Option (Pool ι) :=
  match p.queue with
  | [] => none
  | i :: rest =>
    if p.running.length < p.maxWorkers then
      if i ∈ p.cancelled then some { p with queue := rest }
      else some { p with queue := rest, running := p.running ++ [i] }
    else none

/-- The function of a job returns. -/
def ret [DecidableEq ι] (p : Pool ι) (i : ι) : Option (Pool ι) :=
  if i ∈ p.running then
    some { p with running := p.running.erase i, returned := p.returned ++ [i] }
  else none

def Begun (p : Pool ι) (i : ι) : Prop := i ∈ p.running ∨ i ∈ p.returned

/-- The pool has heard of the job. -/
def Known (p : Pool ι) (i : ι) : Prop := i ∈ p.queue ∨ i ∈ p.cancelled ∨ p.Begun i

instance [DecidableEq ι] (p : Pool ι) (i : ι) : Decidable (p.Known i) :=
  inferInstanceAs (Decidable (i ∈ p.queue ∨ i ∈ p.cancelled ∨ i ∈ p.running ∨ i ∈ p.returned))

structure Ok (p : Pool ι) : Prop where
  bound : p.running.length ≤ p.maxWorkers
  once : (p.queue ++ (p.running ++ p.returned)).Nodup
  dropped : ∀ i ∈ p.cancelled, ¬p.Begun i

theorem ok_init (n : Nat) : Ok (init n : Pool ι) where
  bound := Nat.zero_le n
  once := List.nodup_nil
  dropped i h := by cases h

theorem not_known_init (n : Nat) (i : ι) : ¬(init n : Pool ι).Known i := by
  simp [Known, Begun, init]

/-! ## The operations -/

theorem known_submit : (p.submit i).Known j ↔ p.Known j ∨ j = i := by
  simp only [Known, Begun, submit, List.mem_append, List.mem_singleton]
  tauto

theorem Ok.submit (h : Ok p) (hi : ¬p.Known i) : Ok (p.submit i) where
  bound := h.bound
  once := by
    have hnew : i ∉ p.queue ++ (p.running ++ p.returned) := by
      simp only [List.mem_append]
      exact fun hm => hi (hm.elim .inl fun hb => .inr (.inr hb))
    have hcons : (i :: (p.queue ++ (p.running ++ p.returned))).Nodup :=
      List.nodup_cons.mpr ⟨hnew, h.once⟩
    refine (List.Perm.nodup_iff ?_).mp hcons
    show (i :: (p.queue ++ (p.running ++ p.returned))).Perm (p.queue ++ [i] ++ _)
    rw [List.append_assoc, List.singleton_append]
    exact List.perm_middle.symm
  dropped := h.dropped

/-- What is in the queue has not begun. -/
theorem Ok.waits (h : Ok p) (hi : i ∈ p.queue) : ¬p.Begun i := by
  intro hb
  exact (List.disjoint_of_nodup_append h.once) hi (List.mem_append.mpr hb)

variable [DecidableEq ι]

theorem running_cancel (p : Pool ι) (i : ι) : (p.cancel i).running = p.running := by
  unfold cancel
  split <;> rfl

theorem maxWorkers_cancel (p : Pool ι) (i : ι) : (p.cancel i).maxWorkers = p.maxWorkers := by
  unfold cancel
  split <;> rfl

theorem returned_cancel (p : Pool ι) (i : ι) : (p.cancel i).returned = p.returned := by
  unfold cancel
  split <;> rfl

theorem begun_cancel (p : Pool ι) (i j : ι) : (p.cancel i).Begun j ↔ p.Begun j := by
  unfold cancel
  split <;> rfl

theorem queue_cancel (p : Pool ι) (i : ι) : (p.cancel i).queue = p.queue := by
  unfold cancel
  split <;> rfl

theorem mem_cancel : j ∈ (p.cancel i).cancelled ↔ j ∈ p.cancelled ∨ j = i ∧ i ∈ p.queue := by
  unfold cancel
  split
  · simp [*, or_comm]
  · simp [*]

theorem known_cancel : (p.cancel i).Known j ↔ p.Known j := by
  simp only [Known, begun_cancel, queue_cancel, mem_cancel]
  constructor
  · rintro (h | (h | ⟨rfl, h⟩) | h)
    · exact .inl h
    · exact .inr (.inl h)
    · exact .inl h
    · exact .inr (.inr h)
  · rintro (h | h | h)
    · exact .inl h
    · exact .inr (.inl (.inl h))
    · exact .inr (.inr h)

theorem Ok.cancel (h : Ok p) (i : ι) : Ok (p.cancel i) where
  bound := by
    unfold Pool.cancel
    split <;> exact h.bound
  once := by
    unfold Pool.cancel
    split <;> exact h.once
  dropped j hj := by
    rw [begun_cancel]
    rcases mem_cancel.mp hj with hc | ⟨rfl, hq⟩
    · exact h.dropped j hc
    · exact h.waits hq

/-- The first of the queue is dropped, or it begins. -/
inductive Takes (p p' : Pool ι) : Prop where
  | drops (i : ι) (rest : List ι) (hq : p.queue = i :: rest) (hc : i ∈ p.cancelled)
      (he : p' = { p with queue := rest })
  | begins (i : ι) (rest : List ι) (hq : p.queue = i :: rest) (hc : i ∉ p.cancelled)
      (hw : p.running.length < p.maxWorkers)
      (he : p' = { p with queue := rest, running := p.running ++ [i] })

theorem take_cases (hs : p.take = some p') : Takes p p' := by
  unfold take at hs
  split at hs
  · cases hs
  · rename_i i rest hq
    split at hs
    · rename_i hw
      split at hs
      · rename_i hc
        cases hs
        exact .drops i rest hq hc rfl
      · rename_i hc
        cases hs
        exact .begins i rest hq hc hw rfl
    · cases hs

theorem Ok.take (h : Ok p) (hs : p.take = some p') : Ok p' := by
  have honce := h.once
  cases take_cases hs with
  | drops i rest hq hc he =>
    subst he
    rw [hq, List.cons_append, List.nodup_cons] at honce
    exact ⟨h.bound, honce.2, h.dropped⟩
  | begins i rest hq hc hw he =>
    subst he
    refine ⟨?_, ?_, fun j hj => ?_⟩
    · rw [List.length_append, List.length_singleton]
      exact hw
    · rw [hq] at honce
      refine (List.Perm.nodup_iff ?_).mp honce
      rw [List.append_assoc, List.singleton_append, List.cons_append]
      refine List.perm_middle.symm.trans ?_
      exact List.Perm.append_left rest List.perm_middle.symm
    · have hne : j ≠ i := fun he => hc (he ▸ hj)
      have hold := h.dropped j hj
      simp only [Begun, List.mem_append, List.mem_singleton, not_or] at hold ⊢
      exact ⟨⟨hold.1, hne⟩, hold.2⟩

/-- Only the job at the head of the queue begins, and only if nobody has cancelled it. -/
theorem begun_take (hs : p.take = some p') (hb : p'.Begun j) :
    p.Begun j ∨ j ∈ p.queue ∧ j ∉ p.cancelled := by
  cases take_cases hs with
  | drops i rest hq hc he => subst he; exact .inl hb
  | begins i rest hq hc hw he =>
    subst he
    simp only [Begun, List.mem_append, List.mem_singleton] at hb
    rcases hb with (hr | rfl) | hr
    · exact .inl (.inl hr)
    · exact .inr ⟨by rw [hq]; exact List.mem_cons_self .., hc⟩
    · exact .inl (.inr hr)

theorem queue_take (hs : p.take = some p') (hj : j ∈ p'.queue) : j ∈ p.queue := by
  cases take_cases hs with
  | drops i rest hq hc he => subst he; rw [hq]; exact List.mem_cons_of_mem _ hj
  | begins i rest hq hc hw he => subst he; rw [hq]; exact List.mem_cons_of_mem _ hj

theorem cancelled_take (hs : p.take = some p') : p'.cancelled = p.cancelled := by
  cases take_cases hs with
  | drops i rest hq hc he => subst he; rfl
  | begins i rest hq hc hw he => subst he; rfl

theorem known_take (hs : p.take = some p') : p'.Known j ↔ p.Known j := by
  cases take_cases hs with
  | drops i rest hq hc he =>
    subst he
    simp only [Known, Begun, hq, List.mem_cons]
    by_cases hj : j = i
    · subst hj; simp [hc]
    · simp [hj]
  | begins i rest hq hc hw he =>
    subst he
    simp only [Known, Begun, hq, List.mem_cons, List.mem_append, List.not_mem_nil, or_false]
    by_cases hj : j = i
    · subst hj; simp
    · simp [hj]

theorem returned_take (hs : p.take = some p') : p'.returned = p.returned := by
  cases take_cases hs with
  | drops i rest hq hc he => subst he; rfl
  | begins i rest hq hc hw he => subst he; rfl

theorem ret_cases (hs : p.ret i = some p') : i ∈ p.running ∧
    p' = { p with running := p.running.erase i, returned := p.returned ++ [i] } := by
  unfold ret at hs
  split at hs
  · rename_i hi
    cases hs
    exact ⟨hi, rfl⟩
  · cases hs

theorem Ok.ret (h : Ok p) (hs : p.ret i = some p') : Ok p' := by
  obtain ⟨hi, rfl⟩ := ret_cases hs
  have hperm : (p.running.erase i ++ (p.returned ++ [i])).Perm (p.running ++ p.returned) := by
    rw [← List.append_assoc]
    refine (List.perm_append_singleton i _).trans ?_
    exact ((List.perm_cons_erase hi).symm.append_right p.returned)
  refine ⟨?_, (List.Perm.nodup_iff (hperm.append_left p.queue)).mpr h.once, fun j hj hb => ?_⟩
  · exact Nat.le_trans (List.length_erase_le ..) h.bound
  · refine h.dropped j hj ?_
    exact List.mem_append.mp (hperm.mem_iff.mp (List.mem_append.mpr hb))

theorem begun_ret (hs : p.ret i = some p') : p'.Begun j ↔ p.Begun j := by
  obtain ⟨hi, rfl⟩ := ret_cases hs
  by_cases hj : j = i
  · subst hj
    simp [Begun, hi]
  · simp [Begun, hj, List.mem_erase_of_ne hj]

theorem known_ret (hs : p.ret i = some p') : p'.Known j ↔ p.Known j := by
  have hb := begun_ret hs (j := j)
  obtain ⟨-, rfl⟩ := ret_cases hs
  simp only [Known, hb]

/-- A job that has returned is in the queue no more, and does not run. -/
theorem gone_ret (h : Ok p) (hs : p.ret i = some p') : ¬(i ∈ p'.queue ∨ i ∈ p'.running) := by
  obtain ⟨hi, rfl⟩ := ret_cases hs
  rintro (hq | hr)
  · exact h.waits hq (.inl hi)
  · have hnd : p.running.Nodup := (List.nodup_append.mp (List.nodup_append.mp h.once).2.1).1
    exact (List.Nodup.not_mem_erase hnd) hr

/-! ## Working off the queue -/

/-- A job of the queue is taken, and returns. -/
def load (p : Pool ι) : Nat := 2 * p.queue.length + p.running.length

theorem load_take (hs : p.take = some p') : p'.load + 1 ≤ p.load := by
  cases take_cases hs with
  | drops i rest hq hc he =>
    subst he
    simp only [load, hq, List.length_cons]
    omega
  | begins i rest hq hc hw he =>
    subst he
    simp only [load, hq, List.length_cons, List.length_append, List.length_nil]
    omega

theorem load_ret (hs : p.ret i = some p') : p'.load + 1 ≤ p.load := by
  obtain ⟨hi, rfl⟩ := ret_cases hs
  have hpos := List.length_pos_of_mem hi
  simp only [load, List.length_erase_of_mem hi]
  omega

/-- A worker that drops a job takes no other one. -/
theorem full_take (hs : p.take = some p') (hfull : p.maxWorkers ≤ p.running.length) :
    p'.maxWorkers = p.maxWorkers ∧ p'.running = p.running ∧ p'.returned = p.returned := by
  cases take_cases hs with
  | drops i rest hq hc he => subst he; exact ⟨rfl, rfl, rfl⟩
  | begins i rest hq hc hw he => omega

end Pool
