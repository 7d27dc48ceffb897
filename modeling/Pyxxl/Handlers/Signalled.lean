import Pyxxl.Handlers.Process

/-!
# Pyxxl.Handlers.Signalled

A process-mode call that ends by a `CancelledError` or a `TimeoutError` has not left its child
alone, as long as no `cancel()` cuts the stopping short (`exits_signalled`). One that does leaves
the child running with nothing but `cancel_event` set (`left_running`).
-/

namespace Pyxxl
namespace Process

open Transition

variable {s s' : Process} {e : Event}

/-- The child has exited, or `terminate()` or `kill()` was called on it. -/
def Signalled (s : Process) : Prop :=
  s.exitcode.isSome = true ∨ s.terminated = true ∨ s.killed = true

/-- The parent waits where a `cancel()` ends the stopping: in the first loop of `_stop_process`, or
in `_join_process`. -/
def Phase.exposed : Phase → Bool
  | .stopping false _ _ => true
  | .joining _ => true
  | _ => false

/-- No `cancel()` arrives where it ends the stopping of an unsignalled child. -/
def Harmless (s : Process) (e : Event) : Prop :=
  e = .cancel → s.phase.exposed = true → Signalled s

def Stopped : Exc → Prop
  | .cancelled => True
  | .timeout => True
  | _ => False

/-- In these phases the child must not run unsignalled. -/
def Phase.settled : Phase → Prop
  | .stopping true _ _ => True
  | .joining (.error exc) => Stopped exc
  | .ended (.error exc) => Stopped exc
  | _ => False

def Guarded (s : Process) : Prop := s.phase.settled → Signalled s

theorem Payload.outcome_error {p : Payload} {exc : Exc} (h : p.outcome = .error exc) :
    ¬Stopped exc := by
  unfold Payload.outcome at h
  split at h
  · cases h
  · split at h
    · cases h; exact id
    · cases h; exact id

theorem guarded_outcome (p : Payload) : ¬(Phase.joining p.outcome).settled := by
  cases h : p.outcome with
  | ok v => exact id
  | error exc => exact p.outcome_error h

theorem stopSecond_guarded (h : Signalled s) (exc : Exc) (left : Nat) :
    Guarded (s.stopSecond exc left) := by
  intro _
  cases left with
  | zero =>
    rcases h with h | h | h
    · exact .inl h
    · exact .inr (.inl h)
    · exact .inr (.inr (by simp [stopSecond, enter, h]))
  | succ left =>
    simp only [stopSecond]
    split
    · exact h
    · exact h

theorem stopFirst_guarded (s : Process) (exc : Exc) (left : Nat) :
    Guarded (s.stopFirst exc left) := by
  cases left with
  | zero =>
    refine stopSecond_guarded ?_ exc 20
    cases hc : s.exitcode with
    | none => exact .inr (.inl (by simp [isAlive, hc]))
    | some c => exact .inl (by simp)
  | succ left =>
    simp only [stopFirst]
    split
    · exact fun hs => hs.elim
    · rename_i ha
      refine fun _ => .inl ?_
      simpa [isAlive, enter, Option.isSome_iff_ne_none] using ha

theorem raised_guarded (s : Process) (exc : Exc) : Guarded (s.raised exc) := by
  cases exc with
  | cancelled => exact stopFirst_guarded _ _ _
  | timeout => exact stopFirst_guarded _ _ _
  | exception text => exact fun ht => ht.elim
  | unprintable raised => exact fun ht => ht.elim
  | base => exact fun ht => ht.elim

theorem take_guarded (s : Process) (p : Payload) {next : Process → Process}
    (hnext : ∀ s, ¬(next s).phase.settled) : Guarded (s.take p next) := by
  unfold take
  split
  · exact raised_guarded _ _
  · exact fun ht => absurd ht (hnext _)
  · exact fun ht => absurd ht (guarded_outcome p)

/-- A step of the child leaves the parent where it is, and no signal is taken back. -/
theorem guarded_child (h : Guarded s) (hp : s'.phase = s.phase)
    (hs : Signalled s → Signalled s') : Guarded s' := fun ht => hs (h (hp ▸ ht))

theorem Guarded.step (h : Guarded s) (hok : Harmless s e) (hs : step s e = some s') :
    Guarded s' := by
  cases e with
  | childPuts p =>
    simp only [Process.step] at hs
    split at hs
    · cases hs; exact guarded_child h rfl id
    · cases hs
  | childFlushes =>
    simp only [Process.step] at hs
    split at hs
    · split at hs
      · cases hs; exact guarded_child h rfl id
      · cases hs
    · cases hs
  | childExits c =>
    simp only [Process.step] at hs
    split at hs
    · cases hs; exact guarded_child h rfl fun _ => .inl rfl
    · cases hs
  | look =>
    simp only [Process.step] at hs
    split at hs
    · split at hs
      · cases hs; exact take_guarded _ _ fun _ => id
      · cases hs; exact fun ht => ht.elim
    · split at hs
      · cases hs; exact fun ht => ht.elim
      · cases hs; exact fun ht => ht.elim
    · split at hs
      · cases hs; exact take_guarded _ _ fun _ => id
      · cases hs; exact fun ht => ht.elim
      · cases hs
    · cases hs
  | wake =>
    simp only [Process.step] at hs
    split at hs
    · cases hs; exact fun ht => ht.elim
    · cases hs; exact stopFirst_guarded _ _ _
    · rename_i left exc hp
      cases hs
      exact stopSecond_guarded (h (by rw [hp]; exact trivial)) exc left
    · cases hs
  | timeout =>
    simp only [Process.step] at hs
    split at hs
    · cases hs; exact stopFirst_guarded _ _ _
    · cases hs
  | cancel =>
    simp only [Process.step] at hs
    split at hs
    · cases hs; exact stopFirst_guarded _ _ _
    · rename_i second left exc hp
      cases hs
      cases second with
      | false => exact fun _ => hok rfl (by rw [hp]; rfl)
      | true => exact fun _ => h (by rw [hp]; exact trivial)
    · rename_i outcome hp
      cases hs
      exact fun _ => hok rfl (by rw [hp]; rfl)
    · cases hs
  | joined =>
    simp only [Process.step] at hs
    split at hs
    · rename_i outcome hp
      cases hs
      intro ht
      refine h ?_
      rw [hp]
      cases outcome with
      | ok v => exact ht
      | error exc => exact ht
    · cases hs

/-- In every run in which each `cancel()` that arrives in the first loop of `_stop_process` or in
`_join_process` finds the child exited or signalled, a call that has ended by a `CancelledError` or
a `TimeoutError` leaves no unsignalled child. A `cancel()` that arrives there otherwise can always
be followed by such an end. -/
theorem exits_signalled (s : Process) :
    (Steps step Harmless started s → ∀ exc, s.phase = .ended (.error exc) → Stopped exc →
      Signalled s) ∧
    (s.phase.exposed = true → ¬Signalled s → ∃ es s', run step s (.cancel :: es) = some s' ∧
      s'.phase = .ended (.error .cancelled) ∧ ¬Signalled s') := by
  refine ⟨fun h exc hp hst => ?_, fun hp hs => ?_⟩
  · have hg : Guarded s := h.invariant (P := Guarded) (fun _ _ _ hi hok hs => hi.step hok hs)
      fun ht => ht.elim
    exact hg (by rw [hp]; exact hst)
  · cases hc : s.phase with
    | stopping second left exc =>
      rw [hc] at hp
      cases second with
      | true => cases hp
      | false =>
        exact ⟨[.joined], (s.enter (.joining (.error .cancelled))).closeAll.enter
          (.ended (.error .cancelled)), by simp [run, Process.step, hc, enter], rfl, hs⟩
    | joining outcome =>
      exact ⟨[], s.enter (.ended (.error .cancelled)), by simp [run, Process.step, hc, enter],
        rfl, hs⟩
    | _ => rw [hc] at hp; cases hp

/-- A child that ignores `cancel_event` is terminated, and then exits. -/
def stubborn : Process :=
  (run step started ([.look, .look] ++ .cancel :: List.replicate 10 .wake ++
    [.childExits (-15), .wake, .joined])).get rfl

theorem exits_signalled_stubborn : Signalled stubborn := by
  have hok : ∀ e, e ≠ .cancel → ∀ s, Harmless s e := fun e he s hc => absurd hc he
  have hfirst : ∀ e ∈ [Event.look, .look], ∀ s, Harmless s e := by
    intro e he
    simp only [List.mem_cons, List.not_mem_nil, or_false, or_self] at he
    exact hok e (by rw [he]; simp)
  have hrest : ∀ e ∈ List.replicate 10 Event.wake ++ [.childExits (-15), .wake, .joined],
      ∀ s, Harmless s e := by
    intro e he
    simp only [List.mem_append, List.mem_replicate, List.mem_cons, List.not_mem_nil,
      or_false] at he
    rcases he with ⟨-, rfl⟩ | rfl | rfl | rfl
    all_goals exact hok _ (by simp)
  have hsteps : Steps step Harmless started stubborn :=
    ((Steps.of_run hfirst rfl).tail (e := .cancel) (fun _ hp => by cases hp) rfl).trans
      (.of_run hrest rfl)
  exact (exits_signalled stubborn).1 hsteps .cancelled rfl trivial

def abandoned : Process :=
  (run step started [.look, .look, .cancel, .cancel, .joined]).get rfl

/-- Two cancellations in the first half second leave the child running. -/
theorem left_running : ∃ s, Steps step Any started s ∧ s.phase = .ended (.error .cancelled) ∧
    s.exitcode = none ∧ s.terminated = false ∧ s.killed = false := by
  have hrun : run step started [.look, .look, .cancel, .cancel, .joined] = some abandoned := rfl
  exact ⟨abandoned, .of_run (fun _ _ _ => trivial) hrun, rfl, rfl, rfl, rfl⟩

end Process
end Pyxxl
