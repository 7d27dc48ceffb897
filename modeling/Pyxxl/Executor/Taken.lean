import Pyxxl.Executor.AtRest

/-!
# Pyxxl.Executor.Taken

Which calls have had their trigger accepted, seen from those who made them.

* `Call.isRun`, `Call.isKill`: a call stays what it was when it was made.
* `Call.took`: the call is past the point where `run_job` enters the trigger in the books.
* `step_taken`: a trigger is accepted in the event in which its call comes to this point, and in no
  other.
-/

namespace Pyxxl
namespace Executor

variable {s s' : Executor} {e : Event} {n : Nat} {d : RunData}

/-- A call of `run_job` for `d`. -/
def Call.isRun (d : RunData) : Call → Prop
  | .runLock d' => d' = d
  | .coverPush d' _ _ _ _ => d' = d
  | .runDone _ => True
  | _ => False

def Call.isKill : Call → Prop
  | .cancelLock _ _ _ => True
  | .cancelPush _ _ _ _ _ => True
  | .cancelAwait _ => True
  | .cancelDone _ => True
  | _ => False

def Call.took : Call → Bool
  | .coverPush _ _ _ _ _ => true
  | .runDone (.ok _) => true
  | _ => false

/-- The call waits to enter the critical section of `run_job`. -/
def Call.waits : Call → Option RunData
  | .runLock d => some d
  | _ => none

theorem Call.isKill.waits {c : Call} (h : c.isKill) : c.waits = none ∧ c.took = false := by
  cases c <;> first | exact ⟨rfl, rfl⟩ | exact h.elim

/-- What the books gain by a call: its trigger, or nothing. -/
def gain (s : Executor) (d : RunData) (c : Call) : List Trigger :=
  if c.took then [newTrigger s d] else []

theorem taken_coverPush (s : Executor) (n : Nat) (d : RunData) (reason : PyStr)
    (rest : List Trigger) : ((s.coverPush n d reason rest).call n).isRun d ∧
      ((s.coverPush n d reason rest).call n).took = true ∧
        ((s.coverPush n d reason rest).call n).waits = none := by
  unfold coverPush
  split
  · rw [runReturn_call]
    exact ⟨trivial, rfl, rfl⟩
  · simp only [setCall, Function.update_self]
    exact ⟨rfl, rfl, rfl⟩

theorem kill_cancelPush (s : Executor) (n : Nat) (reason : PyStr) (u : Option Nat)
    (rest : List Trigger) : ((s.cancelPush n reason u rest).call n).isKill := by
  unfold cancelPush
  split
  · split
    · simp only [setCall, Function.update_self]; exact trivial
    · simp only [setCall, Function.update_self]; exact trivial
  · simp only [setCall, Function.update_self]; exact trivial

/-- In its critical section `run_job` accepts its trigger and goes on to return, or it raises. -/
theorem taken_runJobLocked (s : Executor) (n : Nat) (d : RunData) :
    ((s.runJobLocked n d).call n).isRun d ∧ ((s.runJobLocked n d).call n).waits = none ∧
      (s.runJobLocked n d).accepted = s.accepted ++ s.gain d ((s.runJobLocked n d).call n) := by
  have hraise : ∀ err, ((s.runReturn n d.jobId (.error err)).call n).isRun d ∧
      ((s.runReturn n d.jobId (.error err)).call n).waits = none ∧
        (s.runReturn n d.jobId (.error err)).accepted =
          s.accepted ++ s.gain d ((s.runReturn n d.jobId (.error err)).call n) := fun err => by
    rw [runReturn_call]
    exact ⟨trivial, rfl, by simp [gain, Call.took, runReturn, unlockJob, setCall]⟩
  have hreturn : ∀ (s₁ : Executor) r, s₁.accepted = s.accepted ++ [newTrigger s d] →
      ((s₁.runReturn n d.jobId (.ok r)).call n).isRun d ∧
        ((s₁.runReturn n d.jobId (.ok r)).call n).waits = none ∧
          (s₁.runReturn n d.jobId (.ok r)).accepted =
            s.accepted ++ s.gain d ((s₁.runReturn n d.jobId (.ok r)).call n) := fun s₁ r h => by
    rw [runReturn_call]
    exact ⟨trivial, rfl, h⟩
  unfold runJobLocked
  split
  · exact hraise _
  split
  · exact hreturn _ _ rfl
  split
  · exact hraise _
  split
  · obtain ⟨h1, h2, h3⟩ := taken_coverPush (s.coverEarly d).1 n d coverReason (s.coverEarly d).2
    refine ⟨h1, h3, ?_⟩
    rw [handleCoverEarly, gain, h2, if_pos rfl, (coverPush_same ..).accepted, coverEarly_accepted]
  split
  · unfold handleSerialExecution
    split
    · exact hraise _
    · exact hreturn _ _ rfl
  · exact hraise _

theorem taken_runJob (s : Executor) (d : RunData) :
    ((s.runJob d).call s.nextCall).isRun d ∧
      (s.runJob d).accepted = s.accepted ++ s.gain d ((s.runJob d).call s.nextCall) := by
  simp only [runJob]
  split
  · split
    · obtain ⟨h1, -, h2⟩ := taken_runJobLocked (s.openCall.lockJob d.jobId (.call s.nextCall))
        s.nextCall d
      exact ⟨h1, h2⟩
    · simp only [setCall, Function.update_self]
      exact ⟨rfl, by simp [gain, Call.took, lockJob, openCall]⟩
  · simp only [setCall, Function.update_self]
    exact ⟨trivial, by simp [gain, Call.took, openCall]⟩

theorem kill_cancelJob (s : Executor) (j : JobId) (includeQueue : Bool) (reason : PyStr) :
    ((s.cancelJob j includeQueue reason).call s.nextCall).isKill := by
  simp only [cancelJob]
  split
  · exact kill_cancelPush ..
  · simp only [setCall, Function.update_self]
    exact trivial

/-- A call that goes on stays what it is; one that waited for its critical section gains its trigger
or nothing, and any other gains nothing. -/
theorem resumeCall_taken (hs : s.resumeCall n = some s') :
    (∀ d, (s.call n).isRun d → (s'.call n).isRun d) ∧ ((s.call n).isKill → (s'.call n).isKill) ∧
      (s'.call n).waits = none ∧
      ((∃ d, s.call n = .runLock d ∧ s'.accepted = s.accepted ++ s.gain d (s'.call n)) ∨
        (∀ d, s.call n ≠ .runLock d) ∧ (s'.call n).took = (s.call n).took) := by
  unfold resumeCall at hs
  split at hs
  · rename_i d hc
    split at hs
    · cases hs
      obtain ⟨h1, h2, h3⟩ := taken_runJobLocked s n d
      rw [hc]
      exact ⟨fun d' hd => by cases hd; exact h1, fun hk => hk.elim, h2, .inl ⟨d, rfl, h3⟩⟩
    · cases hs
  · rename_i d x r rest reason hc
    split at hs
    · cases hs
      obtain ⟨h1, h2, h3⟩ := taken_coverPush (s.unlockWorker.put x r) n d reason rest
      rw [hc]
      exact ⟨fun d' hd => by cases hd; exact h1, fun hk => hk.elim, h3,
        .inr ⟨(fun d' hd => by cases hd), h2⟩⟩
    · cases hs
  · rename_i j includeQueue reason hc
    split at hs
    · cases hs
      have hkill : ((s.cancelJobLocked n j includeQueue reason).call n).isKill :=
        kill_cancelPush ..
      rw [hc]
      exact ⟨fun d' hd => hd.elim, fun _ => hkill, hkill.waits.1,
        .inr ⟨(fun d' hd => by cases hd), hkill.waits.2⟩⟩
    · cases hs
  · rename_i x r rest reason u hc
    split at hs
    · cases hs
      have hkill := kill_cancelPush (s.unlockWorker.put x r) n reason u rest
      rw [hc]
      exact ⟨fun d' hd => hd.elim, fun _ => hkill, hkill.waits.1,
        .inr ⟨(fun d' hd => by cases hd), hkill.waits.2⟩⟩
    · cases hs
  · rename_i u hc
    have hdone : ∀ exc, (s.setCall n (.cancelDone exc)).call n = .cancelDone exc := fun exc => by
      simp [setCall]
    rw [hc]
    split at hs
    · cases hs
      rw [hdone]
      exact ⟨fun d' hd => hd.elim, fun _ => trivial, rfl, .inr ⟨(fun d' hd => by cases hd), rfl⟩⟩
    · cases hs
      rw [hdone]
      exact ⟨fun d' hd => hd.elim, fun _ => trivial, rfl, .inr ⟨(fun d' hd => by cases hd), rfl⟩⟩
    · cases hs
  · cases hs
  · cases hs
  · cases hs

/-- What an event that is no call of `run_job` does to the calls and to what is accepted. -/
structure Keeps (s s' : Executor) : Prop where
  nextCall : s.nextCall ≤ s'.nextCall
  isRun : ∀ c d, c < s.nextCall → (s.call c).isRun d → (s'.call c).isRun d
  isKill : ∀ c, c < s.nextCall → (s.call c).isKill → (s'.call c).isKill
  waits : ∀ c d, c < s.nextCall → s'.call c = .runLock d → s.call c = .runLock d
  fresh : ∀ c, s.nextCall ≤ c → c < s'.nextCall → (s'.call c).isKill
  taken : (s'.accepted = s.accepted ∧ ∀ c, c < s.nextCall → (s'.call c).took = (s.call c).took) ∨
    ∃ c d, c < s.nextCall ∧ s.call c = .runLock d ∧ s'.accepted = s.accepted ++ s.gain d (s'.call c) ∧
      ∀ c', c' < s.nextCall → c' ≠ c → s'.call c' = s.call c'

theorem step_taken (hi : Inv (fun _ => False) s) (hs : step s e = some s')
    (hne : ∀ d, e ≠ .runJob d) : Keeps s s' := by
  have hsame : s'.call = s.call → s'.nextCall = s.nextCall → s'.accepted = s.accepted →
      Keeps s s' := fun hc hn ha =>
    ⟨hn.ge, fun c d _ h => by rw [hc]; exact h, fun c _ h => by rw [hc]; exact h,
      fun c d _ h => by rw [← hc]; exact h, fun c h1 h2 => by omega, .inl ⟨ha, fun c _ => by rw [hc]⟩⟩
  cases he : e.task with
  | some t =>
    obtain ⟨hc, hn⟩ := (step_acts hs he).calls
    exact hsame hc hn (step_accepted_eq (Event.places_of_task he).1 hs)
  | none =>
    cases e with
    | runJob d => exact absurd rfl (hne d)
    | cancelJob j includeQueue reason =>
      have hacc : s'.accepted = s.accepted := step_accepted_eq rfl hs
      cases hs
      have hother := fun c hc => cancelJob_others s j includeQueue reason (m := c) hc
      have hnext := (hother (s.nextCall + 1) (by omega)).2
      refine ⟨by omega, fun c d hlt h => ?_, fun c hlt h => ?_, fun c d hlt h => ?_,
        fun c h1 h2 => ?_, .inl ⟨hacc, fun c hlt => ?_⟩⟩
      · rw [(hother c (by omega)).1]; exact h
      · rw [(hother c (by omega)).1]; exact h
      · rw [(hother c (by omega)).1] at h; exact h
      · have hc : c = s.nextCall := by omega
        subst hc
        exact kill_cancelJob s j includeQueue reason
      · rw [(hother c (by omega)).1]
    | resumeCall n =>
      have hres := hs
      simp only [step] at hs
      split at hs
      · rename_i hn
        obtain ⟨h1, h2, hw, h3⟩ := resumeCall_taken hs
        have hother := fun c hc => resumeCall_calls hi.books (m := c) hc hs
        have hnext := (hother (n + 1) (by omega)).2
        refine ⟨by omega, fun c d hlt h => ?_, fun c hlt h => ?_, fun c d hlt h => ?_,
          (fun c h1 h2 => by omega), ?_⟩
        · by_cases hc : c = n
          · subst hc; exact h1 d h
          · rw [(hother c hc).1]; exact h
        · by_cases hc : c = n
          · subst hc; exact h2 h
          · rw [(hother c hc).1]; exact h
        · by_cases hc : c = n
          · subst hc; rw [h] at hw; cases hw
          · rw [(hother c hc).1] at h; exact h
        · rcases h3 with ⟨d, hc, ha⟩ | ⟨hnot, htook⟩
          · exact .inr ⟨n, d, hn, hc, ha, fun c _ hne => (hother c hne).1⟩
          · have hnone : Event.checks s (.resumeCall n) = none := by
              cases hc : s.call n with
              | runLock d => exact absurd hc (hnot d)
              | _ => simp only [Event.checks, hc]
            refine .inl ⟨step_accepted_eq hnone hres, fun c _ => ?_⟩
            by_cases hc : c = n
            · subst hc; exact htook
            · rw [(hother c hc).1]
      · cases hs
    | setHandler handler => cases hs; exact hsame rfl rfl rfl
    | stopCalled close => cases hs; exact hsame rfl rfl rfl
    | stopLock n => cases hs; exact hsame rfl rfl rfl
    | stopUnlock n =>
      simp only [step] at hs
      split at hs
      · cases hs; exact hsame rfl rfl rfl
      · cases hs
    | tick now => cases hs; exact hsame rfl rfl rfl
    | _ => cases he

end Executor
end Pyxxl
