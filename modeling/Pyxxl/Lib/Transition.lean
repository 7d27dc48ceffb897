import Mathlib.Logic.Relation

/-!
# Pyxxl.Lib.Transition

Machines given by a partial step function `step : σ → ε → Option σ`; an event that is not
enabled yields `none`.

* `Steps step ok s s'`: `s'` is reached from `s` by finitely many steps, each of which meets the
  condition `ok` on the state it starts from and its event.
* `run`: the executable version, for one list of events; `Steps.of_allowed` leads back.
* `Steps.invariant`: what every allowed step preserves holds at the end of every run.
* `trace`: what can be seen of the states of a run; `trace_erase`: two runs that are in lockstep up
  to what `erase` forgets look the same.
-/

namespace Transition

universe u v
variable {σ : Type u} {ε : Type v}

inductive Steps (step : σ → ε → Option σ) (ok : σ → ε → Prop) : σ → σ → Prop where
  | refl {s : σ} : Steps step ok s s
  | tail {s s' s'' : σ} {e : ε} :
      Steps step ok s s' → ok s' e → step s' e = some s'' → Steps step ok s s''

/-- Every step is allowed. -/
def Any (_ : σ) (_ : ε) : Prop := True

/-- Run a list of events; `none` when one of them is not enabled. -/
def run (step : σ → ε → Option σ) : σ → List ε → Option σ
  | s, [] => some s
  | s, e :: es =>
    match step s e with
    | some s' => run step s' es
    | none => none

/-- Every event of the list is allowed where it happens. -/
def Allowed (step : σ → ε → Option σ) (ok : σ → ε → Prop) : σ → List ε → Prop
  | _, [] => True
  | s, e :: es => ok s e ∧ ∀ s', step s e = some s' → Allowed step ok s' es

theorem Allowed.of_forall {step : σ → ε → Option σ} {ok : σ → ε → Prop} {es : List ε}
    (h : ∀ e ∈ es, ∀ s, ok s e) (s : σ) : Allowed step ok s es := by
  induction es generalizing s with
  | nil => exact trivial
  | cons e es ih =>
    exact ⟨h e (List.mem_cons_self ..) s, fun s' _ =>
      ih (fun e he => h e (List.mem_cons_of_mem _ he)) s'⟩

theorem Allowed.mono {step : σ → ε → Option σ} {ok ok' : σ → ε → Prop}
    (h : ∀ s e, ok s e → ok' s e) {es : List ε} {s : σ} (ha : Allowed step ok s es) :
    Allowed step ok' s es := by
  induction es generalizing s with
  | nil => exact trivial
  | cons e es ih => exact ⟨h s e ha.1, fun s' hs => ih (ha.2 s' hs)⟩

/-- The rest of a list whose first event is enabled. -/
theorem allowed_cons {step : σ → ε → Option σ} {ok : σ → ε → Prop} {s s' : σ} {e : ε} {es : List ε}
    (h : step s e = some s') : Allowed step ok s (e :: es) ↔ ok s e ∧ Allowed step ok s' es := by
  simp only [Allowed, h, Option.some.injEq, forall_eq']

instance Allowed.decidable {step : σ → ε → Option σ} {ok : σ → ε → Prop}
    [∀ s e, Decidable (ok s e)] : ∀ s es, Decidable (Allowed step ok s es)
  | _, [] => inferInstanceAs (Decidable True)
  | s, e :: es =>
    match h : step s e with
    | none => decidable_of_iff (ok s e) (by simp only [Allowed, h, reduceCtorEq, false_implies,
        implies_true, and_true])
    | some s' =>
      have : Decidable (Allowed step ok s' es) := Allowed.decidable s' es
      decidable_of_iff _ (allowed_cons h).symm

namespace Steps

variable {step : σ → ε → Option σ} {ok ok' : σ → ε → Prop}

theorem single {s s' : σ} {e : ε} (he : ok s e) (h : step s e = some s') : Steps step ok s s' :=
  .tail .refl he h

theorem trans {s s' s'' : σ} (h₁ : Steps step ok s s') (h₂ : Steps step ok s' s'') :
    Steps step ok s s'' := by
  induction h₂ with
  | refl => exact h₁
  | tail _ he hs ih => exact .tail ih he hs

theorem mono (h : ∀ s e, ok s e → ok' s e) {s s' : σ} (hs : Steps step ok s s') :
    Steps step ok' s s' := by
  induction hs with
  | refl => exact .refl
  | tail _ he hs ih => exact .tail ih (h _ _ he) hs

/-- The induction every invariant goes through. -/
theorem invariant {P : σ → Prop}
    (hstep : ∀ s e s', P s → ok s e → step s e = some s' → P s')
    {s s' : σ} (hs : Steps step ok s s') (h : P s) : P s' := by
  induction hs with
  | refl => exact h
  | tail _ he hs ih => exact hstep _ _ _ ih he hs

theorem of_allowed : ∀ {es : List ε} {s s' : σ}, Allowed step ok s es →
    run step s es = some s' → Steps step ok s s' := by
  intro es
  induction es with
  | nil => intro s s' _ h; cases h; exact .refl
  | cons e es ih =>
    intro s s' hok h
    simp only [run] at h
    split at h
    · rename_i s1 hs1
      exact (single hok.1 hs1).trans (ih (hok.2 s1 hs1) h)
    · cases h

theorem of_run {es : List ε} {s s' : σ} (hok : ∀ e ∈ es, ∀ s, ok s e)
    (h : run step s es = some s') : Steps step ok s s' :=
  of_allowed (.of_forall hok s) h

end Steps

/-! ## Two runs in lockstep -/

section Lockstep

universe w z
variable {τ : Type w} {ω : Type z} {step : σ → ε → Option σ} {ok : σ → ε → Prop}

/-- What `view` shows after each step; `none` when an event is not enabled. -/
def trace (step : σ → ε → Option σ) (view : σ → ω) : σ → List ε → Option (List ω)
  | _, [] => some []
  | s, e :: es =>
    match step s e with
    | some s' => (trace step view s' es).map (view s' :: ·)
    | none => none

theorem trace_erase {view : σ → ω} {P : σ → Prop} (erase : σ → τ) (other : ε → ε)
    (hview : ∀ s r, erase s = erase r → view s = view r)
    (hinv : ∀ s e s', P s → step s e = some s' → P s')
    (hstep : ∀ s r e, P s → P r → erase s = erase r → ok s e →
      (step s e).map erase = (step r (other e)).map erase) :
    ∀ {es : List ε} {s r : σ}, P s → P r → erase s = erase r → Allowed step ok s es →
      trace step view s es = trace step view r (es.map other) := by
  intro es
  induction es with
  | nil => intro s r _ _ _ _; rfl
  | cons e es ih =>
    intro s r hs hr he hok
    have hlock := hstep s r e hs hr he hok.1
    simp only [trace, List.map_cons]
    cases h : step s e with
    | none =>
      rw [h] at hlock
      rw [Option.map_eq_none_iff.mp hlock.symm]
    | some s' =>
      rw [h] at hlock
      obtain ⟨r', h', he'⟩ := Option.map_eq_some_iff.mp hlock.symm
      simp only [h']
      rw [hview s' r' he'.symm, ih (hinv s e s' hs h) (hinv r _ r' hr h') he'.symm (hok.2 s' h)]

end Lockstep
end Transition
