import Mathlib.Algebra.GroupWithZero.Nat
import Mathlib.Logic.Basic
import Pyxxl.Lib.Transition

/-!
# Pyxxl.Lib.Progress

Machines that come to rest when they are left alone: of the events some are the machine's own
(`own`), and of the others those that bring no new work (`ok`) may happen in between.

* `AtRest step own s`: the machine can do nothing of its own any more.
* `Descends step ok own P μ`: from a state that meets `P`, an event that meets `ok` keeps `P` and does
  not raise the measure `μ`, and one of the machine's own brings it down.
* `Descends.bounded`: so no run has more events of its own than the measure it starts from;
  `Descends.rests`: and some run of such events ends at rest.
* `paid`: the same where an event may raise the measure by its cost.
-/

namespace Transition

universe u v
variable {σ : Type u} {ε : Type v} {step : σ → ε → Option σ} {ok : ε → Prop} {own : ε → Bool}
  {P : σ → Prop} {μ : σ → Nat}

/-- No event of the machine's own is enabled. -/
def AtRest (step : σ → ε → Option σ) (own : ε → Bool) (s : σ) : Prop :=
  ∀ e, own e = true → step s e = none

structure Descends (step : σ → ε → Option σ) (ok : ε → Prop) (own : ε → Bool) (P : σ → Prop)
    (μ : σ → Nat) : Prop where
  kept : ∀ s e s', P s → ok e → step s e = some s' → P s'
  falls : ∀ s e s', P s → ok e → step s e = some s' → μ s' + (own e).toNat ≤ μ s

/-- Where an event may raise the measure, at a cost, the costs pay for the events of the machine's
own. -/
theorem paid (cost : ε → Nat)
    (hkept : ∀ s e s', P s → ok e → step s e = some s' → P s')
    (hfalls : ∀ s e s', P s → ok e → step s e = some s' → μ s' + (own e).toNat ≤ μ s + cost e) :
    ∀ {es : List ε} {s s' : σ}, P s → (∀ e ∈ es, ok e) → run step s es = some s' →
      P s' ∧ es.countP own + μ s' ≤ μ s + (es.map cost).sum := by
  intro es
  induction es with
  | nil => intro s s' hs _ hr; cases hr; exact ⟨hs, by simp⟩
  | cons e es ih =>
    intro s s' hs he hr
    simp only [run] at hr
    split at hr
    · rename_i s₁ h₁
      have hok := he e (List.mem_cons_self ..)
      have hle := hfalls s e s₁ hs hok h₁
      obtain ⟨hs', hrest⟩ := ih (hkept s e s₁ hs hok h₁)
        (fun e' he' => he e' (List.mem_cons_of_mem _ he')) hr
      refine ⟨hs', ?_⟩
      rw [List.countP_cons, List.map_cons, List.sum_cons]
      cases hown : own e with
      | true => rw [hown, Bool.toNat_true] at hle; simp only [if_true]; omega
      | false => rw [hown, Bool.toNat_false] at hle; simp only [Bool.false_eq_true, if_false]; omega
    · cases hr

namespace Descends

theorem bounded (h : Descends step ok own P μ) {es : List ε} {s s' : σ} (hs : P s)
    (he : ∀ e ∈ es, ok e) (hr : run step s es = some s') : P s' ∧ es.countP own + μ s' ≤ μ s := by
  have hpaid := paid (fun _ => 0) h.kept h.falls hs he hr
  have hzero : (es.map fun _ => 0).sum = 0 := by
    rw [List.map_const', List.sum_replicate_nat, Nat.mul_zero]
  rw [hzero, Nat.add_zero] at hpaid
  exact hpaid

/-- What the machine does of its own, it can go on with until it rests. -/
theorem rests (h : Descends step ok own P μ) (hok : ∀ e, own e = true → ok e) : ∀ (n : Nat) {s : σ},
    P s → μ s ≤ n →
      ∃ es s', (∀ e ∈ es, own e = true) ∧ run step s es = some s' ∧ AtRest step own s' := by
  intro n
  induction n with
  | zero =>
    intro s hs hn
    refine ⟨[], s, by simp, rfl, fun e he => ?_⟩
    cases hstep : step s e with
    | none => rfl
    | some s₁ =>
      have hle := h.falls s e s₁ hs (hok e he) hstep
      rw [he, Bool.toNat_true] at hle
      omega
  | succ n ih =>
    intro s hs hn
    by_cases hrest : AtRest step own s
    · exact ⟨[], s, by simp, rfl, hrest⟩
    · simp only [AtRest, Classical.not_forall] at hrest
      obtain ⟨e, he, hne⟩ := hrest
      obtain ⟨s₁, h₁⟩ := Option.ne_none_iff_exists'.mp hne
      have hle := h.falls s e s₁ hs (hok e he) h₁
      rw [he, Bool.toNat_true] at hle
      obtain ⟨es, s', hown, hr, hat⟩ := ih (h.kept s e s₁ hs (hok e he) h₁) (by omega)
      refine ⟨e :: es, s', ?_, by simp only [run, h₁]; exact hr, hat⟩
      intro e' he'
      rcases List.mem_cons.mp he' with rfl | hmem
      · exact he
      · exact hown e' hmem

end Descends
end Transition
