import Mathlib.Algebra.BigOperators.Group.Finset.Basic
import Mathlib.Algebra.Order.BigOperators.Group.Finset
import Mathlib.Data.Finset.Range
import Mathlib.Logic.Function.Basic

/-!
# Pyxxl.Lib.Tally

A weight summed over the first `n` slots of a table `Nat → α`, as the table is written slot by
slot.

* `tally_update`: what one write does to the sum.
* `tally_extend`: a table that grows by one slot.
* `tally_pos`: a slot of positive weight shows in the sum, and conversely.
* `tally_change`, `tally_grow`: two tables that differ in one slot, or by the slots that are new.
-/

universe u
variable {α : Type u} (w : α → Nat)

def tally (n : Nat) (f : Nat → α) : Nat := ∑ i ∈ Finset.range n, w (f i)

theorem tally_congr {n : Nat} {f g : Nat → α} (h : ∀ i, i < n → w (f i) = w (g i)) :
    tally w n f = tally w n g :=
  Finset.sum_congr rfl fun i hi => h i (Finset.mem_range.mp hi)

theorem tally_succ (n : Nat) (f : Nat → α) : tally w (n + 1) f = tally w n f + w (f n) :=
  Finset.sum_range_succ _ n

/-- One slot is written: its old weight goes, its new weight comes. -/
theorem tally_update {n i : Nat} (h : i < n) (f : Nat → α) (a : α) :
    tally w n (Function.update f i a) + w (f i) = tally w n f + w a := by
  have hi : i ∈ Finset.range n := Finset.mem_range.mpr h
  have hrest : ∀ k ∈ (Finset.range n).erase i, w (Function.update f i a k) = w (f k) := by
    intro k hk
    rw [Function.update_of_ne (Finset.ne_of_mem_erase hk)]
  simp only [tally]
  rw [← Finset.sum_erase_add _ _ hi, Finset.sum_congr rfl hrest, Function.update_self,
    ← Finset.sum_erase_add (Finset.range n) (fun k => w (f k)) hi]
  omega

/-- The table grows by the slot `n`, and is otherwise as it was. -/
theorem tally_extend {n : Nat} {f g : Nat → α} (h : ∀ i, i < n → g i = f i) :
    tally w (n + 1) g = tally w n f + w (g n) := by
  rw [tally_succ, tally_congr w fun i hi => by rw [h i hi]]

/-- A table with one slot of weight. -/
theorem tally_single {n i : Nat} {f : Nat → α} (h : i < n)
    (hw : ∀ k, k < n → k ≠ i → w (f k) = 0) : tally w n f = w (f i) :=
  Finset.sum_eq_single i (fun k hk hne => hw k (Finset.mem_range.mp hk) hne)
    fun hn => absurd (Finset.mem_range.mpr h) hn

theorem tally_eq_zero {n : Nat} {f : Nat → α} : tally w n f = 0 ↔ ∀ i, i < n → w (f i) = 0 := by
  simp [tally]

theorem tally_pos {n : Nat} {f : Nat → α} : 0 < tally w n f ↔ ∃ i, i < n ∧ 0 < w (f i) := by
  rw [Nat.pos_iff_ne_zero, ne_eq, tally_eq_zero]
  simp only [not_forall, Nat.pos_iff_ne_zero, ne_eq, exists_prop]

theorem tally_mono {n : Nat} {f g : Nat → α} (h : ∀ i, i < n → w (f i) ≤ w (g i)) :
    tally w n f ≤ tally w n g :=
  Finset.sum_le_sum fun i hi => h i (Finset.mem_range.mp hi)

/-- New slots weigh at most `c` each. -/
theorem tally_grow {m c : Nat} {f : Nat → α} (h : ∀ i, m ≤ i → w (f i) ≤ c) :
    ∀ k, tally w (m + k) f ≤ tally w m f + c * k := by
  intro k
  induction k with
  | zero => simp
  | succ k ih =>
    have hk := h (m + k) (Nat.le_add_right m k)
    rw [← Nat.add_assoc, tally_succ, Nat.mul_succ]
    omega

/-- Two tables that differ in one slot. -/
theorem tally_change {n i : Nat} {f g : Nat → α} (hi : i < n)
    (h : ∀ k, k < n → k ≠ i → g k = f k) : tally w n g + w (f i) = tally w n f + w (g i) := by
  rw [← tally_update w hi f (g i)]
  congr 1
  refine tally_congr w fun k hk => ?_
  by_cases hki : k = i
  · subst hki; rw [Function.update_self]
  · rw [Function.update_of_ne hki, h k hk hki]

/-- Slots that are counted are slots of weight one. -/
theorem countP_range (n : Nat) (p : Nat → Bool) :
    (List.range n).countP p = tally Bool.toNat n p := by
  induction n with
  | zero => rfl
  | succ n ih =>
    rw [List.range_succ, List.countP_append, ih, tally_succ, List.countP_singleton]
    cases p n <;> rfl

theorem tally_add {n : Nat} {β γ : Type u} {v : β → Nat} {z : γ → Nat} {f : Nat → α} {g : Nat → β}
    {k : Nat → γ} (h : ∀ i, i < n → w (f i) = v (g i) + z (k i)) :
    tally w n f = tally v n g + tally z n k := by
  rw [tally, tally, tally, ← Finset.sum_add_distrib]
  exact Finset.sum_congr rfl fun i hi => h i (Finset.mem_range.mp hi)
