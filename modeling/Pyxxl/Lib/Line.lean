import Mathlib.Data.List.Sublists

/-!
# Pyxxl.Lib.Line

A waiting line over an arbitrary type: elements arrive at its end, the one at its front is
served, and any of the waiting ones may be turned away. A `Line` carries the proof that what has
been served, followed by what still waits, is in arrival order.

* `Evolves L L'`: `L'` comes from `L` by finitely many arrivals, servings and refusals.
* `served_sublist`: elements are served in the order of their arrival.
-/

universe u

structure Line (α : Type u) where
  arrived : List α
  served : List α
  waiting : List α
  ordered : (served ++ waiting).Sublist arrived

namespace Line

variable {α : Type u}

def empty : Line α := ⟨[], [], [], List.Sublist.refl _⟩

def arrive (L : Line α) (x : α) : Line α where
  arrived := L.arrived ++ [x]
  served := L.served
  waiting := L.waiting ++ [x]
  ordered := by
    rw [← List.append_assoc]
    exact L.ordered.append (List.Sublist.refl _)

def serve (L : Line α) (x : α) (rest : List α) (h : L.waiting = x :: rest) : Line α where
  arrived := L.arrived
  served := L.served ++ [x]
  waiting := rest
  ordered := by simpa [h] using L.ordered

def keep (L : Line α) (kept : List α) (h : kept.Sublist L.waiting) : Line α where
  arrived := L.arrived
  served := L.served
  waiting := kept
  ordered := ((List.Sublist.refl _).append h).trans L.ordered

inductive Evolves : Line α → Line α → Prop where
  | refl {L : Line α} : Evolves L L
  | arrive {L L' : Line α} (x : α) : Evolves L L' → Evolves L (L'.arrive x)
  | serve {L L' : Line α} (x : α) (rest : List α) (h : L'.waiting = x :: rest) :
      Evolves L L' → Evolves L (L'.serve x rest h)
  | keep {L L' : Line α} (kept : List α) (h : kept.Sublist L'.waiting) :
      Evolves L L' → Evolves L (L'.keep kept h)

theorem served_sublist (L : Line α) : L.served.Sublist L.arrived :=
  (List.sublist_append_left _ _).trans L.ordered

namespace Evolves

theorem trans {L₁ L₂ L₃ : Line α} (h₁ : Evolves L₁ L₂) (h₂ : Evolves L₂ L₃) : Evolves L₁ L₃ := by
  induction h₂ with
  | refl => exact h₁
  | arrive x _ ih => exact .arrive x ih
  | serve x rest h _ ih => exact .serve x rest h ih
  | keep kept h _ ih => exact .keep kept h ih

end Evolves
end Line
