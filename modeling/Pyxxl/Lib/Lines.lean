import Mathlib.Data.List.DropRight

/-!
# Pyxxl.Lib.Lines

A text over an arbitrary alphabet cut into lines, each with its terminator `nl`. Only the last line
of a text may lack it.

* `flatten_lines`: the lines put together are the text.
* `lines_append`: a text of whole lines is cut on its own, whatever follows it.
* `lines_flatten`: a text put together from lines is cut into just these.

Pieces of a text between separators (`List.splitOn`), and `trim`, which takes what `p` holds of off
both ends of a text.
-/

universe u

namespace Lines

variable {α : Type u} {nl : α} {t u : List α}

/-- The text ends with the end of a line. -/
def Whole (nl : α) (t : List α) : Prop := ∀ c ∈ t.getLast?, c = nl

/-- A single line, with its terminator. -/
def IsLine (nl : α) (l : List α) : Prop := ∃ body, l = body ++ [nl] ∧ nl ∉ body

theorem Whole.tail {c : α} (h : Whole nl (c :: t)) : Whole nl t := by
  intro d hd
  cases t with
  | nil => cases hd
  | cons x xs => exact h d (by rw [List.getLast?_cons_cons]; exact hd)

theorem Whole.cons {c : α} (h : Whole nl t) (hc : t = [] → c = nl) : Whole nl (c :: t) := by
  intro d hd
  cases t with
  | nil => exact (Option.some.inj hd).symm.trans (hc rfl)
  | cons x xs => exact h d (by rw [List.getLast?_cons_cons] at hd; exact hd)

theorem Whole.append (ht : Whole nl t) (hu : Whole nl u) : Whole nl (t ++ u) := by
  intro c hc
  rw [List.getLast?_append] at hc
  cases h : u.getLast? with
  | none => rw [h] at hc; exact ht c hc
  | some d => rw [h] at hc; exact hu c (by rw [h]; exact hc)

theorem IsLine.whole {l : List α} (h : IsLine nl l) : Whole nl l := by
  obtain ⟨body, rfl, -⟩ := h
  intro c hc
  rw [List.getLast?_concat] at hc
  exact (Option.some.inj hc).symm

variable [DecidableEq α]

instance (nl : α) (t : List α) : Decidable (Whole nl t) := inferInstanceAs (Decidable (∀ c ∈ _, _))

def lines (nl : α) : List α → List (List α)
  | [] => []
  | c :: cs =>
    if c = nl then [c] :: lines nl cs
    else
      match lines nl cs with
      | [] => [[c]]
      | l :: ls => (c :: l) :: ls

theorem flatten_lines : (lines nl t).flatten = t := by
  induction t with
  | nil => rfl
  | cons c cs ih =>
    simp only [lines]
    split
    · rw [List.flatten_cons, ih]
      rfl
    · split
      · rename_i h
        rw [h] at ih
        rw [← ih]
        rfl
      · rename_i l ls h
        rw [h] at ih
        rw [← ih]
        rfl

theorem lines_append (h : Whole nl t) : lines nl (t ++ u) = lines nl t ++ lines nl u := by
  induction t with
  | nil => rfl
  | cons c cs ih =>
    simp only [List.cons_append, lines]
    rw [ih h.tail]
    split
    · rfl
    · rename_i hc
      -- `c` is not the last one, so that the rest is not empty
      have hne : lines nl cs ≠ [] := by
        intro he
        have hcs : cs = [] := by rw [← flatten_lines (t := cs), he]; rfl
        subst hcs
        exact hc (h c rfl)
      obtain ⟨l, ls, hl⟩ := List.exists_cons_of_ne_nil hne
      rw [hl]
      rfl

theorem IsLine.lines_eq {l : List α} (h : IsLine nl l) : lines nl l = [l] := by
  obtain ⟨body, rfl, hn⟩ := h
  induction body with
  | nil => simp [lines]
  | cons c cs ih =>
    have hc : c ≠ nl := fun he => hn (by rw [he]; exact List.mem_cons_self ..)
    simp only [List.cons_append, lines, if_neg hc, ih fun hm => hn (List.mem_cons_of_mem _ hm)]

theorem lines_flatten {ls : List (List α)} (h : ∀ l ∈ ls, IsLine nl l) : lines nl ls.flatten = ls := by
  induction ls with
  | nil => rfl
  | cons l ls ih =>
    have hl := h l (List.mem_cons_self ..)
    rw [List.flatten_cons, lines_append hl.whole, hl.lines_eq,
      ih fun k hk => h k (List.mem_cons_of_mem _ hk)]
    rfl

/-! ## Pieces -/

section Pieces

variable {x : α} {p : List α} {ps : List (List α)}

omit [DecidableEq α] in
theorem part_intercalate (x : α) (hp : p ∈ ps) : p <:+: [x].intercalate ps := by
  induction ps with
  | nil => cases hp
  | cons q ps ih =>
    cases ps with
    | nil =>
      obtain rfl := List.mem_singleton.mp hp
      exact ⟨[], [], by rw [List.intercalate_singleton, List.nil_append, List.append_nil]⟩
    | cons q' ps =>
      rw [List.intercalate_cons_cons]
      rcases List.mem_cons.mp hp with rfl | hp
      · exact (List.prefix_append _ _).isInfix.trans (List.prefix_append _ _).isInfix
      · exact (ih hp).trans (List.suffix_append _ _).isInfix

theorem not_mem_of_mem_splitOn (h : p ∈ t.splitOn x) : x ∉ p := by
  induction t generalizing p with
  | nil =>
    rw [List.splitOn_nil, List.mem_singleton] at h
    rw [h]
    exact List.not_mem_nil
  | cons c t ih =>
    rw [List.splitOn_cons_eq_if_modifyHead] at h
    split at h
    · rcases List.mem_cons.mp h with rfl | h
      · exact List.not_mem_nil
      · exact ih h
    · rename_i hc
      obtain ⟨q, qs, hq⟩ := List.exists_cons_of_ne_nil (List.splitOn_ne_nil x t)
      rw [hq, List.modifyHead_cons] at h
      rcases List.mem_cons.mp h with rfl | h
      · intro hm
        rcases List.mem_cons.mp hm with he | hm
        · exact hc (by rw [he]; exact beq_self_eq_true _)
        · exact ih (hq ▸ List.mem_cons_self ..) hm
      · exact ih (hq ▸ List.mem_cons_of_mem _ h)

end Pieces

/-! ## Trimming -/

section Trim

variable {β : Type u} {p : β → Bool} {t : List β}

def trim (p : β → Bool) (t : List β) : List β := (t.dropWhile p).rdropWhile p

theorem mem_of_mem_trim {c : β} (h : c ∈ trim p t) : c ∈ t :=
  (List.dropWhile_sublist _).subset ((List.rdropWhile_prefix _ _).subset h)

theorem trim_eq_self (hh : ∀ c ∈ t.head?, p c = false) (hl : ∀ c ∈ t.getLast?, p c = false) :
    trim p t = t := by
  have hdrop : t.dropWhile p = t := by
    cases t with
    | nil => rfl
    | cons c t => exact List.dropWhile_cons_of_neg (by rw [hh c rfl]; exact nofun)
  rw [trim, hdrop, List.rdropWhile_eq_self_iff]
  intro hne
  rw [hl _ (List.getLast?_eq_some_getLast hne)]
  exact nofun

/-- Where the first element stays, all stay but at the end. -/
theorem trim_of_head (hh : ∀ c ∈ t.head?, p c = false) : trim p t = t.rdropWhile p := by
  cases t with
  | nil => rfl
  | cons c t =>
    rw [trim, List.dropWhile_cons_of_neg (by rw [hh c rfl]; exact nofun)]

theorem head_trim : ∀ c ∈ (trim p t).head?, p c = false := by
  intro c hc
  obtain ⟨u, hu⟩ := List.rdropWhile_prefix p (t.dropWhile p)
  have hne : (t.dropWhile p).rdropWhile p ≠ [] := by
    rintro hnil
    rw [trim, hnil] at hc
    cases hc
  have hd : (t.dropWhile p).head? = some c := by
    rw [← hu, List.head?_append_of_ne_nil _ hne]
    exact hc
  have hnot := List.head?_dropWhile_not p t
  rw [hd] at hnot
  exact hnot

theorem getLast_trim : ∀ c ∈ (trim p t).getLast?, p c = false := by
  intro c hc
  have hne : trim p t ≠ [] := by
    rintro hnil
    rw [hnil] at hc
    cases hc
  rw [List.getLast?_eq_some_getLast hne] at hc
  cases hc
  exact Bool.eq_false_iff.mpr (List.rdropWhile_last_not p (t.dropWhile p) hne)

theorem trim_trim : trim p (trim p t) = trim p t := trim_eq_self head_trim getLast_trim

theorem trim_ne_nil (hne : t ≠ []) (hh : ∀ c ∈ t.head?, p c = false) : trim p t ≠ [] := by
  obtain ⟨c, u, rfl⟩ := List.exists_cons_of_ne_nil hne
  rw [trim_of_head hh]
  intro hnil
  have hc := List.rdropWhile_eq_nil_iff.mp hnil c (List.mem_cons_self ..)
  rw [hh c rfl] at hc
  cases hc

end Trim

end Lines
