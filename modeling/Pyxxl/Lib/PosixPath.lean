import Mathlib.Data.List.Basic
import Pyxxl.Lib.Lines

/-!
# Pyxxl.Lib.PosixPath

Texts of POSIX paths as lists of code points, and the text `pathlib` gives such a path: repeated
slashes and parts that are a single dot are left out, two leading slashes are kept.

* `normal_normal`: the text of a path is the path of that text.
* `parts_join`: a name put behind a path is its last part.
-/

namespace PosixPath

abbrev Text := List Nat

def slash : Nat := 47

def dot : Text := [46]

/-- The slashes an absolute path begins with. -/
def root : Text → Text
  | 47 :: 47 :: 47 :: _ => [slash]
  | 47 :: 47 :: _ => [slash, slash]
  | 47 :: _ => [slash]
  | _ => []

def parts (s : Text) : List Text := (s.splitOn slash).filter fun p => p != [] && p != dot

/-- `Path(s).as_posix()`. -/
def normal (s : Text) : Text :=
  match root s ++ [slash].intercalate (parts s) with
  | [] => dot
  | t => t

/-- `Path(s) / t` for a relative `t`. -/
def join (s t : Text) : Text :=
  normal (if s.getLast? = some slash then s ++ t else s ++ slash :: t)

variable {s t : Text}

/-- Parts of a path, as they are written between slashes. -/
def Clean (ps : List Text) : Prop := ∀ p ∈ ps, p ≠ [] ∧ p ≠ dot ∧ slash ∉ p

theorem parts_clean (s : Text) : Clean (parts s) := by
  intro p hp
  obtain ⟨hm, hne⟩ := List.mem_filter.mp hp
  rw [Bool.and_eq_true, bne_iff_ne, bne_iff_ne] at hne
  exact ⟨hne.1, hne.2, Lines.not_mem_of_mem_splitOn hm⟩

theorem parts_slash (s : Text) : parts (slash :: s) = parts s := by
  rw [parts, List.splitOn_cons_eq_if_modifyHead, if_pos (beq_self_eq_true _)]
  rfl

theorem parts_intercalate {ps : List Text} (h : Clean ps) :
    parts ([slash].intercalate ps) = ps := by
  cases ps with
  | nil => rfl
  | cons p ps =>
    rw [parts, List.splitOn_intercalate slash (fun q hq => (h q hq).2.2) (List.cons_ne_nil p ps),
      List.filter_eq_self]
    intro q hq
    obtain ⟨hne, hdot, -⟩ := h q hq
    rw [Bool.and_eq_true, bne_iff_ne, bne_iff_ne]
    exact ⟨hne, hdot⟩

/-- The parts of a path do not begin with a slash. -/
theorem intercalate_head {ps : List Text} (h : Clean ps) :
    ∀ c ∈ ([slash].intercalate ps).head?, c ≠ slash := by
  cases ps with
  | nil => exact nofun
  | cons p ps =>
    obtain ⟨hne, -, hslash⟩ := h p (List.mem_cons_self ..)
    obtain ⟨c, q, rfl⟩ := List.exists_cons_of_ne_nil hne
    intro d hd hds
    cases ps with
    | nil =>
      cases hd
      exact hslash (hds ▸ List.mem_cons_self ..)
    | cons p' ps =>
      cases hd
      exact hslash (hds ▸ List.mem_cons_self ..)

theorem root_cases (s : Text) : root s = [] ∨ root s = [slash] ∨ root s = [slash, slash] := by
  unfold root
  split
  · exact .inr (.inl rfl)
  · exact .inr (.inr rfl)
  · exact .inr (.inl rfl)
  · exact .inl rfl

theorem root_append (s : Text) (ht : ∀ c ∈ t.head?, c ≠ slash) : root (root s ++ t) = root s := by
  have hnil : root t = [] := by
    unfold root
    split
    · exact absurd rfl (ht 47 rfl)
    · exact absurd rfl (ht 47 rfl)
    · exact absurd rfl (ht 47 rfl)
    · rfl
  rcases root_cases s with h | h | h
  · rw [h]
    exact hnil
  · rw [h]
    cases t with
    | nil => rfl
    | cons c t =>
      have hc : c ≠ 47 := ht c rfl
      show root (47 :: c :: t) = [slash]
      rw [root]
      · exact fun _ he => hc (List.cons.inj he).1
      · exact fun _ he => hc (List.cons.inj he).1
  · rw [h]
    cases t with
    | nil => rfl
    | cons c t =>
      have hc : c ≠ 47 := ht c rfl
      show root (47 :: 47 :: c :: t) = [slash, slash]
      rw [root]
      exact fun _ he => hc (List.cons.inj he).1

theorem parts_root (s t : Text) : parts (root s ++ t) = parts t := by
  rcases root_cases s with h | h | h
  · rw [h, List.nil_append]
  · rw [h]
    exact parts_slash t
  · rw [h]
    exact (parts_slash (slash :: t)).trans (parts_slash t)

theorem normal_ne_nil (s : Text) : normal s ≠ [] := by
  unfold normal
  split
  · exact List.cons_ne_nil _ _
  · rename_i h
    exact h

theorem normal_normal (s : Text) : normal (normal s) = normal s := by
  have hhead := intercalate_head (parts_clean s)
  have hparts : parts (root s ++ [slash].intercalate (parts s)) = parts s := by
    rw [parts_root, parts_intercalate (parts_clean s)]
  have hroot := root_append s hhead
  cases h : root s ++ [slash].intercalate (parts s) with
  | nil =>
    have hs : normal s = dot := by
      rw [normal, h]
    rw [hs]
    rfl
  | cons c t =>
    have hs : normal s = c :: t := by
      rw [normal, h]
    rw [hs]
    rw [h] at hparts hroot
    rw [normal, hparts, hroot, h]

theorem parts_normal (s : Text) : parts (normal s) = parts s := by
  have hparts : parts (root s ++ [slash].intercalate (parts s)) = parts s := by
    rw [parts_root, parts_intercalate (parts_clean s)]
  unfold normal
  split
  · rename_i h
    rw [h] at hparts
    exact hparts
  · exact hparts

theorem parts_append_slash (s t : Text) : parts (s ++ slash :: t) = parts s ++ parts t := by
  rw [parts, List.splitOn_append_cons_self, List.filter_append]
  rfl

theorem parts_join (s : Text) (ht : slash ∉ t) (hne : t ≠ []) (hd : t ≠ dot) :
    parts (join s t) = parts s ++ [t] := by
  have hpart : parts t = [t] := by
    rw [parts, List.splitOn_eq_singleton ht, List.filter_eq_self]
    intro p hp
    rw [List.mem_singleton.mp hp, Bool.and_eq_true, bne_iff_ne, bne_iff_ne]
    exact ⟨hne, hd⟩
  unfold join
  rw [parts_normal]
  split
  · rename_i hl
    obtain ⟨s', rfl⟩ := List.getLast?_eq_some_iff.mp hl
    rw [List.append_assoc, List.singleton_append, parts_append_slash, parts_append_slash, hpart]
    show _ = parts s' ++ [] ++ _
    rw [List.append_nil]
  · rw [parts_append_slash, hpart]

end PosixPath
