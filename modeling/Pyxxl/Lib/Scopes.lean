import Mathlib.Data.List.Basic

/-!
# Pyxxl.Lib.Scopes

Objects that hold others under names, as the list of the bindings that were made, newest first: a
binding hides the older ones of its name at its holder.

* `Last`: the binding that a name at a holder stands for.
* `qual`: the path of names an object was made under. It need not lead to it: the object may never
  have been bound there, or a newer binding may be in the way.
* `walk_qual_iff`: the path of an object leads to it exactly if every binding on the way is the last
  of its name.
-/

namespace Scopes

variable {Obj Name : Type} [DecidableEq Obj] [DecidableEq Name]

structure Binding (Obj Name : Type) where
  holder : Obj
  key : Name
  value : Obj

def attr (bs : List (Binding Obj Name)) (o : Obj) (k : Name) : Option Obj :=
  (bs.find? fun b => b.holder = o ∧ b.key = k).map Binding.value

/-- Follow a path of names. -/
def walk (bs : List (Binding Obj Name)) (o : Obj) : List Name → Option Obj
  | [] => some o
  | k :: ks => (attr bs o k).bind fun o' => walk bs o' ks

/-- No newer binding has the name of `b` at its holder. -/
def Last (bs : List (Binding Obj Name)) (b : Binding Obj Name) : Prop :=
  ∃ newer older, bs = newer ++ b :: older ∧ ∀ c ∈ newer, ¬(c.holder = b.holder ∧ c.key = b.key)

/-- The binding of the object under its own name is the last one of that name, and so for the object
that holds it. -/
inductive Stays (bs : List (Binding Obj Name)) (qual : Obj → List Name) (root : Obj) :
    Obj → Prop where
  | root : Stays bs qual root root
  | bound {b : Binding Obj Name} : Last bs b → qual b.value = qual b.holder ++ [b.key] →
      Stays bs qual root b.holder → Stays bs qual root b.value

variable {bs : List (Binding Obj Name)} {qual : Obj → List Name} {root o v : Obj} {k : Name}

omit [DecidableEq Obj] [DecidableEq Name] in
theorem Last.mem {b : Binding Obj Name} (h : Last bs b) : b ∈ bs := by
  obtain ⟨newer, older, rfl, -⟩ := h
  exact List.mem_append_right _ (List.mem_cons_self ..)

theorem attr_eq_some : attr bs o k = some v ↔
    ∃ b, Last bs b ∧ b.holder = o ∧ b.key = k ∧ b.value = v := by
  unfold attr
  rw [Option.map_eq_some_iff]
  constructor
  · rintro ⟨b, hb, rfl⟩
    obtain ⟨hp, newer, older, rfl, hnew⟩ := List.find?_eq_some_iff_append.mp hb
    obtain ⟨hh, hk⟩ := of_decide_eq_true hp
    refine ⟨b, ⟨newer, older, rfl, fun c hc hcb => ?_⟩, hh, hk, rfl⟩
    have hfalse := hnew c hc
    rw [decide_eq_true ⟨hcb.1.trans hh, hcb.2.trans hk⟩] at hfalse
    cases hfalse
  · rintro ⟨b, ⟨newer, older, rfl, hnew⟩, rfl, rfl, rfl⟩
    refine ⟨b, List.find?_eq_some_iff_append.mpr ⟨decide_eq_true ⟨rfl, rfl⟩, newer, older, rfl, ?_⟩,
      rfl⟩
    intro c hc
    rw [decide_eq_false (hnew c hc)]
    rfl

theorem walk_append (o : Obj) (ks ls : List Name) :
    walk bs o (ks ++ ls) = (walk bs o ks).bind fun o' => walk bs o' ls := by
  induction ks generalizing o with
  | nil => rfl
  | cons k ks ih =>
    rw [List.cons_append, walk, walk]
    cases attr bs o k with
    | none => rfl
    | some o' => exact ih o'

theorem walk_concat (o : Obj) (ks : List Name) (k : Name) :
    walk bs o (ks ++ [k]) = (walk bs o ks).bind fun o' => attr bs o' k := by
  rw [walk_append]
  cases walk bs o ks with
  | none => rfl
  | some o' =>
    show (attr bs o' k).bind some = attr bs o' k
    exact Option.bind_fun_some _

theorem Stays.walk (hroot : qual root = []) (h : Stays bs qual root v) :
    walk bs root (qual v) = some v := by
  induction h with
  | root => rw [hroot]; rfl
  | @bound b hl hq _ ih =>
    rw [hq, walk_concat, ih]
    exact attr_eq_some.mpr ⟨b, hl, rfl, rfl, rfl⟩

/-- `proper` objects are bound only where they were made. -/
theorem walk_qual_iff (proper : Obj → Prop) (hroot : qual root = [])
    (hholder : ∀ b ∈ bs, proper b.holder)
    (hqual : ∀ b ∈ bs, proper b.value → ∃ n, qual b.value = qual b.holder ++ [n])
    (hv : proper v) : Scopes.walk bs root (qual v) = some v ↔ Stays bs qual root v := by
  refine ⟨fun h => ?_, Stays.walk hroot⟩
  -- by induction on the length of the path: the holder has a shorter one
  generalize hn : (qual v).length = n
  induction n generalizing v with
  | zero =>
    rw [List.length_eq_zero_iff.mp hn] at h
    cases h
    exact .root
  | succ n ih =>
    rcases List.eq_nil_or_concat' (qual v) with hnil | ⟨ks, k, hks⟩
    · rw [hnil] at hn
      cases hn
    · rw [hks, walk_concat] at h
      obtain ⟨w, hw, hk⟩ := Option.bind_eq_some_iff.mp h
      obtain ⟨b, hl, rfl, rfl, rfl⟩ := attr_eq_some.mp hk
      obtain ⟨m, hm⟩ := hqual b hl.mem hv
      obtain ⟨rfl, -⟩ := List.append_inj' (hks.symm.trans hm) rfl
      refine .bound hl hks (ih (hholder b hl.mem) hw ?_)
      rw [hm, List.length_append, List.length_singleton] at hn
      exact Nat.succ.inj hn

end Scopes
