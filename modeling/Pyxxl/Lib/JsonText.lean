import Pyxxl.Lib.Json

/-!
# Pyxxl.Lib.JsonText

The text `json.dumps` makes of a value with `ensure_ascii=False`, and that `loads` gives the value
back.

* only control characters are written as `\uXXXX`, so that no two of these are ever joined.
* `Fits l n`: the values within the limits `l` whose arrays and objects are nested at most `n` deep,
  without repeated keys. Numbers that are not integers are left out.
* `loads_dump`: such a value is read back. `dump_forall`: what its text is made of.
-/

namespace Json

/-! ## The writer -/

def hexChar (d : Nat) : Nat := if d < 10 then 48 + d else 87 + d

/-- A code point as it stands in a string. -/
def escapeChar (c : Nat) : Text :=
  if c = 34 then [92, 34]
  else if c = 92 then [92, 92]
  else if c = 10 then [92, 110]
  else if c = 13 then [92, 114]
  else if c = 9 then [92, 116]
  else if c = 12 then [92, 102]
  else if c = 8 then [92, 98]
  else if c < 32 then [92, 117, 48, 48, hexChar (c / 16), hexChar (c % 16)]
  else [c]

def quote (s : Text) : Text := 34 :: (s.flatMap escapeChar ++ [34])

def digitsOf (n : Nat) : Text := (Nat.toDigits 10 n).map Char.toNat

/-- `int.__repr__`. -/
def intText : Int → Text
  | .ofNat n => digitsOf n
  | .negSucc n => 45 :: digitsOf (n + 1)

mutual

/-- The text of a value, with `ensure_ascii=False`. -/
def dump : Json → Text
  | .null => text "null"
  | .bool true => text "true"
  | .bool false => text "false"
  | .int z => intText z
  | .float t => t
  | .str s => quote s
  | .arr [] => [91, 93]
  | .arr (x :: xs) => 91 :: (dump x ++ dumpElements xs)
  | .obj [] => [123, 125]
  | .obj ((k, x) :: ms) => 123 :: (quote k ++ 58 :: 32 :: (dump x ++ dumpMembers ms))

/-- The elements after the first one, with the closing bracket. -/
def dumpElements : List Json → Text
  | [] => [93]
  | x :: xs => 44 :: 32 :: (dump x ++ dumpElements xs)

def dumpMembers : List (Text × Json) → Text
  | [] => [125]
  | (k, x) :: ms => 44 :: 32 :: (quote k ++ 58 :: 32 :: (dump x ++ dumpMembers ms))

end

/-- `int` takes the digits, and `int.__repr__` gives them. -/
def printable (l : Limits) (z : Int) : Prop := (digitsOf z.natAbs).length ≤ l.digits

instance (l : Limits) (z : Int) : Decidable (printable l z) := inferInstanceAs (Decidable (_ ≤ _))

mutual

/-- The integers in a value. -/
def ints : Json → List Int
  | .int z => [z]
  | .arr xs => elementInts xs
  | .obj ms => memberInts ms
  | _ => []

def elementInts : List Json → List Int
  | [] => []
  | x :: xs => ints x ++ elementInts xs

def memberInts : List (Text × Json) → List Int
  | [] => []
  | (_, x) :: ms => ints x ++ memberInts ms

end

/-- `json.dumps` with `ensure_ascii=False`, as far as `int.__repr__` lets it. -/
def dumps (l : Limits) (v : Json) : Option Text :=
  if ∀ z ∈ ints v, printable l z then some (dump v) else none

inductive Fits (l : Limits) : Nat → Json → Prop where
  | null {n : Nat} : Fits l n .null
  | bool {n : Nat} (b : Bool) : Fits l n (.bool b)
  | int {n : Nat} {z : Int} : printable l z → Fits l n (.int z)
  | str {n : Nat} (s : Text) : Fits l n (.str s)
  | arr {n : Nat} {xs : List Json} : (∀ x ∈ xs, Fits l n x) → Fits l (n + 1) (.arr xs)
  | obj {n : Nat} {ms : List (Text × Json)} : (ms.map Prod.fst).Nodup →
      (∀ m ∈ ms, Fits l n m.2) → Fits l (n + 1) (.obj ms)

/-- What may follow a value: nothing that a number could go on with. -/
def Stops (r : Text) : Prop := ∀ c ∈ r.head?, isDigit c = false ∧ c ≠ 46 ∧ c ≠ 69 ∧ c ≠ 101

/-- The reader takes the text of the value off a longer one. -/
def Reads (read : Text → Except Error (Json × Text)) (v : Json) : Prop :=
  ∀ r, Stops r → read (dump v ++ r) = .ok (v, r)

variable {l : Limits} {n : Nat} {r s : Text}

theorem Stops.nil : Stops [] := fun _ h => by cases h

theorem Stops.cons {c : Nat} (h : isDigit c = false ∧ c ≠ 46 ∧ c ≠ 69 ∧ c ≠ 101) :
    Stops (c :: r) := fun _ hd => by cases hd; exact h

/-! ## Strings -/

theorem hex4_escaped : ∀ c < 32, hex4 48 48 (hexChar (c / 16)) (hexChar (c % 16)) = some c := by
  decide

theorem units_escape {c e : Nat} (h : escape c = some e) (hc : c ≠ 117) (s : Text) :
    units (92 :: c :: s) = push (false, e) (units s) := by
  rw [units, h]
  exact fun _ _ _ _ _ h117 => absurd h117 hc

/-- A code point is read back, as `\uXXXX` only if it is a control character. -/
theorem units_escapeChar (c : Nat) :
    ∃ b, (b = true → c < 32) ∧ ∀ s, units (escapeChar c ++ s) = push (b, c) (units s) := by
  unfold escapeChar
  split
  · subst c; exact ⟨false, nofun, units_escape rfl (by decide)⟩
  split
  · subst c; exact ⟨false, nofun, units_escape rfl (by decide)⟩
  split
  · subst c; exact ⟨false, nofun, units_escape rfl (by decide)⟩
  split
  · subst c; exact ⟨false, nofun, units_escape rfl (by decide)⟩
  split
  · subst c; exact ⟨false, nofun, units_escape rfl (by decide)⟩
  split
  · subst c; exact ⟨false, nofun, units_escape rfl (by decide)⟩
  split
  · subst c; exact ⟨false, nofun, units_escape rfl (by decide)⟩
  split
  · rename_i h
    refine ⟨true, fun _ => h, fun s => ?_⟩
    simp only [List.cons_append, List.nil_append]
    rw [units]
    simp only [hex4_escaped c h]
  · rename_i h34 h92 _ _ _ _ _ h
    refine ⟨false, nofun, fun s => ?_⟩
    simp only [List.cons_append, List.nil_append]
    rw [units, if_neg h]
    · exact h34
    · exact h92

theorem units_quote (s r : Text) : ∃ us : List CodeUnit,
    units (s.flatMap escapeChar ++ 34 :: r) = some (us, r) ∧ us.map Prod.snd = s ∧
      ∀ u ∈ us, u.1 = true → u.2 < 32 := by
  induction s with
  | nil => exact ⟨[], by rw [List.flatMap_nil, List.nil_append, units], rfl, nofun⟩
  | cons c s ih =>
    obtain ⟨us, hu, hs, hb⟩ := ih
    obtain ⟨b, hc, hread⟩ := units_escapeChar c
    refine ⟨(b, c) :: us, ?_, by rw [List.map_cons, hs], ?_⟩
    · rw [List.flatMap_cons, List.append_assoc, hread, hu]
      rfl
    · intro u hu
      rcases List.mem_cons.mp hu with rfl | hu
      · exact hc
      · exact hb u hu

/-- Control characters are no surrogates. -/
theorem joinPairs_small {us : List CodeUnit} (h : ∀ u ∈ us, u.1 = true → u.2 < 32) :
    joinPairs us = us.map Prod.snd := by
  induction us with
  | nil => rfl
  | cons u us ih =>
    have ht := ih fun v hv => h v (List.mem_cons_of_mem _ hv)
    obtain ⟨b, c⟩ := u
    cases us with
    | nil => cases b <;> rfl
    | cons v us =>
      obtain ⟨d, e⟩ := v
      have hc : b = true → isHigh c = false := fun hb => by
        have := h (b, c) (List.mem_cons_self ..) hb
        simp only [isHigh, Bool.and_eq_false_iff, decide_eq_false_iff_not]
        omega
      cases b with
      | false =>
        rw [joinPairs, ht]
        · rfl
        · exact fun _ _ _ h => Bool.false_ne_true h
      | true =>
        cases d with
        | false =>
          rw [joinPairs, ht]
          · rfl
          · exact fun _ _ h => by cases h
        | true =>
          rw [joinPairs, hc rfl, Bool.false_and, if_neg Bool.false_ne_true, ht]
          rfl

theorem string_quote (s r : Text) : string (s.flatMap escapeChar ++ 34 :: r) = some (s, r) := by
  obtain ⟨us, hu, hs, hb⟩ := units_quote s r
  rw [string, hu, Option.map_some, joinPairs_small hb, hs]

/-! ## Integers -/

theorem digitsOf_isDigit {c : Nat} (h : c ∈ digitsOf n) : isDigit c = true := by
  obtain ⟨d, hd, rfl⟩ := List.mem_map.mp h
  have := Nat.isDigit_of_mem_toDigits (by decide) (by decide) hd
  simp only [Char.isDigit, Bool.and_eq_true, decide_eq_true_eq, ge_iff_le, UInt32.le_iff_toNat_le]
    at this
  simp only [isDigit, Bool.and_eq_true, decide_eq_true_eq]
  exact this

theorem natOf_digitsOf (n : Nat) : natOf (digitsOf n) = n := by
  rw [natOf, digitsOf, List.foldl_map]
  exact Nat.ofDigitChars_ten_toDigits

/-- The digits of a number but zero do not begin with a zero. -/
theorem digitsOf_cases (n : Nat) : digitsOf n = [48] ∧ n = 0 ∨
    ∃ d ds, digitsOf n = d :: ds ∧ d ≠ 48 ∧ ∀ c ∈ d :: ds, isDigit c = true := by
  by_cases hn : n = 0
  · subst hn
    exact .inl ⟨rfl, rfl⟩
  · refine .inr ?_
    induction n using Nat.strongRecOn with
    | ind n ih =>
      by_cases hlt : n < 10
      · have hd : digitsOf n = [n.digitChar.toNat] := by
          rw [digitsOf, Nat.toDigits_of_lt_base hlt]
          rfl
        refine ⟨_, [], hd, ?_, fun c hc => digitsOf_isDigit (hd ▸ hc)⟩
        rw [Nat.toNat_digitChar_of_lt_ten hlt]
        omega
      · obtain ⟨d, ds, hd, h48, hall⟩ := ih (n / 10) (by omega) (by omega)
        have hn : digitsOf n = d :: (ds ++ [(n % 10).digitChar.toNat]) := by
          rw [digitsOf, Nat.toDigits_of_base_le (by decide) (by omega), List.map_append]
          exact congrArg (· ++ _) hd
        exact ⟨d, _, hn, h48, fun c hc => digitsOf_isDigit (hn ▸ hc)⟩

theorem takeWhile_digits {ds : Text} (h : ∀ c ∈ ds, isDigit c = true) (hr : Stops r) :
    (ds ++ r).takeWhile isDigit = ds ∧ (ds ++ r).dropWhile isDigit = r := by
  induction ds with
  | nil =>
    cases r with
    | nil => exact ⟨rfl, rfl⟩
    | cons c r =>
      have hc := (hr c rfl).1
      rw [List.nil_append, List.takeWhile_cons, List.dropWhile_cons, hc]
      exact ⟨rfl, rfl⟩
  | cons d ds ih =>
    obtain ⟨ht, hd⟩ := ih fun c hc => h c (List.mem_cons_of_mem _ hc)
    rw [List.cons_append, List.takeWhile_cons, List.dropWhile_cons, h d (List.mem_cons_self ..),
      if_pos rfl, if_pos rfl, ht, hd]
    exact ⟨rfl, rfl⟩

theorem intPart_digitsOf (n : Nat) (hr : Stops r) :
    intPart (digitsOf n ++ r) = some (digitsOf n, r) := by
  rcases digitsOf_cases n with ⟨h, -⟩ | ⟨d, ds, h, h48, hall⟩
  · rw [h]
    rfl
  · obtain ⟨ht, hd⟩ := takeWhile_digits (fun c hc => hall c (List.mem_cons_of_mem _ hc)) hr
    rw [h, List.cons_append, intPart, if_pos (hall d (List.mem_cons_self ..)), ht, hd]
    exact fun he => h48 he

theorem fracPart_stops (hr : Stops r) : fracPart r = ([], r) := by
  cases r with
  | nil => rfl
  | cons c r =>
    rw [fracPart]
    exact fun d s he => by cases he; exact (hr 46 rfl).2.1 rfl

theorem expPart_stops (hr : Stops r) : expPart r = ([], r) := by
  cases r with
  | nil => rfl
  | cons c r =>
    obtain ⟨-, -, h69, h101⟩ := hr c rfl
    have hc : (c == 69 || c == 101) = false := by
      rw [Bool.or_eq_false_iff]
      exact ⟨beq_eq_false_iff_ne.mpr h69, beq_eq_false_iff_ne.mpr h101⟩
    rw [expPart]
    simp only [hc, Bool.false_and, if_neg Bool.false_ne_true]

theorem unsigned_digitsOf (negative : Bool) (h : (digitsOf n).length ≤ l.digits) (hr : Stops r) :
    unsigned l negative (digitsOf n ++ r) =
      .ok (.int (if negative then -(n : Int) else n), r) := by
  rw [unsigned, intPart_digitsOf n hr]
  simp only [fracPart_stops hr, expPart_stops hr, List.isEmpty_nil, Bool.and_self, if_true, if_pos h,
    natOf_digitsOf]

/-- An integer begins with a digit, or with a sign and a digit. -/
theorem intText_cases (z : Int) : ∃ d ds, isDigit d = true ∧
    (intText z = d :: ds ∨ intText z = 45 :: d :: ds) := by
  have hdigits : ∀ n, ∃ d ds, isDigit d = true ∧ digitsOf n = d :: ds := fun n => by
    rcases digitsOf_cases n with ⟨h, -⟩ | ⟨d, ds, h, -, hall⟩
    · exact ⟨48, [], rfl, h⟩
    · exact ⟨d, ds, hall d (List.mem_cons_self ..), h⟩
  cases z with
  | ofNat n =>
    obtain ⟨d, ds, hd, h⟩ := hdigits n
    exact ⟨d, ds, hd, .inl h⟩
  | negSucc n =>
    obtain ⟨d, ds, hd, h⟩ := hdigits (n + 1)
    exact ⟨d, ds, hd, .inr (congrArg (45 :: ·) h)⟩

theorem strip_head {c d : Nat} (p : Text) (h : c ≠ d) : strip (c :: p) (d :: s) = none := by
  rw [strip, List.isPrefixOf_cons_cons, beq_eq_false_iff_ne.mpr h, Bool.false_and,
    if_neg Bool.false_ne_true]

/-- No word begins like an integer; one begins with a sign. -/
theorem words_head : ∀ w ∈ words, ∃ c p, isDigit c = false ∧
    (w.1 = c :: p ∧ c ≠ 45 ∨ w.1 = 45 :: c :: p) := by
  simp only [words, List.forall_mem_cons]
  exact ⟨⟨110, _, rfl, .inl ⟨rfl, by decide⟩⟩, ⟨116, _, rfl, .inl ⟨rfl, by decide⟩⟩,
    ⟨102, _, rfl, .inl ⟨rfl, by decide⟩⟩, ⟨78, _, rfl, .inl ⟨rfl, by decide⟩⟩,
    ⟨73, _, rfl, .inl ⟨rfl, by decide⟩⟩, ⟨73, _, rfl, .inr rfl⟩, nofun⟩

theorem word_intText (z : Int) (r : Text) : word (intText z ++ r) = none := by
  obtain ⟨d, ds, hd, h⟩ := intText_cases z
  have hne : ∀ c, isDigit c = false → c ≠ d := fun c hc he => by
    rw [he, hd] at hc
    cases hc
  rw [word, List.findSome?_eq_none_iff]
  intro w hw
  rw [Option.map_eq_none_iff]
  obtain ⟨c, p, hc, ⟨hp, h45⟩ | hp⟩ := words_head w hw
  · rw [hp]
    rcases h with h | h
    · rw [h]
      exact strip_head p (hne c hc)
    · rw [h]
      exact strip_head p h45
  · rw [hp]
    rcases h with h | h
    · rw [h]
      exact strip_head _ (hne 45 rfl)
    · rw [h, strip, List.cons_append, List.cons_append, List.isPrefixOf_cons_cons,
        List.isPrefixOf_cons_cons, beq_eq_false_iff_ne.mpr (hne c hc), Bool.false_and,
        Bool.and_false, if_neg Bool.false_ne_true]

theorem number_intText {z : Int} (h : printable l z) (hr : Stops r) :
    number l (intText z ++ r) = .ok (.int z, r) := by
  cases z with
  | ofNat n =>
    have hu : unsigned l false (digitsOf n ++ r) = .ok (.int (n : Int), r) :=
      unsigned_digitsOf false h hr
    show number l (digitsOf n ++ r) = _
    rw [number, hu]
    · rfl
    · intro s hs
      -- a sign is no digit
      have h45 : 45 ∈ digitsOf n := by
        obtain ⟨d, ds, -, hd | hd⟩ := intText_cases (.ofNat n)
        · have hd : digitsOf n = d :: ds := hd
          rw [hd, List.cons_append, List.cons.injEq] at hs
          rw [hd, hs.1]
          exact List.mem_cons_self ..
        · have hd : digitsOf n = 45 :: d :: ds := hd
          rw [hd]
          exact List.mem_cons_self ..
      cases digitsOf_isDigit h45
  | negSucc n => exact unsigned_digitsOf true h hr

/-! ## Values -/

/-- What the text of a value begins with: no blank, no closing bracket, no byte order mark. -/
def Opens (c : Nat) : Prop := isSpace c = false ∧ c ≠ 93 ∧ c ≠ 125 ∧ c ≠ 0xFEFF

theorem Opens.of_isDigit {c : Nat} (h : isDigit c = true) : Opens c := by
  simp only [isDigit, Bool.and_eq_true, decide_eq_true_eq] at h
  refine ⟨?_, by omega, by omega, by omega⟩
  simp only [isSpace, Bool.or_eq_false_iff, beq_eq_false_iff_ne]
  omega

theorem dump_opens {v : Json} (h : Fits l n v) : ∃ c t, dump v = c :: t ∧ Opens c := by
  cases h with
  | null => exact ⟨110, _, rfl, by unfold Opens; decide⟩
  | bool b =>
    cases b with
    | true => exact ⟨116, _, rfl, by unfold Opens; decide⟩
    | false => exact ⟨102, _, rfl, by unfold Opens; decide⟩
  | @int _ z hz =>
    obtain ⟨d, ds, hd, h | h⟩ := intText_cases z
    · exact ⟨d, ds, h, .of_isDigit hd⟩
    · exact ⟨45, d :: ds, h, by unfold Opens; decide⟩
  | str s => exact ⟨34, _, rfl, by unfold Opens; decide⟩
  | @arr n xs hx =>
    cases xs with
    | nil => exact ⟨91, _, rfl, by unfold Opens; decide⟩
    | cons x xs => exact ⟨91, _, rfl, by unfold Opens; decide⟩
  | @obj n ms hk hm =>
    cases ms with
    | nil => exact ⟨123, _, rfl, by unfold Opens; decide⟩
    | cons m ms => exact ⟨123, _, rfl, by unfold Opens; decide⟩

theorem skip_opens {c : Nat} (h : Opens c) (t : Text) : skip (c :: t) = c :: t := by
  rw [skip, List.dropWhile_cons, h.1, if_neg Bool.false_ne_true]

/-- Nothing is skipped before a value. -/
theorem skip_dump {v : Json} (h : Fits l n v) (r : Text) : skip (dump v ++ r) = dump v ++ r := by
  obtain ⟨c, t, hv, hc⟩ := dump_opens h
  rw [hv]
  exact skip_opens hc (t ++ r)

theorem value_scalar (h : ∀ c ∈ s.head?, c ≠ 91 ∧ c ≠ 123) : value l n s = scalar l s := by
  cases n with
  | zero =>
    rw [value]
    · exact fun t he => (h 91 (he ▸ rfl)).1 rfl
    · exact fun t he => (h 123 (he ▸ rfl)).2 rfl
  | succ n =>
    rw [value]
    · exact fun t he => (h 91 (he ▸ rfl)).1 rfl
    · exact fun t he => (h 123 (he ▸ rfl)).2 rfl

theorem scalar_intText {z : Int} (h : printable l z) (hr : Stops r) :
    scalar l (intText z ++ r) = .ok (.int z, r) := by
  rw [scalar]
  · rw [word_intText]
    exact number_intText h hr
  · intro s hs
    obtain ⟨d, ds, hd, h | h⟩ := intText_cases z
    · rw [h, List.cons_append, List.cons.injEq] at hs
      rw [hs.1] at hd
      cases hd
    · rw [h] at hs
      cases hs

/-! ## Arrays and objects -/

section loops

variable {read : Text → Except Error (Json × Text)} {fuel : Nat}

theorem dumpElements_stops (xs : List Json) (r : Text) : Stops (dumpElements xs ++ r) := by
  cases xs with
  | nil => exact .cons (by decide)
  | cons x xs => exact .cons (by decide)

theorem dumpMembers_stops (ms : List (Text × Json)) (r : Text) : Stops (dumpMembers ms ++ r) := by
  cases ms with
  | nil => exact .cons (by decide)
  | cons m ms => exact .cons (by decide)

theorem dumpElements_length (xs : List Json) : xs.length ≤ (dumpElements xs).length := by
  induction xs with
  | nil => exact Nat.zero_le _
  | cons x xs ih =>
    simp only [dumpElements, List.length_cons, List.length_append]
    omega

theorem dumpMembers_length (ms : List (Text × Json)) : ms.length ≤ (dumpMembers ms).length := by
  induction ms with
  | nil => exact Nat.zero_le _
  | cons m ms ih =>
    simp only [dumpMembers, List.length_cons, List.length_append]
    omega

/-- A loop with an element left for each unit of fuel reads them all. -/
theorem elements_dump {x : Json} {xs : List Json} (hfuel : xs.length ≤ fuel)
    (hfit : ∀ y ∈ x :: xs, Fits l n y) (hread : ∀ y ∈ x :: xs, Reads read y) (r : Text) :
    elements read fuel (dump x ++ (dumpElements xs ++ r)) = .ok (x :: xs, r) := by
  induction xs generalizing x fuel with
  | nil =>
    unfold elements
    rw [hread x (List.mem_cons_self ..) _ (dumpElements_stops [] r)]
    rfl
  | cons y ys ih =>
    obtain ⟨f, rfl⟩ := Nat.exists_eq_succ_of_ne_zero (Nat.ne_of_gt (Nat.lt_of_lt_of_le
      (Nat.succ_pos _) hfuel))
    have hrest := ih (Nat.le_of_succ_le_succ hfuel) (fun z hz => hfit z (List.mem_cons_of_mem _ hz))
      fun z hz => hread z (List.mem_cons_of_mem _ hz)
    have hy := skip_dump (hfit y (List.mem_cons_of_mem _ (List.mem_cons_self ..)))
      (dumpElements ys ++ r)
    unfold elements
    rw [hread x (List.mem_cons_self ..) _ (dumpElements_stops (y :: ys) r)]
    have hs : skip (dumpElements (y :: ys) ++ r) =
        44 :: 32 :: (dump y ++ (dumpElements ys ++ r)) := by
      rw [dumpElements, List.cons_append, List.cons_append, List.append_assoc]
      rfl
    have hs' : skip (32 :: (dump y ++ (dumpElements ys ++ r))) = dump y ++ (dumpElements ys ++ r) :=
      hy
    simp only [hs, hs', hrest]

theorem key_quote {c : Nat} (k : Text) (hc : Opens c) (t : Text) :
    key (quote k ++ 58 :: 32 :: c :: t) = some (k, c :: t) := by
  rw [quote, List.cons_append, List.append_assoc, key, List.cons_append, List.nil_append,
    string_quote]
  show some (k, skip (c :: t)) = _
  rw [skip_opens hc]

theorem members_dump {k : Text} {x : Json} {ms : List (Text × Json)} (hfuel : ms.length ≤ fuel)
    (hfit : ∀ m ∈ (k, x) :: ms, Fits l n m.2) (hread : ∀ m ∈ (k, x) :: ms, Reads read m.2)
    (r : Text) :
    members read fuel (quote k ++ 58 :: 32 :: (dump x ++ (dumpMembers ms ++ r))) =
      .ok ((k, x) :: ms, r) := by
  have hkey : ∀ (k : Text) (x : Json) (t : Text), Fits l n x →
      key (quote k ++ 58 :: 32 :: (dump x ++ t)) = some (k, dump x ++ t) := by
    intro k x t hx
    obtain ⟨c, u, hv, hc⟩ := dump_opens hx
    rw [hv]
    exact key_quote k hc (u ++ t)
  induction ms generalizing k x fuel with
  | nil =>
    unfold members
    simp only [hkey k x _ (hfit (k, x) (List.mem_cons_self ..)),
      hread (k, x) (List.mem_cons_self ..) _ (dumpMembers_stops [] r)]
    rfl
  | cons m ms ih =>
    obtain ⟨k', y⟩ := m
    obtain ⟨f, rfl⟩ := Nat.exists_eq_succ_of_ne_zero (Nat.ne_of_gt (Nat.lt_of_lt_of_le
      (Nat.succ_pos _) hfuel))
    have hrest := ih (Nat.le_of_succ_le_succ hfuel) (fun z hz => hfit z (List.mem_cons_of_mem _ hz))
      fun z hz => hread z (List.mem_cons_of_mem _ hz)
    unfold members
    simp only [hkey k x _ (hfit (k, x) (List.mem_cons_self ..)),
      hread (k, x) (List.mem_cons_self ..) _ (dumpMembers_stops ((k', y) :: ms) r)]
    have hs : skip (dumpMembers ((k', y) :: ms) ++ r) =
        44 :: 32 :: (quote k' ++ 58 :: 32 :: (dump y ++ (dumpMembers ms ++ r))) := by
      simp only [dumpMembers, List.cons_append, List.append_assoc]
      rfl
    have hs' : skip (32 :: (quote k' ++ 58 :: 32 :: (dump y ++ (dumpMembers ms ++ r)))) =
        quote k' ++ 58 :: 32 :: (dump y ++ (dumpMembers ms ++ r)) := rfl
    simp only [hs, hs', hrest]

end loops

/-- Keys that are not repeated stay where they are. -/
theorem foldl_setMember {d ms : List (Text × Json)} (h : ((d ++ ms).map Prod.fst).Nodup) :
    ms.foldl (fun d m => setMember d m.1 m.2) d = d ++ ms := by
  induction ms generalizing d with
  | nil => rw [List.append_nil]; rfl
  | cons m ms ih =>
    have hm : setMember d m.1 m.2 = d ++ [m] := by
      have hnew : d.any (·.1 == m.1) = false := by
        rw [List.any_eq_false]
        intro e he hem
        rw [List.map_append, List.nodup_append] at h
        exact h.2.2 e.1 (List.mem_map_of_mem he) m.1 (List.mem_cons_self ..) (by simpa using hem)
      rw [setMember, hnew, if_neg Bool.false_ne_true]
    rw [List.foldl_cons, hm, ih (by rwa [List.append_assoc]), List.append_assoc]
    rfl

theorem dict_nodup {ms : List (Text × Json)} (h : (ms.map Prod.fst).Nodup) : dict ms = .obj ms :=
  congrArg Json.obj (foldl_setMember (d := []) h)

theorem array_opens {read : Text → Except Error (Json × Text)} {c : Nat} {t : Text} {xs : List Json}
    (hc : Opens c) (h : elements read (c :: t).length (c :: t) = .ok (xs, r)) :
    array read (c :: t) = .ok (.arr xs, r) := by
  rw [array, skip_opens hc]
  split
  · rename_i he
    cases he
    exact absurd rfl hc.2.1
  · rw [h]

theorem object_opens {read : Text → Except Error (Json × Text)} {c : Nat} {t : Text}
    {ms : List (Text × Json)} (hc : Opens c)
    (h : members read (c :: t).length (c :: t) = .ok (ms, r)) :
    object read (c :: t) = .ok (dict ms, r) := by
  rw [object, skip_opens hc]
  split
  · rename_i he
    cases he
    exact absurd rfl hc.2.2.1
  · rw [h]

theorem value_dump {v : Json} (h : Fits l n v) : Reads (value l n) v := by
  induction h with
  | null => exact fun r _ => value_scalar fun c hc => by cases hc; decide
  | bool b =>
    intro r _
    cases b with
    | true => exact value_scalar fun c hc => by cases hc; decide
    | false => exact value_scalar fun c hc => by cases hc; decide
  | @int n z hz =>
    intro r hr
    rw [dump, value_scalar, scalar_intText hz hr]
    intro c hc
    obtain ⟨d, ds, hd, h | h⟩ := intText_cases z
    · rw [h] at hc
      cases hc
      refine ⟨fun he => ?_, fun he => ?_⟩
      · rw [he] at hd
        cases hd
      · rw [he] at hd
        cases hd
    · rw [h] at hc
      cases hc
      decide
  | str s =>
    intro r _
    rw [value_scalar fun c hc => by cases hc; decide, dump, quote, List.cons_append,
      List.append_assoc, List.singleton_append, scalar, string_quote]
  | @arr n xs hx ih =>
    intro r _
    cases xs with
    | nil => rfl
    | cons x xs =>
      obtain ⟨c, t, hv, hc⟩ := dump_opens (hx x (List.mem_cons_self ..))
      have hlen : xs.length ≤ (dump x ++ (dumpElements xs ++ r)).length := by
        have := dumpElements_length xs
        simp only [List.length_append]
        omega
      have hloop := elements_dump hlen hx ih r
      show array (value l n) (dump x ++ dumpElements xs ++ r) = _
      rw [List.append_assoc]
      rw [hv, List.cons_append] at hloop ⊢
      exact array_opens hc hloop
  | @obj n ms hk hm ih =>
    intro r _
    cases ms with
    | nil => rfl
    | cons m ms =>
      obtain ⟨k, x⟩ := m
      have hlen : ms.length ≤ (quote k ++ 58 :: 32 :: (dump x ++ (dumpMembers ms ++ r))).length := by
        have := dumpMembers_length ms
        simp only [List.length_append, List.length_cons]
        omega
      have hloop := members_dump hlen hm ih r
      show object (value l n) (quote k ++ 58 :: 32 :: (dump x ++ dumpMembers ms) ++ r) = _
      rw [List.append_assoc, List.cons_append, List.cons_append, List.append_assoc]
      rw [quote, List.cons_append] at hloop ⊢
      rw [object_opens (by unfold Opens; decide) hloop, dict_nodup hk]

/-- A text that fits is read back. -/
theorem loads_dump {v : Json} (h : Fits l l.nesting v) : loads l (dump v) = .ok v := by
  have hv := value_dump h [] .nil
  rw [List.append_nil] at hv
  have hskip := skip_dump h []
  rw [List.append_nil] at hskip
  rw [loads]
  · rw [hskip, hv]
    rfl
  · intro t ht
    obtain ⟨c, u, hv, hc⟩ := dump_opens h
    rw [hv] at ht
    cases ht
    exact hc.2.2.2 rfl

/-! ## What a text is made of -/

section chars

variable {P : Nat → Prop}

theorem digitsOf_forall (hP : ∀ c, 32 ≤ c → c < 128 → P c) (n : Nat) : ∀ c ∈ digitsOf n, P c := by
  intro c hc
  have hd := digitsOf_isDigit hc
  simp only [isDigit, Bool.and_eq_true, decide_eq_true_eq] at hd
  exact hP c (by omega) (by omega)

theorem intText_forall (hP : ∀ c, 32 ≤ c → c < 128 → P c) (z : Int) : ∀ c ∈ intText z, P c := by
  cases z with
  | ofNat n => exact digitsOf_forall hP n
  | negSucc n =>
    intro c hc
    rcases List.mem_cons.mp hc with rfl | hc
    · exact hP 45 (by decide) (by decide)
    · exact digitsOf_forall hP (n + 1) c hc

/-- An ASCII character is written in printable ones. -/
theorem escapeChar_ascii : ∀ c < 128, ∀ d ∈ escapeChar c, 32 ≤ d ∧ d < 128 := by decide

theorem escapeChar_forall (hP : ∀ c, 32 ≤ c → c < 128 → P c) (c : Nat) :
    (∀ d ∈ escapeChar c, P d) ↔ (128 ≤ c → P c) := by
  by_cases h : 128 ≤ c
  · have he : escapeChar c = [c] := by
      unfold escapeChar
      simp only [show c ≠ 34 by omega, show c ≠ 92 by omega, show c ≠ 10 by omega,
        show c ≠ 13 by omega, show c ≠ 9 by omega, show c ≠ 12 by omega, show c ≠ 8 by omega,
        show ¬c < 32 by omega, if_false]
    rw [he, List.forall_mem_singleton]
    exact ⟨fun hc _ => hc, fun hc => hc h⟩
  · refine ⟨fun _ hc => absurd hc h, fun _ d hd => ?_⟩
    obtain ⟨h32, h128⟩ := escapeChar_ascii c (by omega) d hd
    exact hP d h32 h128

theorem quote_forall (hP : ∀ c, 32 ≤ c → c < 128 → P c) (s : Text) :
    (∀ c ∈ quote s, P c) ↔ ∀ c ∈ s, 128 ≤ c → P c := by
  have h34 := hP 34 (by decide) (by decide)
  simp only [quote, List.forall_mem_cons, List.forall_mem_append, List.forall_mem_flatMap,
    escapeChar_forall hP, h34, true_and]
  exact and_iff_left nofun

mutual

/-- The strings in a value, keys included. -/
def strings : Json → List Text
  | .str s => [s]
  | .arr xs => elementStrings xs
  | .obj ms => memberStrings ms
  | _ => []

def elementStrings : List Json → List Text
  | [] => []
  | x :: xs => strings x ++ elementStrings xs

def memberStrings : List (Text × Json) → List Text
  | [] => []
  | (k, x) :: ms => k :: (strings x ++ memberStrings ms)

end

/-- The text of a value is printable ASCII, but for what its strings hold beyond that. -/
theorem dump_forall (hP : ∀ c, 32 ≤ c → c < 128 → P c) {v : Json} (h : Fits l n v) :
    (∀ c ∈ dump v, P c) ↔ ∀ s ∈ strings v, ∀ c ∈ s, 128 ≤ c → P c := by
  have hascii : ∀ t : Text, (∀ c ∈ t, 32 ≤ c ∧ c < 128) → ∀ c ∈ t, P c := fun t ht c hc =>
    hP c (ht c hc).1 (ht c hc).2
  have h58 := hP 58 (by decide) (by decide)
  have h32 := hP 32 (by decide) (by decide)
  have h44 := hP 44 (by decide) (by decide)
  induction h with
  | null => exact iff_of_true (hascii _ (by decide)) nofun
  | bool b =>
    cases b with
    | true => exact iff_of_true (hascii _ (by decide)) nofun
    | false => exact iff_of_true (hascii _ (by decide)) nofun
  | @int n z hz => exact iff_of_true (intText_forall hP z) nofun
  | str s =>
    rw [dump, quote_forall hP, strings, List.forall_mem_singleton]
  | @arr n xs hx ih =>
    have helements : ∀ ys ⊆ xs, (∀ c ∈ dumpElements ys, P c) ↔
        ∀ s ∈ elementStrings ys, ∀ c ∈ s, 128 ≤ c → P c := by
      intro ys hys
      induction ys with
      | nil => exact iff_of_true (hascii _ (by decide)) nofun
      | cons y ys ihy =>
        rw [List.cons_subset] at hys
        simp only [dumpElements, elementStrings, List.forall_mem_cons, List.forall_mem_append,
          ih y hys.1, ihy hys.2, h44, h32, true_and]
    cases xs with
    | nil => exact iff_of_true (hascii _ (by decide)) nofun
    | cons x xs =>
      have h91 := hP 91 (by decide) (by decide)
      simp only [dump, strings, elementStrings, List.forall_mem_cons, List.forall_mem_append,
        ih x (List.mem_cons_self ..), helements xs (List.subset_cons_self ..), h91, true_and]
  | @obj n ms hk hm ih =>
    have hmembers : ∀ ns ⊆ ms, (∀ c ∈ dumpMembers ns, P c) ↔
        ∀ s ∈ memberStrings ns, ∀ c ∈ s, 128 ≤ c → P c := by
      intro ns hns
      induction ns with
      | nil => exact iff_of_true (hascii _ (by decide)) nofun
      | cons m ns ihn =>
        obtain ⟨k, x⟩ := m
        rw [List.cons_subset] at hns
        simp only [dumpMembers, memberStrings, List.forall_mem_cons, List.forall_mem_append,
          quote_forall hP, ih (k, x) hns.1, ihn hns.2, h44, h32, h58, true_and]
    cases ms with
    | nil => exact iff_of_true (hascii _ (by decide)) nofun
    | cons m ms =>
      obtain ⟨k, x⟩ := m
      have h123 := hP 123 (by decide) (by decide)
      simp only [dump, strings, memberStrings, List.forall_mem_cons, List.forall_mem_append,
        quote_forall hP, ih (k, x) (List.mem_cons_self ..),
        hmembers ms (List.subset_cons_self ..), h123, h32, h58, true_and]

end chars
end Json
