import Mathlib.Data.List.Basic

/-!
# Pyxxl.Lib.Json

JSON texts as lists of code points, read the way Python's `json.loads` does.

* a string may hold unpaired surrogates; of a repeated key the last value counts.
* a number with a fraction or an exponent is kept as it is written, and so are `NaN`, `Infinity` and
  `-Infinity`.
* `Limits`: how deep arrays and objects may be nested, and how many digits an integer may have. A
  text beyond them is refused with an error of its own, where the reader comes to it.
* `elements_fuel`, `members_fuel`: the length of the text is enough for the loops over it.
-/

abbrev Json.Text := List Nat

inductive Json where
  | null
  | bool (b : Bool)
  | int (z : Int)
  | float (text : Json.Text)
  | str (s : Json.Text)
  | arr (xs : List Json)
  | obj (members : List (Json.Text × Json))

namespace Json

inductive Error where
  /-- The text is no JSON. -/
  | invalid
  | nesting
  | digits
  deriving DecidableEq, Repr

structure Limits where
  nesting : Nat
  digits : Nat

def text (s : String) : Text := s.toList.map Char.toNat

/-! ## Characters -/

def isSpace (c : Nat) : Bool := c == 32 || c == 9 || c == 10 || c == 13

def skip (s : Text) : Text := s.dropWhile isSpace

def isDigit (c : Nat) : Bool := 48 ≤ c && c ≤ 57

def hexDigit (c : Nat) : Option Nat :=
  if 48 ≤ c ∧ c ≤ 57 then some (c - 48)
  else if 97 ≤ c ∧ c ≤ 102 then some (c - 87)
  else if 65 ≤ c ∧ c ≤ 70 then some (c - 55)
  else none

def hex4 (a b c d : Nat) : Option Nat :=
  match hexDigit a, hexDigit b, hexDigit c, hexDigit d with
  | some a, some b, some c, some d => some (((a * 16 + b) * 16 + c) * 16 + d)
  | _, _, _, _ => none

def isHigh (u : Nat) : Bool := 0xD800 ≤ u && u ≤ 0xDBFF

def isLow (u : Nat) : Bool := 0xDC00 ≤ u && u ≤ 0xDFFF

def join (high low : Nat) : Nat := 0x10000 + (high - 0xD800) * 0x400 + (low - 0xDC00)

/-- What follows a backslash, but for `u`. -/
def escape : Nat → Option Nat
  | 34 => some 34
  | 92 => some 92
  | 47 => some 47
  | 98 => some 8
  | 102 => some 12
  | 110 => some 10
  | 114 => some 13
  | 116 => some 9
  | _ => none

/-! ## Strings and numbers -/

/-- A code point of a string; the flag tells whether it is written as `\uXXXX`. -/
abbrev CodeUnit := Bool × Nat

def push (u : CodeUnit) (r : Option (List CodeUnit × Text)) : Option (List CodeUnit × Text) :=
  r.map fun r => (u :: r.1, r.2)

/-- The rest of a string and what follows it, after its opening quotation mark. -/
def units : Text → Option (List CodeUnit × Text)
  | [] => none
  | 34 :: s => some ([], s)
  | 92 :: s =>
    match s with
    | 117 :: a :: b :: c :: d :: s =>
      match hex4 a b c d with
      | some u => push (true, u) (units s)
      | none => none
    | c :: s =>
      match escape c with
      | some e => push (false, e) (units s)
      | none => none
    | [] => none
  | c :: s => if c < 32 then none else push (false, c) (units s)

/-- Two surrogates written one after the other are one code point. -/
def joinPairs : List CodeUnit → Text
  | (true, u) :: (true, v) :: us =>
    if isHigh u && isLow v then join u v :: joinPairs us else u :: joinPairs ((true, v) :: us)
  | (_, u) :: us => u :: joinPairs us
  | [] => []

def string (s : Text) : Option (Text × Text) := (units s).map fun r => (joinPairs r.1, r.2)

/-- `p` stands at the beginning of `s`: the rest. -/
def strip (p s : Text) : Option Text := if p.isPrefixOf s then some (s.drop p.length) else none

def natOf (ds : Text) : Nat := ds.foldl (fun n d => 10 * n + (d - 48)) 0

/-- The digits before the point. -/
def intPart : Text → Option (Text × Text)
  | 48 :: s => some ([48], s)
  | c :: s => if isDigit c then some (c :: s.takeWhile isDigit, s.dropWhile isDigit) else none
  | [] => none

def fracPart : Text → Text × Text
  | 46 :: c :: s =>
    if isDigit c then (46 :: c :: s.takeWhile isDigit, s.dropWhile isDigit) else ([], 46 :: c :: s)
  | s => ([], s)

/-- The sign of an exponent. -/
def signPart : Text → Text × Text
  | 43 :: s => ([43], s)
  | 45 :: s => ([45], s)
  | s => ([], s)

def expPart : Text → Text × Text
  | [] => ([], [])
  | c :: s =>
    let sign := signPart s
    if (c == 69 || c == 101) && !(sign.2.takeWhile isDigit).isEmpty then
      (c :: sign.1 ++ sign.2.takeWhile isDigit, sign.2.dropWhile isDigit)
    else ([], c :: s)

def unsigned (l : Limits) (negative : Bool) (s : Text) : Except Error (Json × Text) :=
  match intPart s with
  | none => .error .invalid
  | some (ds, s₁) =>
    let frac := fracPart s₁
    let exp := expPart frac.2
    if frac.1.isEmpty && exp.1.isEmpty then
      if ds.length ≤ l.digits then
        .ok (.int (if negative then -(natOf ds : Int) else natOf ds), exp.2)
      else .error .digits
    else .ok (.float ((if negative then [45] else []) ++ ds ++ frac.1 ++ exp.1), exp.2)

def number (l : Limits) : Text → Except Error (Json × Text)
  | 45 :: s => unsigned l true s
  | s => unsigned l false s

/-- The words of the language, in the order the scanner tries them. -/
def words : List (Text × Json) :=
  [(text "null", .null), (text "true", .bool true), (text "false", .bool false),
    (text "NaN", .float (text "NaN")), (text "Infinity", .float (text "Infinity")),
    (text "-Infinity", .float (text "-Infinity"))]

def word (s : Text) : Option (Json × Text) :=
  words.findSome? fun w => (strip w.1 s).map fun r => (w.2, r)

/-- A value that is neither an array nor an object. -/
def scalar (l : Limits) : Text → Except Error (Json × Text)
  | 34 :: s =>
    match string s with
    | some (t, r) => .ok (.str t, r)
    | none => .error .invalid
  | s =>
    match word s with
    | some r => .ok r
    | none => number l s

/-! ## Arrays and objects -/

/-- The elements of an array from one of them on, with the closing bracket. -/
def elements (value : Text → Except Error (Json × Text)) :
    Nat → Text → Except Error (List Json × Text)
  | fuel, s =>
    match value s with
    | .error e => .error e
    | .ok (v, r) =>
      match skip r with
      | 93 :: r => .ok ([v], r)
      | 44 :: r =>
        match fuel with
        | 0 => .error .invalid
        | fuel + 1 =>
          match elements value fuel (skip r) with
          | .ok (vs, r) => .ok (v :: vs, r)
          | .error e => .error e
      | _ => .error .invalid

/-- A key with the colon after it. -/
def key : Text → Option (Text × Text)
  | 34 :: s =>
    match string s with
    | some (k, r) =>
      match skip r with
      | 58 :: r => some (k, skip r)
      | _ => none
    | none => none
  | _ => none

/-- The members of an object from one of them on, with the closing brace. -/
def members (value : Text → Except Error (Json × Text)) :
    Nat → Text → Except Error (List (Text × Json) × Text)
  | fuel, s =>
    match key s with
    | none => .error .invalid
    | some (k, s) =>
      match value s with
      | .error e => .error e
      | .ok (v, r) =>
        match skip r with
        | 125 :: r => .ok ([(k, v)], r)
        | 44 :: r =>
          match fuel with
          | 0 => .error .invalid
          | fuel + 1 =>
            match members value fuel (skip r) with
            | .ok (ms, r) => .ok ((k, v) :: ms, r)
            | .error e => .error e
        | _ => .error .invalid

/-- A member goes where its key is, or to the end. -/
def setMember (ms : List (Text × Json)) (k : Text) (v : Json) : List (Text × Json) :=
  if ms.any (·.1 == k) then ms.map fun m => if m.1 == k then (k, v) else m else ms ++ [(k, v)]

def dict (ms : List (Text × Json)) : Json := .obj (ms.foldl (fun d m => setMember d m.1 m.2) [])

def array (value : Text → Except Error (Json × Text)) (s : Text) : Except Error (Json × Text) :=
  match skip s with
  | 93 :: r => .ok (.arr [], r)
  | s =>
    match elements value s.length s with
    | .ok (vs, r) => .ok (.arr vs, r)
    | .error e => .error e

def object (value : Text → Except Error (Json × Text)) (s : Text) : Except Error (Json × Text) :=
  match skip s with
  | 125 :: r => .ok (.obj [], r)
  | s =>
    match members value s.length s with
    | .ok (ms, r) => .ok (dict ms, r)
    | .error e => .error e

/-- A value, where as many levels as the first argument are left. -/
def value (l : Limits) : Nat → Text → Except Error (Json × Text)
  | 0, s =>
    match s with
    | 91 :: _ => .error .nesting
    | 123 :: _ => .error .nesting
    | s => scalar l s
  | n + 1, s =>
    match s with
    | 91 :: s => array (value l n) s
    | 123 :: s => object (value l n) s
    | s => scalar l s

/-- `json.loads`. A text that begins with a byte order mark is refused. -/
def loads (l : Limits) (s : Text) : Except Error Json :=
  match s with
  | 0xFEFF :: _ => .error .invalid
  | s =>
    match value l l.nesting (skip s) with
    | .error e => .error e
    | .ok (v, r) => if skip r = [] then .ok v else .error .invalid

/-- `d[k]` for a dictionary. -/
def get? (ms : List (Text × Json)) (k : Text) : Option Json := (ms.find? (·.1 == k)).map (·.2)

/-! ## What is read is taken off the text -/

/-- The reader takes at least one character off the text. -/
def Takes {α : Type} (read : Text → Except Error (α × Text)) : Prop :=
  ∀ s v r, read s = .ok (v, r) → r.length < s.length

theorem length_dropWhile (p : Nat → Bool) (s : Text) : (s.dropWhile p).length ≤ s.length :=
  (List.dropWhile_suffix p).length_le

theorem skip_length (s : Text) : (skip s).length ≤ s.length := length_dropWhile ..

theorem push_some {u : CodeUnit} {q : Option (List CodeUnit × Text)} {us : List CodeUnit}
    {r : Text} (h : push u q = some (us, r)) : ∃ us', q = some (us', r) := by
  obtain ⟨⟨us', r'⟩, hq, he⟩ := Option.map_eq_some_iff.mp h
  cases he
  exact ⟨us', hq⟩

theorem units_length {n : Nat} {s r : Text} {us : List CodeUnit} (hn : s.length ≤ n)
    (h : units s = some (us, r)) : r.length < s.length := by
  induction n generalizing s us with
  | zero =>
    rw [List.length_eq_zero_iff.mp (Nat.le_zero.mp hn)] at h
    cases h
  | succ n ih =>
    have hrest : ∀ {s' : Text} {u q}, push u q = some (us, r) → q = units s' →
        s'.length < s.length → r.length < s.length := by
      intro s' u q hp hq hlt
      obtain ⟨us', hr⟩ := push_some hp
      exact Nat.lt_trans (ih (by omega) (hq ▸ hr)) hlt
    unfold units at h
    split at h
    · cases h
    · cases h; exact Nat.lt_succ_self _
    · split at h
      · split at h
        · exact hrest h rfl (by simp only [List.length_cons]; omega)
        · cases h
      · split at h
        · exact hrest h rfl (by simp only [List.length_cons]; omega)
        · cases h
      · cases h
    · split at h
      · cases h
      · exact hrest h rfl (Nat.lt_succ_self _)

theorem string_length {s t r : Text} (h : string s = some (t, r)) : r.length < s.length := by
  obtain ⟨⟨us, r'⟩, hu, he⟩ := Option.map_eq_some_iff.mp h
  cases he
  exact units_length (Nat.le_refl _) hu

theorem intPart_length {s ds r : Text} (h : intPart s = some (ds, r)) : r.length < s.length := by
  unfold intPart at h
  split at h
  · cases h; exact Nat.lt_succ_self _
  · split at h
    · cases h; exact Nat.lt_succ_of_le (length_dropWhile ..)
    · cases h
  · cases h

theorem fracPart_length (s : Text) : (fracPart s).2.length ≤ s.length := by
  unfold fracPart
  split
  · split
    · have := length_dropWhile isDigit
      rename_i c s _
      exact Nat.le_trans (this s) (by simp only [List.length_cons]; omega)
    · exact Nat.le_refl _
  · exact Nat.le_refl _

theorem signPart_length (s : Text) : (signPart s).2.length ≤ s.length := by
  unfold signPart
  split
  · exact Nat.le_succ _
  · exact Nat.le_succ _
  · exact Nat.le_refl _

theorem expPart_length (s : Text) : (expPart s).2.length ≤ s.length := by
  unfold expPart
  split
  · exact Nat.le_refl _
  · dsimp only
    split
    · exact Nat.le_succ_of_le (Nat.le_trans (length_dropWhile ..) (signPart_length _))
    · exact Nat.le_refl _

theorem unsigned_takes (l : Limits) (negative : Bool) : Takes (unsigned l negative) := by
  intro s v r h
  unfold unsigned at h
  split at h
  · cases h
  · rename_i ds s₁ hi
    have hrest : (expPart (fracPart s₁).2).2.length < s.length :=
      Nat.lt_of_le_of_lt (Nat.le_trans (expPart_length _) (fracPart_length _)) (intPart_length hi)
    dsimp only at h
    split at h
    · split at h
      · cases h; exact hrest
      · cases h
    · cases h; exact hrest

theorem number_takes (l : Limits) : Takes (number l) := by
  intro s v r h
  unfold number at h
  split at h
  · exact Nat.lt_succ_of_lt (unsigned_takes l true _ _ _ h)
  · exact unsigned_takes l false _ _ _ h

theorem word_length {s r : Text} {v : Json} (h : word s = some (v, r)) : r.length < s.length := by
  obtain ⟨w, hw, he⟩ := List.exists_of_findSome?_eq_some h
  obtain ⟨q, hs, he⟩ := Option.map_eq_some_iff.mp he
  cases he
  unfold strip at hs
  split at hs
  · rename_i hp
    cases hs
    have hle := (List.isPrefixOf_iff_prefix.mp hp).length_le
    have hpos : ∀ w ∈ words, 0 < w.1.length := by decide
    have := hpos w hw
    rw [List.length_drop]
    omega
  · cases hs

theorem scalar_takes (l : Limits) : Takes (scalar l) := by
  intro s v r h
  unfold scalar at h
  split at h
  · split at h
    · rename_i hs
      cases h
      exact Nat.lt_succ_of_lt (string_length hs)
    · cases h
  · split at h
    · rename_i hw
      cases h
      exact word_length hw
    · exact number_takes l _ _ _ h

theorem key_length {s k r : Text} (h : key s = some (k, r)) : r.length < s.length := by
  unfold key at h
  split at h
  · split at h
    · rename_i s k q hs
      split at h
      · rename_i q' hq
        cases h
        have h₁ := string_length hs
        have h₂ := skip_length q
        have h₃ := skip_length q'
        rw [hq, List.length_cons] at h₂
        rw [List.length_cons]
        omega
      · cases h
    · cases h
  · cases h

section loops

variable {value : Text → Except Error (Json × Text)} {fuel : Nat} {s r : Text}

theorem elements_cases {vs : List Json} (h : elements value fuel s = .ok (vs, r)) :
    ∃ v q, value s = .ok (v, q) ∧ (skip q = 93 :: r ∨
      ∃ q' f vs', skip q = 44 :: q' ∧ fuel = f + 1 ∧ elements value f (skip q') = .ok (vs', r)) := by
  unfold elements at h
  split at h
  · cases h
  · rename_i v q hq
    refine ⟨v, q, hq, ?_⟩
    split at h
    · rename_i hs
      cases h
      exact .inl hs
    · rename_i q' hs
      split at h
      · cases h
      · rename_i f
        split at h
        · rename_i vs' _ hr
          cases h
          exact .inr ⟨q', f, vs', hs, rfl, hr⟩
        · cases h
    · cases h

theorem members_cases {ms : List (Text × Json)} (h : members value fuel s = .ok (ms, r)) :
    ∃ k s' v q, key s = some (k, s') ∧ value s' = .ok (v, q) ∧ (skip q = 125 :: r ∨
      ∃ q' f ms', skip q = 44 :: q' ∧ fuel = f + 1 ∧ members value f (skip q') = .ok (ms', r)) := by
  unfold members at h
  split at h
  · cases h
  · rename_i k s' hk
    split at h
    · cases h
    · rename_i v q hq
      refine ⟨k, s', v, q, hk, hq, ?_⟩
      split at h
      · rename_i hs
        cases h
        exact .inl hs
      · rename_i q' hs
        split at h
        · cases h
        · rename_i f
          split at h
          · rename_i ms' _ hr
            cases h
            exact .inr ⟨q', f, ms', hs, rfl, hr⟩
          · cases h
      · cases h

/-- What a loop leaves of the text after a value and a comma. -/
theorem skip_after {q q' : Text} {c n : Nat} (h : skip q = c :: q') (hq : q.length < n) :
    q'.length + 1 < n ∧ (skip q').length + 1 < n := by
  have h₁ := skip_length q
  have h₂ := skip_length q'
  rw [h, List.length_cons] at h₁
  omega

theorem elements_takes (hv : Takes value) (fuel : Nat) : Takes (elements value fuel) := by
  induction fuel with
  | zero =>
    intro s vs r h
    obtain ⟨v, q, hq, hs | ⟨_, f, _, _, hf, _⟩⟩ := elements_cases h
    · have := skip_after hs (hv _ _ _ hq)
      omega
    · cases hf
  | succ fuel ih =>
    intro s vs r h
    obtain ⟨v, q, hq, hs | ⟨q', f, vs', hs, hf, hr⟩⟩ := elements_cases h
    · have := skip_after hs (hv _ _ _ hq)
      omega
    · cases hf
      have h₁ := skip_after hs (hv _ _ _ hq)
      have h₂ := ih _ _ _ hr
      omega

theorem members_takes (hv : Takes value) (fuel : Nat) : Takes (members value fuel) := by
  induction fuel with
  | zero =>
    intro s ms r h
    obtain ⟨k, s', v, q, hk, hq, hs | ⟨_, f, _, _, hf, _⟩⟩ := members_cases h
    · have := skip_after hs (Nat.lt_trans (hv _ _ _ hq) (key_length hk))
      omega
    · cases hf
  | succ fuel ih =>
    intro s ms r h
    obtain ⟨k, s', v, q, hk, hq, hs | ⟨q', f, ms', hs, hf, hr⟩⟩ := members_cases h
    · have := skip_after hs (Nat.lt_trans (hv _ _ _ hq) (key_length hk))
      omega
    · cases hf
      have h₁ := skip_after hs (Nat.lt_trans (hv _ _ _ hq) (key_length hk))
      have h₂ := ih _ _ _ hr
      omega

/-- The loop never runs out of fuel. -/
theorem elements_fuel (hv : Takes value) (h : s.length ≤ fuel) :
    elements value (fuel + 1) s = elements value fuel s := by
  induction fuel generalizing s with
  | zero =>
    have hs := List.length_eq_zero_iff.mp (Nat.le_zero.mp h)
    unfold elements
    cases hq : value s with
    | error e => rfl
    | ok p =>
      have := hv s p.1 p.2 hq
      rw [hs] at this
      cases this
  | succ fuel ih =>
    rw [elements]
    conv => rhs; rw [elements]
    cases hq : value s with
    | error e => rfl
    | ok p =>
      have hlt := hv s p.1 p.2 hq
      dsimp only
      split
      · rfl
      · rename_i q' hs
        rw [ih (by have := skip_after hs hlt; omega)]
      · rfl

theorem members_fuel (hv : Takes value) (h : s.length ≤ fuel) :
    members value (fuel + 1) s = members value fuel s := by
  induction fuel generalizing s with
  | zero =>
    have hs := List.length_eq_zero_iff.mp (Nat.le_zero.mp h)
    subst hs
    rfl
  | succ fuel ih =>
    rw [members]
    conv => rhs; rw [members]
    cases hk : key s with
    | none => rfl
    | some k =>
      have hlen := key_length hk
      dsimp only
      cases hq : value k.2 with
      | error e => rfl
      | ok p =>
        have hlt := hv k.2 p.1 p.2 hq
        dsimp only
        split
        · rfl
        · rename_i q' hs
          rw [ih (by have := skip_after hs hlt; omega)]
        · rfl

end loops

theorem array_takes {value : Text → Except Error (Json × Text)} (hv : Takes value) :
    Takes (array value) := by
  intro s v r h
  unfold array at h
  have hs := skip_length s
  split at h
  · rename_i q hq
    cases h
    rw [hq, List.length_cons] at hs
    exact hs
  · split at h
    · rename_i he
      cases h
      exact Nat.lt_of_lt_of_le (elements_takes hv _ _ _ _ he) hs
    · cases h

theorem object_takes {value : Text → Except Error (Json × Text)} (hv : Takes value) :
    Takes (object value) := by
  intro s v r h
  unfold object at h
  have hs := skip_length s
  split at h
  · rename_i q hq
    cases h
    rw [hq, List.length_cons] at hs
    exact hs
  · split at h
    · rename_i he
      cases h
      exact Nat.lt_of_lt_of_le (members_takes hv _ _ _ _ he) hs
    · cases h

theorem value_takes (l : Limits) (n : Nat) : Takes (value l n) := by
  induction n with
  | zero =>
    intro s v r h
    unfold value at h
    split at h
    · cases h
    · cases h
    · exact scalar_takes l _ _ _ h
  | succ n ih =>
    intro s v r h
    unfold value at h
    split at h
    · exact Nat.lt_succ_of_lt (array_takes ih _ _ _ h)
    · exact Nat.lt_succ_of_lt (object_takes ih _ _ _ h)
    · exact scalar_takes l _ _ _ h

end Json
