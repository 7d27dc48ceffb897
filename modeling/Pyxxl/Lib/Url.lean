import Mathlib.Data.List.DropRight

/-!
# Pyxxl.Lib.Url

`urlparse` and `geturl` of `urllib.parse`, on texts as lists of code points, as Python 3.11.10 has
them. `urlunsplit` is not the same in all patch levels: 3.11.2 and 3.12.3 make another text of
`http:////x`.

* `netlocOk`: the checks of the network location (brackets, Unicode normalisation), for which
  `urlparse` raises.
* `mark`: a part behind its delimiter, which is left out together with it.
* `urlparse_geturl`: a result in normal form is read back from its text.
* `geturl_append`: what is put behind the text of a result goes into its last part.
-/

namespace Url

abbrev Text := List Nat

structure ParseResult where
  scheme : Text
  netloc : Text
  path : Text
  params : Text
  query : Text
  fragment : Text
  deriving DecidableEq

def text (s : String) : Text := s.toList.map Char.toNat

def usesNetloc (scheme : Text) : Bool :=
  (["", "ftp", "http", "gopher", "nntp", "telnet", "imap", "wais", "file", "mms", "https", "shttp",
    "snews", "prospero", "rtsp", "rtsps", "rtspu", "rsync", "svn", "svn+ssh", "sftp", "nfs", "git",
    "git+ssh", "ws", "wss"].map text).contains scheme

def usesParams (scheme : Text) : Bool :=
  (["", "ftp", "hdl", "prospero", "http", "imap", "https", "shttp", "rtsp", "rtsps", "rtspu", "sip",
    "sips", "mms", "sftp", "tel"].map text).contains scheme

def isAlpha (c : Nat) : Bool := (65 ≤ c && c ≤ 90) || (97 ≤ c && c ≤ 122)

def isSchemeChar (c : Nat) : Bool :=
  isAlpha c || (48 ≤ c && c ≤ 57) || c == 43 || c == 45 || c == 46

def lowerChar (c : Nat) : Nat := if 65 ≤ c ∧ c ≤ 90 then c + 32 else c

/-- `/`, `?` and `#`, which end the network location. -/
def isDelimiter (c : Nat) : Bool := c == 47 || c == 63 || c == 35

/-- Tabs and ends of lines, which are taken out. -/
def isUnsafe (c : Nat) : Bool := c == 9 || c == 10 || c == 13

/-- The text before the first `c`. -/
def before (c : Nat) (s : Text) : Text := s.takeWhile (· != c)

def behind (c : Nat) (s : Text) : Text := (s.dropWhile (· != c)).tail

def clean (s : Text) : Text := (s.dropWhile fun c => decide (c ≤ 32)).filter fun c => !isUnsafe c

def splitScheme (s : Text) : Text × Text :=
  if 58 ∈ s ∧ (before 58 s).head?.any isAlpha ∧ (before 58 s).all isSchemeChar then
    ((before 58 s).map lowerChar, behind 58 s)
  else ([], s)

def splitNetloc : Text → Text × Text
  | 47 :: 47 :: s => (s.takeWhile fun c => !isDelimiter c, s.dropWhile fun c => !isDelimiter c)
  | s => ([], s)

/-- The parameters of the last segment of a path. -/
def splitParams (s : Text) : Text × Text :=
  let segment := s.rtakeWhile (· != 47)
  (s.rdropWhile (· != 47) ++ before 59 segment, behind 59 segment)

def urlparse (netlocOk : Text → Bool) (url : Text) : Option ParseResult :=
  let (scheme, rest) := splitScheme (clean url)
  let (netloc, rest) := splitNetloc rest
  let fragment := behind 35 rest
  let query := behind 63 (before 35 rest)
  let rest := before 63 (before 35 rest)
  if netlocOk netloc then
    let (path, params) := if usesParams scheme then splitParams rest else (rest, [])
    some ⟨scheme, netloc, path, params, query, fragment⟩
  else none

def mark (c : Nat) (t : Text) : Text := if t = [] then [] else c :: t

namespace ParseResult

def hier (r : ParseResult) : Text := r.path ++ mark 59 r.params

/-- The text starts with a slash where it stands behind a network location. -/
def rooted (t : Text) : Text := if t ≠ [] ∧ t.head? ≠ some 47 then 47 :: t else t

def authority (r : ParseResult) : Text :=
  if r.netloc ≠ [] ∨ (r.scheme ≠ [] ∧ usesNetloc r.scheme) ∨ [47, 47] <+: r.hier then
    47 :: 47 :: (r.netloc ++ rooted r.hier)
  else r.hier

def geturl (r : ParseResult) : Text :=
  (if r.scheme = [] then [] else r.scheme ++ [58]) ++ r.authority ++ mark 63 r.query ++
    mark 35 r.fragment

end ParseResult

variable {c : Nat} {s t : Text} {r : ParseResult} {netlocOk : Text → Bool} {url : Text}

/-! ## The parts of a text -/

theorem takeWhile_stop {p : Nat → Bool} (hs : ∀ c ∈ s, p c = true)
    (ht : ∀ c ∈ t.head?, p c = false) : (s ++ t).takeWhile p = s := by
  rw [List.takeWhile_append_of_pos hs]
  cases t with
  | nil => exact List.append_nil s
  | cons c t =>
    rw [List.takeWhile_cons_of_neg (by rw [ht c rfl]; exact nofun), List.append_nil]

theorem dropWhile_stop {p : Nat → Bool} (hs : ∀ c ∈ s, p c = true)
    (ht : ∀ c ∈ t.head?, p c = false) : (s ++ t).dropWhile p = t := by
  rw [List.dropWhile_append_of_pos hs]
  cases t with
  | nil => rfl
  | cons c t => exact List.dropWhile_cons_of_neg (by rw [ht c rfl]; exact nofun)

theorem bne_of_not_mem (h : c ∉ s) : ∀ d ∈ s, (d != c) = true := fun _ hd =>
  bne_iff_ne.mpr fun he => h (he ▸ hd)

theorem mark_head (c : Nat) (t : Text) : ∀ d ∈ (mark c t).head?, d = c := by
  intro d hd
  unfold mark at hd
  split at hd
  · cases hd
  · cases hd
    rfl

theorem before_mark (h : c ∉ s) (t : Text) : before c (s ++ mark c t) = s :=
  takeWhile_stop (bne_of_not_mem h) fun d hd => by
    rw [mark_head c t d hd, bne_self_eq_false]

theorem behind_mark (h : c ∉ s) (t : Text) : behind c (s ++ mark c t) = t := by
  have hdrop : (s ++ mark c t).dropWhile (· != c) = mark c t :=
    dropWhile_stop (bne_of_not_mem h) fun d hd => by
      rw [mark_head c t d hd, bne_self_eq_false]
  rw [behind, hdrop]
  unfold mark
  split
  · rename_i ht
    exact ht.symm
  · rfl

theorem not_mem_before (c : Nat) (s : Text) : c ∉ before c s := by
  intro h
  have hc := List.mem_takeWhile_imp h
  rw [bne_self_eq_false] at hc
  cases hc

theorem mem_of_mem_before {d : Nat} (h : d ∈ before c s) : d ∈ s :=
  (List.takeWhile_sublist _).subset h

theorem mem_of_mem_behind {d : Nat} (h : d ∈ behind c s) : d ∈ s :=
  (List.dropWhile_sublist _).subset (List.mem_of_mem_tail h)

/-- A scheme as `urlparse` gives it. -/
def IsScheme (s : Text) : Prop :=
  s.head?.any isAlpha = true ∧ ∀ c ∈ s, isSchemeChar c = true ∧ lowerChar c = c

theorem isAlpha_lower (h : isAlpha c = true) : isAlpha (lowerChar c) = true := by
  unfold lowerChar
  split
  · simp only [isAlpha, Bool.or_eq_true, Bool.and_eq_true, decide_eq_true_eq]
    omega
  · exact h

theorem isSchemeChar_lower (h : isSchemeChar c = true) :
    isSchemeChar (lowerChar c) = true ∧ lowerChar (lowerChar c) = lowerChar c := by
  unfold lowerChar
  split
  · rename_i hc
    have hn : ¬(65 ≤ c + 32 ∧ c + 32 ≤ 90) := by omega
    rw [if_neg hn]
    have halpha : isAlpha (c + 32) = true := by
      simp only [isAlpha, Bool.or_eq_true, Bool.and_eq_true, decide_eq_true_eq]
      omega
    exact ⟨by simp only [isSchemeChar, halpha, Bool.true_or], rfl⟩
  · exact ⟨h, rfl⟩

theorem splitScheme_append (hs : IsScheme s) (t : Text) : splitScheme (s ++ 58 :: t) = (s, t) := by
  have hcolon : 58 ∉ s := fun h => by
    have := (hs.2 58 h).1
    cases this
  have hbefore : before 58 (s ++ 58 :: t) = s := takeWhile_stop (bne_of_not_mem hcolon)
    fun d hd => by cases hd; rfl
  have hdrop : (s ++ 58 :: t).dropWhile (· != 58) = 58 :: t := dropWhile_stop
    (bne_of_not_mem hcolon) fun d hd => by cases hd; rfl
  have hall : s.all isSchemeChar = true := List.all_eq_true.mpr fun c hc => (hs.2 c hc).1
  have hlower : s.map lowerChar = s :=
    (List.map_congr_left fun c hc => (hs.2 c hc).2).trans (List.map_id' s)
  rw [splitScheme, hbefore, if_pos ⟨List.mem_append_right _ (List.mem_cons_self ..), hs.1, hall⟩,
    hlower, behind, hdrop]
  rfl

theorem not_isDelimiter : isDelimiter c = false ↔ c ≠ 47 ∧ c ≠ 63 ∧ c ≠ 35 := by
  simp only [isDelimiter, Bool.or_eq_false_iff, beq_eq_false_iff_ne, and_assoc]

theorem splitNetloc_append (hs : ∀ c ∈ s, isDelimiter c = false)
    (ht : ∀ c ∈ t.head?, isDelimiter c = true) :
    splitNetloc (47 :: 47 :: (s ++ t)) = (s, t) := by
  have hs' : ∀ c ∈ s, (!isDelimiter c) = true := fun c hc => by rw [hs c hc]; rfl
  have ht' : ∀ c ∈ t.head?, (!isDelimiter c) = false := fun c hc => by rw [ht c hc]; rfl
  rw [splitNetloc, takeWhile_stop hs' ht', dropWhile_stop hs' ht']

theorem splitNetloc_none (h : ¬[47, 47] <+: s) : splitNetloc s = ([], s) := by
  unfold splitNetloc
  split
  · exact absurd (List.prefix_append [47, 47] _) h
  · rfl

theorem rtakeWhile_append {p : Nat → Bool} (ht : ∀ c ∈ t, p c = true) :
    (s ++ t).rtakeWhile p = s.rtakeWhile p ++ t := by
  have hr : ∀ c ∈ t.reverse, p c = true := fun c hc => ht c (List.mem_reverse.mp hc)
  rw [List.rtakeWhile, List.reverse_append, List.takeWhile_append_of_pos hr, List.reverse_append,
    List.reverse_reverse]
  rfl

theorem rdropWhile_append {p : Nat → Bool} (ht : ∀ c ∈ t, p c = true) :
    (s ++ t).rdropWhile p = s.rdropWhile p := by
  have hr : ∀ c ∈ t.reverse, p c = true := fun c hc => ht c (List.mem_reverse.mp hc)
  rw [List.rdropWhile, List.reverse_append, List.dropWhile_append_of_pos hr]
  rfl

theorem splitParams_mark (hs : 59 ∉ s.rtakeWhile (· != 47)) (ht : 47 ∉ t) :
    splitParams (s ++ mark 59 t) = (s, t) := by
  have hmark : ∀ c ∈ mark 59 t, (c != 47) = true := by
    intro c hc
    unfold mark at hc
    split at hc
    · cases hc
    · rcases List.mem_cons.mp hc with rfl | hc
      · rfl
      · exact bne_of_not_mem ht c hc
  rw [splitParams, rdropWhile_append hmark, rtakeWhile_append hmark, before_mark hs,
    behind_mark hs, List.rdropWhile_append_rtakeWhile]

theorem mem_of_mem_clean (h : c ∈ clean s) : c ∈ s :=
  (List.dropWhile_sublist _).subset (List.mem_filter.mp h).1

theorem clean_of_safe (hh : s.head?.any isAlpha = true) (hs : ∀ c ∈ s, isUnsafe c = false) :
    clean s = s := by
  have hdrop : (s.dropWhile fun c => decide (c ≤ 32)) = s := by
    cases s with
    | nil => rfl
    | cons c s =>
      refine List.dropWhile_cons_of_neg fun hc => ?_
      rw [decide_eq_true_eq] at hc
      rw [List.head?_cons, Option.any_some] at hh
      simp only [isAlpha, Bool.or_eq_true, Bool.and_eq_true, decide_eq_true_eq] at hh
      omega
  rw [clean, hdrop, List.filter_eq_self]
  exact fun c hc => by rw [hs c hc]; rfl

/-! ## Reading the text of a result -/

open ParseResult

structure Normal (r : ParseResult) : Prop where
  scheme : IsScheme r.scheme
  netloc : ∀ c ∈ r.netloc, isDelimiter c = false
  path : ∀ c ∈ r.path, c ≠ 63 ∧ c ≠ 35
  segment : usesParams r.scheme = true → 59 ∉ r.path.rtakeWhile (· != 47)
  params : ∀ c ∈ r.params, isDelimiter c = false
  noParams : usesParams r.scheme = false → r.params = []
  rooted : r.netloc ≠ [] ∨ usesNetloc r.scheme = true → rooted r.hier = r.hier
  query : 35 ∉ r.query
  safe : ∀ c ∈ r.netloc ++ r.path ++ r.params ++ r.query ++ r.fragment, isUnsafe c = false

theorem IsScheme.ne_nil (h : IsScheme s) : s ≠ [] := by
  rintro rfl
  cases h.1

theorem forall_mark {P : Nat → Prop} (hc : P c) (ht : ∀ d ∈ t, P d) : ∀ d ∈ mark c t, P d := by
  intro d hd
  unfold mark at hd
  split at hd
  · cases hd
  · rcases List.mem_cons.mp hd with rfl | hd
    · exact hc
    · exact ht d hd

theorem forall_rooted {P : Nat → Prop} (h : P 47) (hs : ∀ c ∈ s, P c) : ∀ c ∈ rooted s, P c := by
  intro c hc
  unfold rooted at hc
  split at hc
  · rcases List.mem_cons.mp hc with rfl | hc
    · exact h
    · exact hs c hc
  · exact hs c hc

/-- What holds of the parts and of the delimiters holds of the text. -/
theorem forall_geturl {P : Nat → Prop} (hd : ∀ c ∈ [47, 58, 59, 63, 35], P c)
    (hs : ∀ c ∈ r.scheme, P c)
    (hr : ∀ c ∈ r.netloc ++ r.path ++ r.params ++ r.query ++ r.fragment, P c) :
    ∀ c ∈ r.geturl, P c := by
  have hslash : P 47 := hd 47 (by decide)
  simp only [List.forall_mem_append] at hr
  obtain ⟨⟨⟨⟨hnetloc, hpath⟩, hparams⟩, hquery⟩, hfragment⟩ := hr
  have hhier : ∀ c ∈ r.hier, P c :=
    List.forall_mem_append.mpr ⟨hpath, forall_mark (hd 59 (by decide)) hparams⟩
  have hauthority : ∀ c ∈ r.authority, P c := by
    unfold authority
    split
    · rw [List.forall_mem_cons, List.forall_mem_cons, List.forall_mem_append]
      exact ⟨hslash, hslash, hnetloc, forall_rooted hslash hhier⟩
    · exact hhier
  have hscheme : ∀ c ∈ if r.scheme = [] then [] else r.scheme ++ [58], P c := by
    split
    · exact nofun
    · rw [List.forall_mem_append, List.forall_mem_singleton]
      exact ⟨hs, hd 58 (by decide)⟩
  unfold geturl
  simp only [List.forall_mem_append]
  exact ⟨⟨⟨hscheme, hauthority⟩, forall_mark (hd 63 (by decide)) hquery⟩,
    forall_mark (hd 35 (by decide)) hfragment⟩

theorem rooted_head (h : rooted s = s) : ∀ c ∈ s.head?, c = 47 := by
  intro c hc
  by_contra hne
  have hs : s ≠ [] ∧ s.head? ≠ some 47 := by
    refine ⟨fun hnil => ?_, fun h47 => ?_⟩
    · rw [hnil] at hc
      cases hc
    · rw [h47] at hc
      exact hne (Option.some.inj hc).symm
  rw [rooted, if_pos hs] at h
  exact absurd (congrArg List.length h) (by rw [List.length_cons]; omega)

theorem rooted_of_head (h : s = [] ∨ s.head? = some 47) : rooted s = s :=
  if_neg fun hn => h.elim hn.1 hn.2

theorem rooted_of_double (h : [47, 47] <+: s) : rooted s = s := by
  obtain ⟨t, rfl⟩ := h
  rfl

/-- What stands behind the path, or the end of the text. -/
theorem tail_head (q f : Text) : ∀ c ∈ (mark 63 q ++ mark 35 f).head?, c = 63 ∨ c = 35 := by
  intro c hc
  unfold mark at hc
  split at hc
  · split at hc
    · cases hc
    · cases hc
      exact .inr rfl
  · cases hc
    exact .inl rfl

theorem splitNetloc_authority (hr : Normal r) (ht : ∀ c ∈ t.head?, c = 63 ∨ c = 35) :
    splitNetloc (r.authority ++ t) = (r.netloc, r.hier ++ t) := by
  unfold authority
  split
  · rename_i h
    have hroot : rooted r.hier = r.hier := by
      rcases h with h | h | h
      · exact hr.rooted (.inl h)
      · exact hr.rooted (.inr h.2)
      · exact rooted_of_double h
    have hhead : ∀ c ∈ (r.hier ++ t).head?, isDelimiter c = true := by
      intro c hc
      have hfirst := rooted_head hroot
      cases hh : r.hier with
      | nil =>
        rw [hh] at hc
        rcases ht c hc with rfl | rfl
        · rfl
        · rfl
      | cons d u =>
        rw [hh] at hc hfirst
        cases hc
        rw [hfirst c rfl]
        rfl
    rw [hroot, List.cons_append, List.cons_append, List.append_assoc]
    exact splitNetloc_append hr.netloc hhead
  · rename_i h
    rw [not_or, not_or, not_not] at h
    obtain ⟨hnetloc, -, hdouble⟩ := h
    have hrest : ¬[47, 47] <+: r.hier ++ t := by
      intro hp
      -- the second slash would have to come from what stands behind the path
      cases hh : r.hier with
      | nil =>
        rw [hh, List.nil_append] at hp
        obtain ⟨u, rfl⟩ := hp
        rcases ht 47 rfl with h | h
        · cases h
        · cases h
      | cons d u =>
        rw [hh, List.cons_append, List.cons_prefix_cons] at hp
        cases u with
        | nil =>
          obtain ⟨v, rfl⟩ := hp.2
          rcases ht 47 rfl with h | h
          · cases h
          · cases h
        | cons d' u =>
          rw [List.cons_append, List.cons_prefix_cons] at hp
          refine hdouble ?_
          rw [hh, ← hp.1, ← hp.2.1]
          exact ⟨u, rfl⟩
    rw [splitNetloc_none hrest, hnetloc]

theorem geturl_eq (hs : r.scheme ≠ []) : r.geturl =
    r.scheme ++ 58 :: (r.authority ++ (mark 63 r.query ++ mark 35 r.fragment)) := by
  unfold geturl
  rw [if_neg hs]
  simp only [List.append_assoc, List.cons_append, List.nil_append]

theorem head_geturl (hs : IsScheme r.scheme) : r.geturl.head?.any isAlpha = true := by
  rw [geturl_eq hs.ne_nil, List.head?_append_of_ne_nil _ hs.ne_nil]
  exact hs.1

theorem urlparse_geturl (hr : Normal r) (hn : netlocOk r.netloc = true) :
    urlparse netlocOk r.geturl = some r := by
  have hsafe : ∀ c ∈ r.geturl, isUnsafe c = false := by
    refine forall_geturl (by decide) (fun c hc => ?_) hr.safe
    have hchar := (hr.scheme.2 c hc).1
    simp only [isSchemeChar, isAlpha, Bool.or_eq_true, Bool.and_eq_true, decide_eq_true_eq,
      beq_iff_eq] at hchar
    simp only [isUnsafe, Bool.or_eq_false_iff, beq_eq_false_iff_ne]
    omega
  have hdelim : ∀ c ∈ r.params, c ≠ 47 ∧ c ≠ 63 ∧ c ≠ 35 := fun c hc =>
    not_isDelimiter.mp (hr.params c hc)
  have hpath : ∀ c ∈ r.hier, c ≠ 63 ∧ c ≠ 35 :=
    List.forall_mem_append.mpr ⟨hr.path, forall_mark (by decide) fun c hc => (hdelim c hc).2⟩
  have hquery35 : ∀ c ∈ mark 63 r.query, c ≠ 35 :=
    forall_mark (by decide) fun c hc he => hr.query (he ▸ hc)
  have hfrag : 35 ∉ r.hier ++ mark 63 r.query := fun h =>
    List.forall_mem_append.mpr ⟨fun c hc => (hpath c hc).2, hquery35⟩ 35 h rfl
  have hbefore : before 35 (r.hier ++ (mark 63 r.query ++ mark 35 r.fragment)) =
      r.hier ++ mark 63 r.query := by
    rw [← List.append_assoc, before_mark hfrag]
  have hbehind : behind 35 (r.hier ++ (mark 63 r.query ++ mark 35 r.fragment)) = r.fragment := by
    rw [← List.append_assoc, behind_mark hfrag]
  have hquery : 63 ∉ r.hier := fun h => (hpath 63 h).1 rfl
  have hparams : (if usesParams r.scheme then splitParams r.hier else (r.hier, [])) =
      (r.path, r.params) := by
    cases hu : usesParams r.scheme with
    | true =>
      rw [if_pos rfl]
      exact splitParams_mark (hr.segment hu) fun h => (hdelim 47 h).1 rfl
    | false =>
      rw [if_neg nofun, hier, hr.noParams hu]
      exact congrArg (·, []) (List.append_nil _)
  unfold urlparse
  rw [clean_of_safe (head_geturl hr.scheme) hsafe, geturl_eq hr.scheme.ne_nil,
    splitScheme_append hr.scheme]
  dsimp only
  rw [splitNetloc_authority hr (tail_head r.query r.fragment)]
  dsimp only
  rw [hbefore, hbehind, before_mark hquery, behind_mark hquery, if_pos hn, hparams]

/-! ## What `urlparse` gives -/

theorem urlparse_eq (h : urlparse netlocOk url = some r) : ∃ rest tail,
    splitScheme (clean url) = (r.scheme, rest) ∧ splitNetloc rest = (r.netloc, tail) ∧
      netlocOk r.netloc = true ∧ r.fragment = behind 35 tail ∧
      r.query = behind 63 (before 35 tail) ∧
      (r.path, r.params) = if usesParams r.scheme then splitParams (before 63 (before 35 tail))
        else (before 63 (before 35 tail), []) := by
  unfold urlparse at h
  dsimp only at h
  split at h
  · rename_i hn
    cases h
    exact ⟨_, _, rfl, rfl, hn, rfl, rfl, rfl⟩
  · cases h

theorem splitScheme_spec (s : Text) : ((splitScheme s).1 = [] ∨ IsScheme (splitScheme s).1) ∧
    (∀ c ∈ (splitScheme s).1, ∃ d ∈ s, lowerChar d = c) ∧ ∀ c ∈ (splitScheme s).2, c ∈ s := by
  unfold splitScheme
  split
  · rename_i h
    obtain ⟨-, hhead, hall⟩ := h
    refine ⟨.inr ⟨?_, fun c hc => ?_⟩, fun c hc => ?_, fun c hc => mem_of_mem_behind hc⟩
    · rw [List.head?_map]
      cases hb : (before 58 s).head? with
      | none =>
        rw [hb] at hhead
        cases hhead
      | some c =>
        rw [hb] at hhead
        exact isAlpha_lower hhead
    · obtain ⟨d, hd, rfl⟩ := List.mem_map.mp hc
      exact isSchemeChar_lower (List.all_eq_true.mp hall d hd)
    · obtain ⟨d, hd, rfl⟩ := List.mem_map.mp hc
      exact ⟨d, mem_of_mem_before hd, rfl⟩
  · exact ⟨.inl rfl, nofun, fun c hc => hc⟩

theorem splitNetloc_spec (s : Text) : (∀ c ∈ (splitNetloc s).1, isDelimiter c = false ∧ c ∈ s) ∧
    ((splitNetloc s).1 ≠ [] → ∀ c ∈ (splitNetloc s).2.head?, isDelimiter c = true) ∧
    ∀ c ∈ (splitNetloc s).2, c ∈ s := by
  unfold splitNetloc
  split
  · rename_i s
    refine ⟨fun c hc => ⟨?_, ?_⟩, fun _ c hc => ?_, fun c hc => ?_⟩
    · have := List.mem_takeWhile_imp hc
      rwa [Bool.not_eq_true'] at this
    · exact List.mem_cons_of_mem _ (List.mem_cons_of_mem _ ((List.takeWhile_sublist _).subset hc))
    · have hstop := List.head?_dropWhile_not (fun c => !isDelimiter c) s
      rw [hc] at hstop
      have hnot : (!isDelimiter c) = false := hstop
      rwa [Bool.not_eq_false'] at hnot
    · exact List.mem_cons_of_mem _ (List.mem_cons_of_mem _ ((List.dropWhile_sublist _).subset hc))
  · exact ⟨nofun, fun h => absurd rfl h, fun c hc => hc⟩

theorem splitParams_spec (s : Text) : (∀ c ∈ (splitParams s).1, c ∈ s) ∧
    (∀ c ∈ (splitParams s).2, c ≠ 47 ∧ c ∈ s) ∧
    (s.head? = some 47 → (splitParams s).1.head? = some 47) ∧ (s = [] → (splitParams s).1 = []) := by
  refine ⟨fun c hc => ?_, fun c hc => ?_, fun h => ?_, ?_⟩
  · rcases List.mem_append.mp hc with hc | hc
    · exact (List.rdropWhile_prefix _ _).subset hc
    · exact (List.rtakeWhile_suffix _ _).subset (mem_of_mem_before hc)
  · have hseg : c ∈ s.rtakeWhile (· != 47) := mem_of_mem_behind hc
    have hne := List.mem_rtakeWhile_imp hseg
    exact ⟨bne_iff_ne.mp hne, (List.rtakeWhile_suffix _ _).subset hseg⟩
  · have hne : s.rdropWhile (· != 47) ≠ [] := fun hnil => by
      have hall := List.rdropWhile_eq_nil_iff.mp hnil 47 (List.mem_of_head? h)
      cases hall
    obtain ⟨t, ht⟩ := List.rdropWhile_prefix (· != 47) s
    rw [← ht, List.head?_append_of_ne_nil _ hne] at h
    show (s.rdropWhile (· != 47) ++ _).head? = _
    rw [List.head?_append_of_ne_nil _ hne]
    exact h
  · rintro rfl
    rfl

/-- The parts of a text; the path may lack its slash where there is no network location. -/
structure Parsed (netlocOk : Text → Bool) (url : Text) (r : ParseResult) : Prop where
  ok : netlocOk r.netloc = true
  scheme : r.scheme = [] ∨ IsScheme r.scheme
  netloc : ∀ c ∈ r.netloc, isDelimiter c = false
  path : ∀ c ∈ r.path, c ≠ 63 ∧ c ≠ 35
  rooted : r.netloc ≠ [] → r.path = [] ∨ r.path.head? = some 47
  params : ∀ c ∈ r.params, isDelimiter c = false
  noParams : usesParams r.scheme = false → r.params = []
  query : 35 ∉ r.query
  lower : ∀ c ∈ r.scheme, ∃ d ∈ clean url, lowerChar d = c
  mem : ∀ c ∈ r.netloc ++ r.path ++ r.params ++ r.query ++ r.fragment, c ∈ clean url

/-- What is left of the text behind a network location. -/
theorem before_delimiter (h : ∀ c ∈ t.head?, isDelimiter c = true) :
    before 63 (before 35 t) = [] ∨ (before 63 (before 35 t)).head? = some 47 := by
  cases t with
  | nil => exact .inl rfl
  | cons c t =>
    have hc := h c rfl
    rw [isDelimiter, Bool.or_eq_true, Bool.or_eq_true, beq_iff_eq, beq_iff_eq, beq_iff_eq] at hc
    rcases hc with (rfl | rfl) | rfl
    · exact .inr rfl
    · exact .inl rfl
    · exact .inl rfl

theorem urlparse_parsed (h : urlparse netlocOk url = some r) : Parsed netlocOk url r := by
  obtain ⟨rest, tail, hs, hn, hok, hf, hq, hp⟩ := urlparse_eq h
  have hscheme := splitScheme_spec (clean url)
  have hnetloc := splitNetloc_spec rest
  rw [hs] at hscheme
  rw [hn] at hnetloc
  obtain ⟨hsch, hlow, hrest⟩ := hscheme
  obtain ⟨hnet, hhead, htail⟩ := hnetloc
  dsimp only at hsch hlow hrest hnet hhead htail
  have hmid : ∀ c ∈ before 63 (before 35 tail), c ≠ 63 ∧ c ≠ 35 ∧ c ∈ tail := fun c hc =>
    ⟨fun he => not_mem_before 63 _ (he ▸ hc),
      fun he => not_mem_before 35 _ (he ▸ mem_of_mem_before hc),
      mem_of_mem_before (mem_of_mem_before hc)⟩
  have hstart : r.netloc ≠ [] → before 63 (before 35 tail) = [] ∨
      (before 63 (before 35 tail)).head? = some 47 := fun hne => before_delimiter (hhead hne)
  generalize before 63 (before 35 tail) = mid at hmid hp hstart
  -- the path and the parameters
  have hparts : (∀ c ∈ r.path, c ∈ mid) ∧ (∀ c ∈ r.params, c ≠ 47 ∧ c ∈ mid) ∧
      (mid.head? = some 47 → r.path.head? = some 47) ∧ (mid = [] → r.path = []) ∧
      (usesParams r.scheme = false → r.params = []) := by
    cases hu : usesParams r.scheme with
    | true =>
      rw [hu, if_pos rfl] at hp
      have hspec := splitParams_spec mid
      rw [← hp] at hspec
      exact ⟨hspec.1, hspec.2.1, hspec.2.2.1, hspec.2.2.2, nofun⟩
    | false =>
      rw [hu, if_neg nofun] at hp
      obtain ⟨hpath, hparams⟩ := Prod.mk.inj hp
      rw [hpath, hparams]
      exact ⟨fun c hc => hc, nofun, fun h => h, fun h => h, fun _ => rfl⟩
  obtain ⟨hpath, hparams, hslash, hnil, hno⟩ := hparts
  exact {
    ok := hok
    scheme := hsch
    netloc := fun c hc => (hnet c hc).1
    path := fun c hc => ⟨(hmid c (hpath c hc)).1, (hmid c (hpath c hc)).2.1⟩
    rooted := fun hne => (hstart hne).imp hnil hslash
    params := fun c hc => not_isDelimiter.mpr
      ⟨(hparams c hc).1, (hmid c (hparams c hc).2).1, (hmid c (hparams c hc).2).2.1⟩
    noParams := hno
    query := fun hm => not_mem_before 35 tail (mem_of_mem_behind (hq ▸ hm))
    lower := hlow
    mem := by
      have hin : ∀ c ∈ tail, c ∈ clean url := fun c hc => hrest c (htail c hc)
      simp only [List.forall_mem_append]
      refine ⟨⟨⟨⟨?_, ?_⟩, ?_⟩, ?_⟩, ?_⟩
      · exact fun c hc => hrest c (hnet c hc).2
      · exact fun c hc => hin c (hmid c (hpath c hc)).2.2
      · exact fun c hc => hin c (hmid c (hparams c hc).2).2.2
      · exact fun c hc => hin c (mem_of_mem_before (mem_of_mem_behind (hq ▸ hc)))
      · exact fun c hc => hin c (mem_of_mem_behind (hf ▸ hc)) }

/-! ## A text that goes on -/

namespace ParseResult

/-- The last part that there is, or the path, goes on with `e`. -/
def append (r : ParseResult) (e : Text) : ParseResult :=
  if r.fragment ≠ [] then { r with fragment := r.fragment ++ e }
  else if r.query ≠ [] then { r with query := r.query ++ e }
  else if r.params ≠ [] then { r with params := r.params ++ e }
  else { r with path := r.path ++ e }

end ParseResult

theorem append_scheme (r : ParseResult) (e : Text) :
    (r.append e).scheme = r.scheme ∧ (r.append e).netloc = r.netloc := by
  unfold ParseResult.append
  split
  · exact ⟨rfl, rfl⟩
  · split
    · exact ⟨rfl, rfl⟩
    · split
      · exact ⟨rfl, rfl⟩
      · exact ⟨rfl, rfl⟩

/-- The path goes on only if nothing stands behind it. -/
theorem append_path (r : ParseResult) (e : Text) : (r.append e).path =
    if r.params = [] ∧ r.query = [] ∧ r.fragment = [] then r.path ++ e else r.path := by
  unfold ParseResult.append
  by_cases hf : r.fragment = []
  · by_cases hq : r.query = []
    · by_cases hp : r.params = []
      · rw [if_neg (not_not.mpr hf), if_neg (not_not.mpr hq), if_neg (not_not.mpr hp),
          if_pos ⟨hp, hq, hf⟩]
      · rw [if_neg (not_not.mpr hf), if_neg (not_not.mpr hq), if_pos hp, if_neg fun h => hp h.1]
    · rw [if_neg (not_not.mpr hf), if_pos hq, if_neg fun h => hq h.2.1]
  · rw [if_pos hf, if_neg fun h => hf h.2.2]

theorem mark_nil (c : Nat) : mark c [] = [] := rfl

theorem mark_append (hs : s ≠ []) (t : Text) : mark c (s ++ t) = mark c s ++ t := by
  rw [mark, mark, if_neg hs, if_neg (List.append_ne_nil_of_left_ne_nil hs t)]
  rfl

theorem rooted_append (hs : s ≠ []) (t : Text) : rooted (s ++ t) = rooted s ++ t := by
  obtain ⟨c, u, rfl⟩ := List.exists_cons_of_ne_nil hs
  by_cases hc : c = 47
  · subst hc
    rfl
  · have hfix : ∀ v : Text, rooted (c :: v) = 47 :: c :: v := fun v =>
      if_pos ⟨List.cons_ne_nil _ _, fun h => hc (Option.some.inj h)⟩
    rw [List.cons_append, hfix, hfix]
    rfl

theorem rooted_rooted (s : Text) : rooted (rooted s) = rooted s := by
  by_cases h : s ≠ [] ∧ s.head? ≠ some 47
  · rw [show rooted s = 47 :: s from if_pos h]
    rfl
  · have hs : rooted s = s := if_neg h
    rw [hs, hs]

theorem double_append (hs : s ≠ []) (ht : ∀ c ∈ t.head?, c ≠ 47) :
    [47, 47] <+: s ++ t ↔ [47, 47] <+: s := by
  refine ⟨fun h => ?_, fun h => h.trans (List.prefix_append _ _)⟩
  obtain ⟨c, u, rfl⟩ := List.exists_cons_of_ne_nil hs
  rw [List.cons_append, List.cons_prefix_cons] at h
  cases u with
  | nil =>
    obtain ⟨v, rfl⟩ := h.2
    exact absurd rfl (ht 47 rfl)
  | cons d u =>
    rw [List.cons_append, List.cons_prefix_cons] at h
    rw [← h.1, ← h.2.1]
    exact ⟨u, rfl⟩

theorem authority_append {r' : ParseResult} {e : Text} (hs : r'.scheme = r.scheme)
    (hn : r'.netloc = r.netloc) (hh : r'.hier = r.hier ++ e) (hne : r.hier ≠ [])
    (he : ∀ c ∈ e.head?, c ≠ 47) : r'.authority = r.authority ++ e := by
  unfold authority
  rw [hs, hn, hh, rooted_append hne]
  simp only [double_append hne he]
  split
  · rw [List.cons_append, List.cons_append, List.append_assoc]
  · rfl

theorem geturl_append {e : Text} (hp : r.path ≠ []) (he : ∀ c ∈ e.head?, c ≠ 47) :
    (r.append e).geturl = r.geturl ++ e := by
  have hne : r.hier ≠ [] := List.append_ne_nil_of_left_ne_nil hp _
  unfold ParseResult.append
  split
  · rename_i hf
    show _ ++ mark 35 (r.fragment ++ e) = _
    rw [mark_append hf, ← List.append_assoc]
    rfl
  · rename_i hf
    rw [not_not] at hf
    split
    · rename_i hq
      unfold geturl
      dsimp only
      rw [mark_append hq, hf, mark_nil, List.append_nil, List.append_nil, ← List.append_assoc]
      rfl
    · rename_i hq
      rw [not_not] at hq
      have hrest : ∀ r' : ParseResult, r'.scheme = r.scheme → r'.query = [] → r'.fragment = [] →
          r'.authority = r.authority ++ e → r'.geturl = r.geturl ++ e := by
        intro r' hs hq' hf' ha
        unfold geturl
        rw [hs, hq', hf', ha, hq, hf, mark_nil, mark_nil]
        simp only [List.append_nil, List.append_assoc]
      split
      · rename_i hps
        refine hrest _ rfl hq hf (authority_append rfl rfl ?_ hne he)
        rw [hier, hier, mark_append hps, List.append_assoc]
      · rename_i hps
        rw [not_not] at hps
        refine hrest _ rfl hq hf (authority_append rfl rfl ?_ hne he)
        rw [hier, hier, hps, mark_nil, List.append_nil, List.append_nil]

/-- The text has the slash that the path lacks behind a network location. -/
theorem geturl_rooted (hp : r.path ≠ []) (h : r.netloc ≠ [] ∨ usesNetloc r.scheme = true)
    (hs : r.scheme ≠ []) : { r with path := rooted r.path }.geturl = r.geturl := by
  have hhier : ({ r with path := rooted r.path } : ParseResult).hier = rooted r.hier := by
    unfold hier
    exact (rooted_append hp _).symm
  have hcond : ∀ t : Text, r.netloc ≠ [] ∨ (r.scheme ≠ [] ∧ usesNetloc r.scheme = true) ∨
      [47, 47] <+: t := fun t => h.imp_right fun hu => .inl ⟨hs, hu⟩
  unfold geturl authority
  rw [hhier, if_pos (hcond _), if_pos (hcond _), rooted_rooted]

theorem isAlpha_plain (h : isAlpha c = true) :
    isDelimiter c = false ∧ isUnsafe c = false ∧ c ≠ 59 ∧ c ≠ 32 := by
  simp only [isAlpha, Bool.or_eq_true, Bool.and_eq_true, decide_eq_true_eq] at h
  simp only [isDelimiter, isUnsafe, Bool.or_eq_false_iff, beq_eq_false_iff_ne]
  omega

/-- A result whose path ends with a slash stays in normal form when letters go on with it. -/
theorem Normal.append (hr : Normal r) {e : Text} (he : ∀ c ∈ e, isAlpha c = true)
    (hp : r.path.getLast? = some 47) : Normal (r.append e) := by
  obtain ⟨q, hq⟩ := List.getLast?_eq_some_iff.mp hp
  have hne : r.path ≠ [] := by
    rw [hq]
    exact List.append_ne_nil_of_right_ne_nil _ nofun
  have hdelim : ∀ c ∈ e, c ≠ 47 ∧ c ≠ 63 ∧ c ≠ 35 := fun c hc =>
    not_isDelimiter.mp (isAlpha_plain (he c hc)).1
  have hsafe : ∀ c ∈ e, isUnsafe c = false := fun c hc => (isAlpha_plain (he c hc)).2.1
  have hrooted : r.netloc ≠ [] ∨ usesNetloc r.scheme = true →
      ParseResult.rooted (r.hier ++ e) = r.hier ++ e := fun h => by
    have hhier : r.hier ≠ [] := List.append_ne_nil_of_left_ne_nil hne _
    rw [rooted_append hhier, hr.rooted h]
  have hparts := hr.safe
  simp only [List.forall_mem_append] at hparts
  obtain ⟨⟨⟨⟨hnetloc, hpath⟩, hparams⟩, hquery⟩, hfragment⟩ := hparts
  unfold ParseResult.append
  split
  · refine { hr with safe := ?_ }
    simp only [List.forall_mem_append]
    exact ⟨⟨⟨⟨hnetloc, hpath⟩, hparams⟩, hquery⟩, hfragment, hsafe⟩
  · split
    · refine { hr with query := fun h => ?_, safe := ?_ }
      · rcases List.mem_append.mp h with h | h
        · exact hr.query h
        · exact (hdelim 35 h).2.2 rfl
      · simp only [List.forall_mem_append]
        exact ⟨⟨⟨⟨hnetloc, hpath⟩, hparams⟩, hquery, hsafe⟩, hfragment⟩
    · split
      · rename_i hps
        have hhier : r.path ++ mark 59 (r.params ++ e) = r.hier ++ e := by
          rw [hier, mark_append hps, List.append_assoc]
        refine { hr with params := ?_, noParams := fun h => absurd (hr.noParams h) hps,
                         rooted := fun h => ?_, safe := ?_ }
        · exact List.forall_mem_append.mpr ⟨hr.params, fun c hc => (isAlpha_plain (he c hc)).1⟩
        · exact (congrArg ParseResult.rooted hhier).trans ((hrooted h).trans hhier.symm)
        · simp only [List.forall_mem_append]
          exact ⟨⟨⟨⟨hnetloc, hpath⟩, hparams, hsafe⟩, hquery⟩, hfragment⟩
      · rename_i hps
        rw [not_not] at hps
        have hhier : r.path ++ e ++ mark 59 r.params = r.hier ++ e := by
          rw [hier, hps, mark_nil, List.append_nil, List.append_nil]
        refine { hr with path := ?_, segment := fun h => ?_, rooted := fun h => ?_, safe := ?_ }
        · exact List.forall_mem_append.mpr ⟨hr.path, fun c hc => (hdelim c hc).2⟩
        · -- the last segment is what was put there
          have hlast : (r.path ++ e).rtakeWhile (· != 47) = e := by
            rw [rtakeWhile_append fun c hc => bne_iff_ne.mpr (hdelim c hc).1, hq,
              List.rtakeWhile_concat_neg _ _ _ (by decide), List.nil_append]
          rw [hlast]
          exact fun hm => (isAlpha_plain (he 59 hm)).2.2.1 rfl
        · exact (congrArg ParseResult.rooted hhier).trans ((hrooted h).trans hhier.symm)
        · simp only [List.forall_mem_append]
          exact ⟨⟨⟨⟨hnetloc, hpath, hsafe⟩, hparams⟩, hquery⟩, hfragment⟩

theorem getLast_rooted (hs : s ≠ []) : (ParseResult.rooted s).getLast? = s.getLast? := by
  unfold ParseResult.rooted
  split
  · obtain ⟨c, u, rfl⟩ := List.exists_cons_of_ne_nil hs
    exact List.getLast?_cons_cons
  · rfl

/-- The text ends with the path where nothing else is there. -/
theorem getLast_geturl (hp : r.path ≠ []) (hps : r.params = []) (hq : r.query = [])
    (hf : r.fragment = []) : r.geturl.getLast? = r.path.getLast? := by
  have hhier : r.hier = r.path := by
    rw [hier, hps, mark_nil, List.append_nil]
  have hne : ParseResult.rooted r.path ≠ [] := fun h =>
    hp (List.getLast?_eq_none_iff.mp ((getLast_rooted hp).symm.trans (congrArg List.getLast? h)))
  have hauthority : r.authority.getLast? = r.path.getLast? ∧ r.authority ≠ [] := by
    unfold authority
    rw [hhier]
    split
    · refine ⟨?_, List.cons_ne_nil _ _⟩
      rw [← List.cons_append, ← List.cons_append, List.getLast?_append_of_ne_nil _ hne,
        getLast_rooted hp]
    · exact ⟨rfl, hp⟩
  rw [geturl, hq, hf, mark_nil, mark_nil, List.append_nil, List.append_nil,
    List.getLast?_append_of_ne_nil _ hauthority.2, hauthority.1]

end Url
