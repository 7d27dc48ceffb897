import Pyxxl.Lib.Transition
import Pyxxl.Logger.Backends

/-!
# Pyxxl.Logger.Disk

A reader pages through the log file of a running job: it starts at line 1 and next asks for
`toLineNum + 1`, while lines are appended to the file, also between two `readline` of one request.

* a page without a line has the `toLineNum` of a page of one line, so that the reader then skips
  the next line to come.
* `disk_pages`: as long as nothing is appended once the reader has got ahead of the file, it has
  read a prefix of its lines; where something is, it may lose lines.
-/

namespace Pyxxl

open Lines Transition DiskLog

structure DiskReader where
  file : Option PyStr
  fromLineNum : Int
  /-- The request in progress: the rounds left, and the variables of the loop. -/
  reading : Option (Nat × Scan)
  content : PyStr

namespace DiskReader

variable {tail : Int} {s s' : DiskReader} {e : Event}

def start (file : Option PyStr) : DiskReader :=
  { file := file, fromLineNum := 1, reading := none, content := [] }

/-- The lines that are in the file. -/
def fileLines (s : DiskReader) : List PyStr := readlines (s.file.getD [])

/-- `text` is written at the end of the file, which is created if need be. -/
def append (s : DiskReader) (text : PyStr) : DiskReader :=
  { s with file := some (s.file.getD [] ++ text) }

/-- The response is there. -/
def finish (s : DiskReader) (r : LogResponse) : DiskReader :=
  { s with fromLineNum := r.toLineNum + 1, reading := none, content := s.content ++ r.logContent }

inductive Event where
  | append (text : PyStr)
  /-- The file is opened; where there is none, the notice is the answer. -/
  | request
  | readline

def step (tail : Int) (s : DiskReader) : Event → Option DiskReader
  | .append text =>
    if Whole newline text then some (s.append text) else none
  | .request =>
    match s.reading, s.file with
    | none, none => some { s with fromLineNum := (noFile s.fromLineNum).toLineNum + 1 }
    | none, some _ =>
      some { s with reading := some (rounds tail s.fromLineNum, .start s.fromLineNum) }
    | some _, _ => none
  | .readline =>
    match s.reading with
    | none => none
    | some (0, c) => some (s.finish (c.response s.fromLineNum false))
    | some (k + 1, c) =>
      match s.fileLines[(c.i - 1).toNat]? with
      | none => some (s.finish (c.response s.fromLineNum true))
      | some log => some { s with reading := some (k, c.line s.fromLineNum log) }

/-- What has been read is the first lines of the file. -/
def Faithful (s : DiskReader) : Prop := ∃ k, s.content = (s.fileLines.take k).flatten

/-- Nothing is appended once the reader asks for a line beyond the next one to come. -/
def Paced (s : DiskReader) : Event → Prop
  | .append _ => s.fromLineNum - 1 ≤ s.fileLines.length
  | _ => True

instance (s : DiskReader) : ∀ e, Decidable (Paced s e)
  | .append _ => inferInstanceAs (Decidable (_ ≤ _))
  | .request => inferInstanceAs (Decidable True)
  | .readline => inferInstanceAs (Decidable True)

/-! ## Appending -/

theorem universal_append {t u : PyStr} (h : Whole newline t) :
    universal (t ++ u) = universal t ++ universal u := by
  fun_induction universal t with
  | case1 cs ih => rw [List.cons_append, List.cons_append, universal, ih h.tail.tail]; rfl
  | case2 c cs hne ih =>
    have hcons : ∀ cs', c = 13 → cs ++ u = 10 :: cs' → False := by
      intro cs' hc he
      cases cs with
      | nil => exact absurd (h c rfl) (by rw [hc]; decide)
      | cons d ds =>
        obtain ⟨rfl, -⟩ := List.cons.inj he
        exact hne ds hc rfl
    rw [List.cons_append, universal, ih h.tail]
    · rfl
    · exact hcons
  | case3 => rfl

theorem universal_eq_nil {t : PyStr} (h : universal t = []) : t = [] := by
  fun_induction universal t with
  | case1 cs ih => cases h
  | case2 c cs hne ih => cases h
  | case3 => rfl

theorem whole_universal {t : PyStr} (h : Whole newline t) : Whole newline (universal t) := by
  fun_induction universal t with
  | case1 cs ih => exact (ih h.tail.tail).cons fun _ => rfl
  | case2 c cs hne ih =>
    refine (ih h.tail).cons fun hn => ?_
    rw [universal_eq_nil hn] at h
    rw [show c = newline from h c rfl]
    rfl
  | case3 => exact h

theorem readlines_append {t u : PyStr} (h : Whole newline t) :
    readlines (t ++ u) = readlines t ++ readlines u := by
  rw [readlines, universal_append h, lines_append (whole_universal h)]
  rfl

/-! ## One request -/

/-- Where the loop stands, when `ls` are the lines of the file. -/
structure Scanned (tail fromLineNum : Int) (ls : List PyStr) (k : Nat) (c : Scan) : Prop where
  first : 1 ≤ c.i
  rounds : c.i + k = fromLineNum + tail
  seen : (c.i - 1).toNat ≤ ls.length
  last : c.toLineNum = max fromLineNum (c.i - 1)
  page : c.logs = ((ls.take (c.i - 1).toNat).drop (fromLineNum - 1).toNat).flatten

variable {fromLineNum : Int} {ls : List PyStr} {k : Nat} {c : Scan}

theorem scanned_start (hf : 1 ≤ fromLineNum) (ht : 1 ≤ tail) :
    Scanned tail fromLineNum ls (rounds tail fromLineNum) (.start fromLineNum) where
  first := Int.le_refl 1
  rounds := by
    show (1 : Int) + DiskLog.rounds tail fromLineNum = fromLineNum + tail
    unfold DiskLog.rounds
    omega
  seen := Nat.zero_le _
  last := by
    show fromLineNum = max fromLineNum (1 - 1)
    omega
  page := by simp [Scan.start]

/-- What is appended meanwhile comes after the lines read. -/
theorem Scanned.append (h : Scanned tail fromLineNum ls k c) (new : List PyStr) :
    Scanned tail fromLineNum (ls ++ new) k c where
  first := h.first
  rounds := h.rounds
  seen := by
    rw [List.length_append]
    exact Nat.le_trans h.seen (Nat.le_add_right ..)
  last := h.last
  page := by
    rw [List.take_append_of_le_length h.seen]
    exact h.page

theorem Scanned.line (h : Scanned tail fromLineNum ls (k + 1) c) {log : PyStr}
    (hlog : ls[(c.i - 1).toNat]? = some log) :
    Scanned tail fromLineNum ls k (c.line fromLineNum log) := by
  obtain ⟨hlt, hget⟩ := List.getElem?_eq_some_iff.mp hlog
  have hfirst := h.first
  have hrounds := h.rounds
  have hnext : (c.i + 1 - 1).toNat = (c.i - 1).toNat + 1 := by omega
  have hlen : (ls.take (c.i - 1).toNat).length = (c.i - 1).toNat := List.length_take_of_le h.seen
  refine ⟨?_, ?_, ?_, Scan.line_toLineNum h.last log, ?_⟩
  · rw [Scan.line_i]
    omega
  · rw [Scan.line_i]
    omega
  · rw [Scan.line_i, hnext]
    exact hlt
  · rw [Scan.line_i, hnext, List.take_succ_eq_append_getElem hlt, hget]
    have hpage := h.page
    unfold Scan.line
    split
    · rw [List.drop_append_of_le_length (by omega), List.flatten_append, ← hpage,
        List.flatten_singleton]
    · rw [List.drop_eq_nil_of_le (by omega)] at hpage
      rw [List.drop_eq_nil_of_le (by rw [List.length_append, hlen, List.length_singleton]; omega)]
      exact hpage

/-- The lines before the page and the page itself are the lines up to `toLineNum`. -/
theorem Scanned.pages (h : Scanned tail fromLineNum ls k c) (hf : 1 ≤ fromLineNum)
    (hend : fromLineNum ≤ c.i - 1 ∨ ls.length = (c.i - 1).toNat) :
    (ls.take (fromLineNum - 1).toNat).flatten ++ c.logs = (ls.take c.toLineNum.toNat).flatten := by
  rw [h.page, h.last, ← List.flatten_append]
  by_cases hi : fromLineNum ≤ c.i - 1
  · have hle : (fromLineNum - 1).toNat ≤ (c.i - 1).toNat := by omega
    have htake : ls.take (fromLineNum - 1).toNat =
        (ls.take (c.i - 1).toNat).take (fromLineNum - 1).toNat := by
      rw [List.take_take, Nat.min_eq_left hle]
    rw [htake, List.take_append_drop]
    congr 2
    omega
  · have hlen := hend.resolve_left hi
    have hfrom : ls.length ≤ (fromLineNum - 1).toNat := by omega
    have hto : ls.length ≤ (max fromLineNum (c.i - 1)).toNat := by omega
    rw [List.take_of_length_le hfrom, List.take_of_length_le hto, List.drop_eq_nil_of_le,
      List.append_nil]
    exact Nat.le_trans (List.length_take_le' _ _) hfrom

/-! ## A run -/

/-- The reader has read the lines before `fromLineNum`. -/
structure Tracked (tail : Int) (s : DiskReader) : Prop where
  positive : 1 ≤ s.fromLineNum
  whole : Whole newline (s.file.getD [])
  content : s.content = (s.fileLines.take (s.fromLineNum - 1).toNat).flatten
  reading : ∀ k c, s.reading = some (k, c) → Scanned tail s.fromLineNum s.fileLines k c

theorem tracked_start {file : Option PyStr} (h : Whole newline (file.getD [])) :
    Tracked tail (start file) where
  positive := Int.le_refl 1
  whole := h
  content := rfl
  reading _ _ h := by cases h

theorem Tracked.finish (h : Tracked tail s) (hr : s.reading = some (k, c)) (isEnd : Bool)
    (hend : s.fromLineNum ≤ c.i - 1 ∨ s.fileLines.length = (c.i - 1).toNat) :
    Tracked tail (s.finish (c.response s.fromLineNum isEnd)) where
  positive := by
    have hlast := (h.reading k c hr).last
    have hpos := h.positive
    show 1 ≤ c.toLineNum + 1
    omega
  whole := h.whole
  content := by
    show s.content ++ c.logs = (s.fileLines.take (c.toLineNum + 1 - 1).toNat).flatten
    rw [h.content, (h.reading k c hr).pages h.positive hend, Int.add_sub_cancel]
  reading _ _ h := by cases h

theorem fileLines_append (h : Whole newline (s.file.getD [])) (text : PyStr) :
    (s.append text).fileLines = s.fileLines ++ readlines text :=
  readlines_append h

theorem Tracked.append (h : Tracked tail s) {text : PyStr} (ht : Whole newline text)
    (hp : s.fromLineNum - 1 ≤ s.fileLines.length) :
    Tracked tail (s.append text) where
  positive := h.positive
  whole := h.whole.append ht
  content := by
    rw [fileLines_append h.whole]
    show s.content = ((s.fileLines ++ readlines text).take (s.fromLineNum - 1).toNat).flatten
    rw [List.take_append_of_le_length (by omega)]
    exact h.content
  reading k c hr := by
    rw [fileLines_append h.whole]
    exact (h.reading k c hr).append _

theorem Tracked.step (h : Tracked tail s) (ht : 1 ≤ tail) (hp : Paced s e)
    (hs : step tail s e = some s') : Tracked tail s' := by
  cases e with
  | append text =>
    simp only [DiskReader.step] at hs
    split at hs
    · rename_i hw
      cases hs
      exact h.append hw hp
    · cases hs
  | request =>
    simp only [DiskReader.step] at hs
    split at hs
    · rename_i hr hf
      cases hs
      have hnone : s.fileLines = [] := by rw [fileLines, hf]; rfl
      refine ⟨?_, h.whole, ?_, fun k c hc => ?_⟩
      · have := h.positive
        show 1 ≤ s.fromLineNum + 1
        omega
      · show s.content = (s.fileLines.take _).flatten
        rw [h.content, hnone, List.take_nil, List.take_nil]
      · rw [show s.reading = some (k, c) from hc] at hr
        cases hr
    · cases hs
      refine ⟨h.positive, h.whole, h.content, fun k c hc => ?_⟩
      cases hc
      exact scanned_start h.positive ht
    · cases hs
  | readline =>
    simp only [DiskReader.step] at hs
    split at hs
    · cases hs
    · rename_i c hr
      cases hs
      refine h.finish hr false (.inl ?_)
      have := (h.reading 0 c hr).rounds
      omega
    · rename_i k c hr
      have hc := h.reading (k + 1) c hr
      split at hs
      · rename_i hlog
        cases hs
        refine h.finish hr true (.inr ?_)
        have := List.getElem?_eq_none_iff.mp hlog
        have := hc.seen
        omega
      · rename_i log hlog
        cases hs
        refine ⟨h.positive, h.whole, h.content, fun k' c' hc' => ?_⟩
        cases hc'
        exact hc.line hlog

/-! ## Undisturbed requests -/

/-- The steps of a request, while nothing is appended, come to the answer of `get_logs`. -/
theorem reads_scan (tail : Int) (hr : s.reading = some (k, c)) (hi : 1 ≤ c.i) :
    Steps (step tail) (fun _ e => e = .readline) s
      (s.finish (scan s.fromLineNum k (s.fileLines.drop (c.i - 1).toNat) c)) := by
  induction k generalizing s c with
  | zero => exact .single rfl (by simp [step, hr, scan])
  | succ k ih =>
    cases hd : s.fileLines[(c.i - 1).toNat]? with
    | none =>
      have hnil : s.fileLines.drop (c.i - 1).toNat = [] :=
        List.drop_eq_nil_of_le (List.getElem?_eq_none_iff.mp hd)
      refine .single rfl (e := .readline) ?_
      simp only [step, hr, hd, hnil, scan]
    | some log =>
      obtain ⟨hlt, hget⟩ := List.getElem?_eq_some_iff.mp hd
      have hcons : s.fileLines.drop (c.i - 1).toNat =
          log :: s.fileLines.drop (c.i + 1 - 1).toNat := by
        rw [List.drop_eq_getElem_cons hlt, hget,
          show (c.i + 1 - 1).toNat = (c.i - 1).toNat + 1 by omega]
      have hone : step tail s .readline =
          some { s with reading := some (k, c.line s.fromLineNum log) } := by
        simp only [step, hr, hd]
      have hrest := ih (s := { s with reading := some (k, c.line s.fromLineNum log) }) rfl
        (by rw [Scan.line_i]; omega)
      rw [hcons, scan]
      rw [Scan.line_i] at hrest
      have hfirst : Steps (step tail) (fun _ e => e = .readline) s
          { s with reading := some (k, c.line s.fromLineNum log) } := .single rfl hone
      exact hfirst.trans hrest

/-- A request while nothing is appended. -/
theorem request_getLogs {text : PyStr} (hr : s.reading = none) (hf : s.file = some text) :
    Steps (step tail) (fun _ e => e = .request ∨ e = .readline) s
      (s.finish (getLogs tail s.fromLineNum (some text))) := by
  have hopen : step tail s .request =
      some { s with reading := some (rounds tail s.fromLineNum, .start s.fromLineNum) } := by
    simp only [step, hr, hf]
  have hlines : s.fileLines = readlines text := by rw [fileLines, hf]; rfl
  have hscan := reads_scan tail
    (s := { s with reading := some (rounds tail s.fromLineNum, .start s.fromLineNum) }) rfl
    (show (1 : Int) ≤ 1 from Int.le_refl 1)
  have hfirst : Steps (step tail) (fun _ e => e = .request ∨ e = .readline) s
      { s with reading := some (rounds tail s.fromLineNum, .start s.fromLineNum) } :=
    .single (.inl rfl) hopen
  have hlast := hfirst.trans (hscan.mono fun _ _ he => .inr he)
  rw [getLogs, ← hlines]
  exact hlast

/-! ## A reader ahead of the file -/

/-- Lines of which the reader reads only the last one. -/
def filler (m : Nat) : List PyStr := List.replicate m [97, newline] ++ [[newline]]

theorem readlines_filler (m : Nat) : readlines (filler m).flatten = filler m := by
  refine readlines_flatten fun r hr => ?_
  rcases List.mem_append.mp hr with hr | hr
  · rw [List.eq_of_mem_replicate hr]
    exact ⟨⟨[97], rfl, by decide⟩, by decide⟩
  · rw [List.mem_singleton.mp hr]
    exact ⟨⟨[], rfl, by decide⟩, by decide⟩

theorem whole_filler (m : Nat) : Whole newline (filler m).flatten := by
  intro c hc
  rw [filler, List.flatten_append, List.flatten_singleton, List.getLast?_concat] at hc
  exact (Option.some.inj hc).symm

theorem not_prefix (ls : List PyStr) {m : Nat} (hm : 0 < m) (k : Nat) :
    ls.flatten ++ [newline] ≠ ((ls ++ filler m).take k).flatten := by
  intro he
  rw [List.take_append, List.flatten_append] at he
  obtain ⟨m, rfl⟩ := Nat.exists_eq_succ_of_ne_zero (Nat.pos_iff_ne_zero.mp hm)
  by_cases hk : k ≤ ls.length
  · have hlen := congrArg List.length he
    rw [Nat.sub_eq_zero_of_le hk, List.take_zero, List.flatten_nil, List.append_nil,
      List.length_append] at hlen
    have hsplit := congrArg (fun l => l.flatten.length) (List.take_append_drop k ls)
    simp only [List.flatten_append, List.length_append] at hsplit
    simp only [List.length_singleton] at hlen
    omega
  · obtain ⟨j, hj⟩ := Nat.exists_eq_succ_of_ne_zero (show k - ls.length ≠ 0 by omega)
    rw [List.take_of_length_le (by omega), hj, filler, List.replicate_succ] at he
    have he := List.append_cancel_left he
    cases he

/-- Where the reader asks for a line beyond the next one to come, what is appended may be lost. -/
theorem overtaken (h : Tracked tail s) (ht : 1 ≤ tail)
    (hp : ¬s.fromLineNum - 1 ≤ s.fileLines.length) :
    ∃ text s', Whole newline text ∧ Steps (step tail) Any (s.append text) s' ∧ ¬Faithful s' := by
  have hpos := h.positive
  obtain ⟨m, hm⟩ : ∃ m : Nat, s.fromLineNum - 1 = s.fileLines.length + m :=
    ⟨(s.fromLineNum - 1 - s.fileLines.length).toNat, by omega⟩
  have hlines : (s.append (filler m).flatten).fileLines = s.fileLines ++ filler m := by
    rw [fileLines_append h.whole, readlines_filler]
  have hlen : (filler m).length = m + 1 := by simp [filler]
  have hcontent : s.content = s.fileLines.flatten := by
    rw [h.content, List.take_of_length_le (by omega)]
  -- a request in progress comes to the last line only, and so does the next one
  have hreads : ∀ k c, Scanned tail s.fromLineNum s.fileLines k c →
      (scan s.fromLineNum k ((s.fileLines ++ filler m).drop (c.i - 1).toNat) c).logContent =
        [newline] := by
    intro k c hc
    have hi := hc.first
    have hk := hc.rounds
    have hseen := hc.seen
    have hlogs : c.logs = [] := by
      rw [hc.page, List.drop_eq_nil_of_le]
      · rfl
      · rw [List.length_take]
        omega
    rw [scan_eq k hc.last]
    show c.logs ++ _ = _
    rw [hlogs, List.nil_append, List.take_of_length_le, List.drop_drop,
      show (c.i - 1).toNat + (s.fromLineNum - c.i).toNat = s.fileLines.length + m by omega,
      List.drop_append, List.drop_eq_nil_of_le (by omega), Nat.add_sub_cancel_left, filler,
      List.drop_append, List.length_replicate, Nat.sub_self,
      List.drop_eq_nil_of_le (by rw [List.length_replicate])]
    · rfl
    · rw [List.length_drop, List.length_append, hlen]
      omega
  have hopen : ∃ k c, Scanned tail s.fromLineNum s.fileLines k c ∧
      Steps (step tail) Any (s.append (filler m).flatten)
        { s.append (filler m).flatten with reading := some (k, c) } := by
    cases hr : s.reading with
    | some x =>
      refine ⟨x.1, x.2, h.reading x.1 x.2 hr, ?_⟩
      rw [← hr]
      exact .refl
    | none =>
      refine ⟨_, _, scanned_start hpos ht, .single (e := .request) trivial ?_⟩
      simp only [step, append, hr]
  obtain ⟨k, c, hc, hsteps⟩ := hopen
  have hscan := reads_scan tail (k := k) (c := c)
    (s := { s.append (filler m).flatten with reading := some (k, c) }) rfl hc.first
  refine ⟨_, _, whole_filler m, hsteps.trans (hscan.mono fun _ _ _ => trivial), fun ⟨n, hn⟩ => ?_⟩
  have hlines' : fileLines { s.append (filler m).flatten with reading := some (k, c) } =
      s.fileLines ++ filler m := hlines
  refine not_prefix s.fileLines (show 0 < m by omega) n ?_
  rw [← hcontent, ← hreads k c hc]
  rw [hlines'] at hn
  exact hn.trans (congrArg (fun ls => (ls.take n).flatten) hlines')

/-- As long as nothing is appended once the reader asks for a line beyond the next one to come, it
has read the first lines of the file, and where something is it may read others. -/
theorem disk_pages {file : Option PyStr} (ht : 1 ≤ tail) (hw : Whole newline (file.getD []))
    (h : Steps (step tail) Paced (start file) s) :
    Faithful s ∧ ((∀ text, Paced s (.append text)) ∨
      ∃ text s', Whole newline text ∧ Steps (step tail) Any (s.append text) s' ∧ ¬Faithful s') := by
  have hs : Tracked tail s :=
    h.invariant (fun _ _ _ hi hp hst => hi.step ht hp hst) (tracked_start hw)
  refine ⟨⟨_, hs.content⟩, ?_⟩
  by_cases hp : s.fromLineNum - 1 ≤ s.fileLines.length
  · exact .inl fun _ => hp
  · exact .inr (overtaken hs ht hp)

/-- Two lines are read in two requests, the second one while the last line comes. -/
def twoPages : List Event :=
  [.append (numbered 1), .request, .readline, .readline, .request, .readline, .append (numbered 2),
    .readline, .readline]

def twoPagesState : DiskReader := (run (step 20) (start none) twoPages).get rfl

theorem disk_pages_two : Faithful twoPagesState := by
  have hsteps : Steps (step 20) Paced (start none) twoPagesState :=
    .of_allowed (show Allowed (step 20) Paced (start none) twoPages by decide)
      (Option.some_get (x := run _ _ _) rfl).symm
  exact (disk_pages (by decide) (by intro c hc; cases hc) hsteps).1

/-- The second line comes after a page that found none, and is never read. -/
def emptyPage : List Event :=
  [.append (numbered 1), .request, .readline, .readline, .request, .readline, .readline,
    .append (numbered 2 ++ numbered 3), .request, .readline, .readline, .readline, .readline]

theorem disk_line_lost : ∃ s, Steps (step 20) Any (start none) s ∧
    s.content = numbered 1 ++ numbered 3 ∧ s.file = some (numbered 1 ++ numbered 2 ++ numbered 3) ∧
    ¬Faithful s := by
  refine ⟨(run (step 20) (start none) emptyPage).get rfl,
    .of_run (fun _ _ _ => trivial) (Option.some_get (x := run _ _ _) rfl).symm, rfl, rfl, ?_⟩
  rintro ⟨k, hk⟩
  have hk : numbered 1 ++ numbered 3 =
      ([numbered 1, numbered 2, numbered 3].take k).flatten := hk
  match k with
  | 0 => exact absurd hk (by decide)
  | 1 => exact absurd hk (by decide)
  | 2 => exact absurd hk (by decide)
  | k + 3 =>
    rw [List.take_of_length_le (by simp)] at hk
    exact absurd hk (by decide)

end DiskReader
end Pyxxl
