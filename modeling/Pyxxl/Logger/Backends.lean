import Pyxxl.Lib.Lines
import Pyxxl.Model

/-!
# Pyxxl.Logger.Backends

`get_logs` of the two log backends (`pyxxl/logger/disk.py`, `pyxxl/logger/redis.py`), on the file
or the Redis list of the `logId` asked for.

* a log file opened in text mode is read with universal newlines.
* `lrange`, `ltrim` count from the end where an index is negative; the end of a range belongs to it.
* `backends_agree`: the two answer alike on a full page that is not the last one and past the end
  of a log, and nowhere else.
-/

namespace Pyxxl

open Lines

structure LogResponse where
  fromLineNum : Int
  toLineNum : Int
  logContent : PyStr
  isEnd : Bool
  deriving DecidableEq

def noSuchLog : PyStr := py "No such logid logs."

/-! ## The disk -/

namespace DiskLog

def newline : Nat := 10
def carriageReturn : Nat := 13

/-- The text of a file as it is read. -/
def universal : PyStr → PyStr
  | 13 :: 10 :: cs => newline :: universal cs
  | c :: cs => (if c = carriageReturn then newline else c) :: universal cs
  | [] => []

/-- What one `f.readline()` after the other returns, up to the end of the file. -/
def readlines (text : PyStr) : List PyStr := lines newline (universal text)

/-- The variables of the loop of `get_logs`. -/
structure Scan where
  i : Int
  toLineNum : Int
  logs : PyStr
  deriving DecidableEq

def Scan.start (fromLineNum : Int) : Scan := ⟨1, fromLineNum, []⟩

/-- One round of the loop, with a line that is not empty. -/
def Scan.line (fromLineNum : Int) (c : Scan) (log : PyStr) : Scan :=
  if fromLineNum ≤ c.i then ⟨c.i + 1, c.i, c.logs ++ log⟩ else { c with i := c.i + 1 }

def Scan.response (fromLineNum : Int) (c : Scan) (isEnd : Bool) : LogResponse :=
  ⟨fromLineNum, c.toLineNum, c.logs, isEnd⟩

/-- The number of rounds, `len(range(1, fromLineNum + log_tail_lines))`. -/
def rounds (tail fromLineNum : Int) : Nat := (fromLineNum + tail - 1).toNat

/-- The loop, with so many rounds left and these lines not yet read. -/
def scan (fromLineNum : Int) : Nat → List PyStr → Scan → LogResponse
  | 0, _, c => c.response fromLineNum false
  | _ + 1, [], c => c.response fromLineNum true
  | k + 1, log :: rest, c => scan fromLineNum k rest (c.line fromLineNum log)

/-- The answer when there is no file. -/
def noFile (fromLineNum : Int) : LogResponse := ⟨fromLineNum, fromLineNum, noSuchLog, false⟩

def getLogs (tail fromLineNum : Int) : Option PyStr → LogResponse
  | none => noFile fromLineNum
  | some text => scan fromLineNum (rounds tail fromLineNum) (readlines text) (.start fromLineNum)

end DiskLog

/-! ## Redis -/

namespace RedisLog

variable {α : Type}

def fromEnd (xs : List α) (i : Int) : Int := if i < 0 then i + xs.length else i

def lrange (xs : List α) (start stop : Int) : List α :=
  (xs.take (fromEnd xs stop + 1).toNat).drop (fromEnd xs start).toNat

def ltrim (xs : List α) (start stop : Int) : List α := lrange xs start stop

def terminator : PyStr := py "\n"

/-- `RedisHandler.emit` of a record with this text. -/
def emit (maxLines : Int) (xs : List PyStr) (text : PyStr) : List PyStr :=
  ltrim (xs ++ [text ++ terminator]) (-maxLines) (-1)

/-- `get_logs` on the answers of Redis to LLEN and LRANGE; `none` is a `RedisError`. -/
def response (tail fromLineNum : Int) (llen : Option Nat) (slice : Option (List PyStr)) :
    LogResponse :=
  match llen with
  | none => ⟨fromLineNum, fromLineNum, noSuchLog, true⟩
  | some n =>
    if n ≤ fromLineNum - 1 then
      ⟨fromLineNum, fromLineNum, if n = 0 then noSuchLog else [], n ≤ fromLineNum - 1 + tail⟩
    else
      ⟨fromLineNum, fromLineNum - 1 + tail, (slice.getD []).flatten, n ≤ fromLineNum - 1 + tail⟩

/-- What `get_logs` asks LRANGE for. -/
def slice (tail fromLineNum : Int) (xs : List PyStr) : List PyStr :=
  lrange xs (fromLineNum - 1) (fromLineNum - 1 + tail - 1)

def getLogs (tail fromLineNum : Int) (xs : List PyStr) : LogResponse :=
  response tail fromLineNum (some xs.length) (some (slice tail fromLineNum xs))

theorem slice_eq {tail fromLineNum : Int} (hf : 1 ≤ fromLineNum) (ht : 1 ≤ tail)
    (xs : List PyStr) :
    slice tail fromLineNum xs = (xs.drop (fromLineNum - 1).toNat).take tail.toNat := by
  have hs : ¬fromLineNum - 1 < 0 := by omega
  have he : ¬fromLineNum - 1 + tail - 1 < 0 := by omega
  rw [slice, lrange, fromEnd, fromEnd, if_neg hs, if_neg he, List.drop_take]
  congr 1
  omega

theorem emit_eq {maxLines : Int} (hm : 1 ≤ maxLines) (xs : List PyStr) (text : PyStr) :
    emit maxLines xs text = (xs ++ [text ++ terminator]).drop (xs.length + 1 - maxLines.toNat) := by
  have hs : -maxLines < 0 := by omega
  rw [emit, ltrim, lrange, fromEnd, fromEnd, if_pos hs, if_pos (by decide), List.take_of_length_le]
  · congr 1
    rw [List.length_append, List.length_singleton]
    omega
  · omega

end RedisLog

/-! ## The two together -/

namespace DiskLog

variable {tail fromLineNum : Int} {ls : List PyStr}

theorem universal_of_not_mem {t : PyStr} (h : carriageReturn ∉ t) : universal t = t := by
  fun_induction universal t with
  | case1 cs ih => exact absurd (List.mem_cons_self ..) h
  | case2 c cs hne ih =>
    have hc : c ≠ carriageReturn := fun he => h (by rw [he]; exact List.mem_cons_self ..)
    rw [if_neg hc, ih fun hm => h (List.mem_cons_of_mem _ hm)]
  | case3 => rfl

/-- `to_line_num` is the last line that was read, if that is in the page. -/
theorem Scan.line_toLineNum {c : Scan} (h : c.toLineNum = max fromLineNum (c.i - 1)) (log : PyStr) :
    (c.line fromLineNum log).toLineNum = max fromLineNum ((c.line fromLineNum log).i - 1) := by
  unfold Scan.line
  split
  · show c.i = max fromLineNum (c.i + 1 - 1)
    omega
  · show c.toLineNum = max fromLineNum (c.i + 1 - 1)
    omega

@[simp] theorem Scan.line_i (c : Scan) (log : PyStr) : (c.line fromLineNum log).i = c.i + 1 := by
  unfold Scan.line
  split <;> rfl

theorem scan_eq (k : Nat) {c : Scan} (h : c.toLineNum = max fromLineNum (c.i - 1)) :
    scan fromLineNum k ls c =
      ⟨fromLineNum, max fromLineNum (c.i + (min k ls.length : Nat) - 1),
        c.logs ++ ((ls.take k).drop (fromLineNum - c.i).toNat).flatten, decide (ls.length < k)⟩ := by
  induction k generalizing ls c with
  | zero => simp [scan, Scan.response, h]
  | succ k ih =>
    cases ls with
    | nil => simp [scan, Scan.response, h]
    | cons log rest =>
      rw [scan, ih (Scan.line_toLineNum h log)]
      have hlogs : (c.line fromLineNum log).logs ++
          ((rest.take k).drop (fromLineNum - (c.i + 1)).toNat).flatten =
          c.logs ++ (((log :: rest).take (k + 1)).drop (fromLineNum - c.i).toNat).flatten := by
        unfold Scan.line
        split
        · have h₁ : (fromLineNum - (c.i + 1)).toNat = 0 := by omega
          have h₂ : (fromLineNum - c.i).toNat = 0 := by omega
          simp [h₁, h₂]
        · have h₁ : (fromLineNum - c.i).toNat = (fromLineNum - (c.i + 1)).toNat + 1 := by omega
          simp [h₁]
      rw [Scan.line_i, hlogs, List.length_cons]
      congr 1
      · have : (min (k + 1) (rest.length + 1) : Nat) = min k rest.length + 1 := by omega
        rw [this]
        push_cast
        congr 1
        omega
      · simp

/-- The page of a file of these lines. -/
theorem getLogs_lines (hf : 1 ≤ fromLineNum) (ht : 1 ≤ tail) (text : PyStr)
    (hl : readlines text = ls) :
    getLogs tail fromLineNum (some text) =
      ⟨fromLineNum, max fromLineNum (min (fromLineNum + tail - 1) ls.length),
        ((ls.drop (fromLineNum - 1).toNat).take tail.toNat).flatten,
        decide (ls.length < fromLineNum + tail - 1)⟩ := by
  have hstart : (Scan.start fromLineNum).toLineNum =
      max fromLineNum ((Scan.start fromLineNum).i - 1) := by
    simp only [Scan.start]
    omega
  have hrounds : rounds tail fromLineNum = (fromLineNum - 1).toNat + tail.toNat := by
    unfold rounds
    omega
  rw [getLogs, scan_eq _ hstart, hl, hrounds]
  simp only [Scan.start, List.nil_append, LogResponse.mk.injEq, true_and]
  refine ⟨?_, ?_, ?_⟩
  · omega
  · rw [List.drop_take]
    congr 2
    omega
  · exact decide_eq_decide.mpr (by omega)

end DiskLog

/-- A line of text, that is without a line break but at its end. -/
def OneLine (r : PyStr) : Prop := IsLine DiskLog.newline r ∧ DiskLog.carriageReturn ∉ r

/-- The log file of these records. -/
def logFile (records : List PyStr) : Option PyStr :=
  if records = [] then none else some records.flatten

theorem readlines_flatten {records : List PyStr} (h : ∀ r ∈ records, OneLine r) :
    DiskLog.readlines records.flatten = records := by
  rw [DiskLog.readlines, DiskLog.universal_of_not_mem, lines_flatten fun r hr => (h r hr).1]
  intro hm
  obtain ⟨r, hr, hc⟩ := List.mem_flatten.mp hm
  exact (h r hr).2 hc

/-- On records of one line each the two backends give the same answer exactly if the page is full
and not the last one, or begins past the end of a log that is there. -/
theorem backends_agree {records : List PyStr} {tail fromLineNum : Int}
    (h : ∀ r ∈ records, OneLine r) (ht : 1 ≤ tail) (hf : 1 ≤ fromLineNum) :
    DiskLog.getLogs tail fromLineNum (logFile records) =
        RedisLog.getLogs tail fromLineNum records ↔
      fromLineNum - 1 + tail < records.length ∨
        0 < records.length ∧ records.length ≤ fromLineNum - 1 := by
  rw [RedisLog.getLogs, RedisLog.response, RedisLog.slice_eq hf ht, logFile]
  split
  · rename_i hn
    subst hn
    simp only [DiskLog.getLogs, DiskLog.noFile, List.length_nil]
    rw [if_pos (by omega)]
    have hend : ((0 : Nat) : Int) ≤ fromLineNum - 1 + tail := by omega
    simp only [LogResponse.mk.injEq, hend, decide_true, Bool.false_eq_true, and_false, false_iff]
    omega
  · rename_i hne
    have hpos : 0 < records.length := List.length_pos_of_ne_nil hne
    rw [DiskLog.getLogs_lines hf ht _ (readlines_flatten h)]
    split
    · rename_i hpast
      have hdrop : records.drop (fromLineNum - 1).toNat = [] :=
        List.drop_eq_nil_of_le (by omega)
      simp only [LogResponse.mk.injEq, true_and, hdrop, if_neg (Nat.pos_iff_ne_zero.mp hpos),
        List.take_nil, List.flatten_nil, decide_eq_decide]
      omega
    · rename_i hpast
      simp only [LogResponse.mk.injEq, true_and, Option.getD_some, decide_eq_decide]
      omega

/-- The line of a number. -/
def numbered (n : Nat) : PyStr := pyInt n ++ [DiskLog.newline]

theorem backends_agree_first : DiskLog.getLogs 2 1 (logFile ((List.range 5).map numbered)) =
    RedisLog.getLogs 2 1 ((List.range 5).map numbered) := by
  have hlines : ∀ r ∈ (List.range 5).map numbered, OneLine r := by
    intro r hr
    have hclean : ∀ n ∈ List.range 5,
        DiskLog.newline ∉ pyInt n ∧ DiskLog.carriageReturn ∉ numbered n := by decide
    obtain ⟨n, hn, rfl⟩ := List.mem_map.mp hr
    exact ⟨⟨pyInt n, rfl, (hclean n hn).1⟩, (hclean n hn).2⟩
  exact (backends_agree hlines (by decide) (by decide)).mpr (.inl (by decide))

/-- A short page, a full last page, and no log at all. -/
theorem backends_differ :
    DiskLog.getLogs 20 1 (logFile [numbered 1]) ≠ RedisLog.getLogs 20 1 [numbered 1] ∧
    DiskLog.getLogs 1 1 (logFile [numbered 1]) ≠ RedisLog.getLogs 1 1 [numbered 1] ∧
    DiskLog.getLogs 20 1 (logFile []) ≠ RedisLog.getLogs 20 1 [] := by
  decide

end Pyxxl
