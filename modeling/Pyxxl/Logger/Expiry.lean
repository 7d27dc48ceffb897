import Mathlib.Logic.Function.Basic
import Pyxxl.Lib.Transition
import Pyxxl.Logger.Sessions

/-!
# Pyxxl.Logger.Expiry

`expired_loop` over the directory of `DiskLog`, while tasks write their files: a round of
`expired_once` reads the clock, lists the directory, looks at each file and then removes those it
has found, and all sorts of things happen in between.

* a file goes by a number, since a handler goes on writing to one that has lost its name. The clock
  is not set back, and no sleep ends before its time.
* `removed`, `taken` and `swept` are records of what happened; no code reads them.
* `Does`: what a step does; `Goes`: what may become of the files in it.
* `lines_retained`: what a round removes had no line that was there, and young enough, when the
  round began.
-/

namespace Pyxxl

open LogFactory Transition

structure LogFile where
  name : PyStr
  ctime : Int
  /-- With the times they were written at. -/
  lines : List (Int × PyStr)

/-- The times of `DiskLog`, and of the `expired_loop` that `PyxxlRunner` starts, in the unit of the
clock. -/
structure Expiry where
  expiredSeconds : Int
  /-- `log_clean_interval`. -/
  interval : Int
  /-- The 0.01 seconds for which `expired_once` gives way. -/
  pause : Int

/-- A call of `expired_once`. -/
structure Sweep where
  start : Int
  /-- What `getctime` has failed for. -/
  skipped : List PyStr

inductive SweepPhase where
  /-- Up to this time; also before the first round. -/
  | sleeping (wake : Int)
  | started (start : Int)
  | scanning (sweep : Sweep) (todo delList : List PyStr)
  /-- `i` is the number of the next element; `paused`: in `sleep(0.01)`, up to this time. -/
  | deleting (sweep : Sweep) (i : Nat) (delList : List PyStr) (paused : Option Int)
  | ended

structure Removal where
  file : Nat
  start : Int

structure ExpiredLoop where
  now : Int
  entries : PyStr → Option Nat
  files : Nat → LogFile
  nextFile : Nat
  /-- The open streams of the handlers. -/
  streams : Nat → Option Nat
  phase : SweepPhase
  removed : List Removal
  /-- What others have removed. -/
  taken : List Nat
  swept : List Sweep

/-- Whether the name matches `LOG_NAME_REGEX`. -/
def logNameRegex (name : PyStr) : Bool :=
  (py "pyxxl-").isPrefixOf name && (py ".log").isSuffixOf (name.drop (py "pyxxl-").length)

theorem logNameRegex_fileName (logId : LogId) : logNameRegex (fileName logId) = true := by
  have hname : fileName logId = py "pyxxl-" ++ (pyInt logId ++ py ".log") := by
    rw [fileName, List.append_assoc]
  rw [hname, logNameRegex, List.drop_left, Bool.and_eq_true, List.isPrefixOf_iff_prefix,
    List.isSuffixOf_iff_suffix]
  exact ⟨List.prefix_append .., List.suffix_append ..⟩

namespace ExpiredLoop

variable {expiredSeconds : Int} {c : Expiry} {s s' : ExpiredLoop}

/-- The default of `expired_once`. -/
def batch : Nat := 1000

inductive Event where
  | tick (seconds : Nat)
  /-- A handler opens its file at its first record. -/
  | opens (handler : Nat) (logId : LogId)
  | writes (handler : Nat) (line : PyStr)
  | closes (handler : Nat)
  /-- Someone else removes the file. -/
  | takes (name : PyStr)
  | wakes
  | lists (names : List PyStr)
  | visits (fails : Bool)
  | scanned
  | pauses
  | unlinks
  | rests
  /-- What `expired_loop` logs and leaves its `while` for. -/
  | raises
  | cancelled

def setPhase (s : ExpiredLoop) (phase : SweepPhase) : ExpiredLoop := { s with phase := phase }

def setStream (s : ExpiredLoop) (handler : Nat) (n : Option Nat) : ExpiredLoop :=
  { s with streams := Function.update s.streams handler n }

def create (s : ExpiredLoop) (name : PyStr) : ExpiredLoop :=
  { s with
    entries := Function.update s.entries name (some s.nextFile)
    files := Function.update s.files s.nextFile ⟨name, s.now, []⟩
    nextFile := s.nextFile + 1 }

/-- `open(name, "a")`. -/
def openStream (s : ExpiredLoop) (handler : Nat) (name : PyStr) : ExpiredLoop :=
  match s.entries name with
  | some n => s.setStream handler (some n)
  | none => (s.create name).setStream handler (some s.nextFile)

def writeLine (s : ExpiredLoop) (n : Nat) (line : PyStr) : ExpiredLoop :=
  { s with
    files := Function.update s.files n
      { s.files n with ctime := s.now, lines := (s.files n).lines ++ [(s.now, line)] } }

/-- One round of the loop of `_scan_expired_files`. A name without a file is one that has been
removed. -/
def visit (expiredSeconds : Int) (s : ExpiredLoop) (sweep : Sweep) (name : PyStr)
    (todo delList : List PyStr) (fails : Bool) : SweepPhase :=
  match s.entries name with
  | none => .scanning sweep todo delList
  | some n =>
    if fails then .scanning { sweep with skipped := sweep.skipped ++ [name] } todo delList
    else if (s.files n).ctime < sweep.start - expiredSeconds then
      .scanning sweep todo (delList ++ [name])
    else .scanning sweep todo delList

/-- `unlink(missing_ok=True)`. -/
def unlink (s : ExpiredLoop) (sweep : Sweep) (i : Nat) (name : PyStr) (delList : List PyStr) :
    ExpiredLoop :=
  { s with
    entries := Function.update s.entries name none
    phase := .deleting sweep (i + 1) delList none
    removed := s.removed ++ (s.entries name).toList.map fun n => ⟨n, sweep.start⟩ }

/-- Element `i` is next, or the `sleep(0.01)` before it is over. -/
def due (s : ExpiredLoop) (i : Nat) : Option Int → Bool
  | none => i % batch ≠ 0
  | some wake => wake ≤ s.now

def step (c : Expiry) (s : ExpiredLoop) : Event → Option ExpiredLoop
  | .tick seconds => some { s with now := s.now + seconds }
  | .opens handler logId =>
    match s.streams handler with
    | some _ => none
    | none => some (s.openStream handler (fileName logId))
  | .writes handler line => (s.streams handler).map fun n => s.writeLine n line
  | .closes handler => some (s.setStream handler none)
  | .takes name => (s.entries name).map fun n =>
      { s with entries := Function.update s.entries name none, taken := s.taken ++ [n] }
  | .wakes =>
    match s.phase with
    | .sleeping wake => if wake ≤ s.now then some (s.setPhase (.started s.now)) else none
    | _ => none
  | .lists names =>
    match s.phase with
    | .started start => some (s.setPhase (.scanning ⟨start, []⟩ (names.filter logNameRegex) []))
    | _ => none
  | .visits fails =>
    match s.phase with
    | .scanning sweep (name :: todo) delList =>
      some (s.setPhase (s.visit c.expiredSeconds sweep name todo delList fails))
    | _ => none
  | .scanned =>
    match s.phase with
    | .scanning sweep [] delList => some (s.setPhase (.deleting sweep 1 delList none))
    | _ => none
  | .pauses =>
    match s.phase with
    | .deleting sweep i (name :: delList) none =>
      if i % batch = 0 then
        some (s.setPhase (.deleting sweep i (name :: delList) (some (s.now + c.pause))))
      else none
    | _ => none
  | .unlinks =>
    match s.phase with
    | .deleting sweep i (name :: delList) paused =>
      if s.due i paused then some (s.unlink sweep i name delList) else none
    | _ => none
  | .rests =>
    match s.phase with
    | .deleting sweep _ [] _ =>
      some { s with phase := .sleeping (s.now + c.interval), swept := s.swept ++ [sweep] }
    | _ => none
  | .raises =>
    match s.phase with
    | .started _ | .scanning .. => some (s.setPhase .ended)
    | .deleting _ i (_ :: _) paused =>
      if s.due i paused then some (s.setPhase .ended) else none
    | _ => none
  | .cancelled =>
    match s.phase with
    | .sleeping _ | .started _ | .scanning .. | .deleting _ _ _ (some _) =>
      some (s.setPhase .ended)
    | _ => none

/-- What is in the directory all along is in the listing; of the rest it may have what it likes. -/
def Listed (s : ExpiredLoop) : Event → Prop
  | .lists names =>
    ∀ name n, s.entries name = some n → logNameRegex name = true → name ∈ names
  | _ => True

/-- A directory from earlier days. -/
structure Initial (s : ExpiredLoop) : Prop where
  named : ∀ name n, s.entries name = some n → n < s.nextFile ∧ (s.files n).name = name
  linked : ∀ n, n < s.nextFile → s.entries (s.files n).name = some n
  dated : ∀ n, n < s.nextFile →
    (s.files n).ctime ≤ s.now ∧ ∀ l ∈ (s.files n).lines, l.1 ≤ (s.files n).ctime
  streams : ∀ h, s.streams h = none
  phase : s.phase = .sleeping s.now
  removed : s.removed = []
  taken : s.taken = []
  swept : s.swept = []

def Reachable (c : Expiry) (s : ExpiredLoop) : Prop :=
  ∃ s₀, Initial s₀ ∧ Steps (step c) Listed s₀ s

/-! ## What a step does -/

/-- How the loop goes on that does not touch the directory. -/
inductive Turns (expiredSeconds : Int) (s : ExpiredLoop) : SweepPhase → SweepPhase → Prop
  | wakes (wake : Int) : Turns expiredSeconds s (.sleeping wake) (.started s.now)
  | lists (start : Int) (names : List PyStr) (h : Listed s (.lists names)) :
      Turns expiredSeconds s (.started start)
        (.scanning ⟨start, []⟩ (names.filter logNameRegex) [])
  | visits (sweep : Sweep) (name : PyStr) (todo delList : List PyStr) (fails : Bool) :
      Turns expiredSeconds s (.scanning sweep (name :: todo) delList)
        (s.visit expiredSeconds sweep name todo delList fails)
  | scanned (sweep : Sweep) (delList : List PyStr) :
      Turns expiredSeconds s (.scanning sweep [] delList) (.deleting sweep 1 delList none)
  | pauses (sweep : Sweep) (i : Nat) (delList : List PyStr) (wake : Int) :
      Turns expiredSeconds s (.deleting sweep i delList none)
        (.deleting sweep i delList (some wake))
  | ends (phase : SweepPhase) : Turns expiredSeconds s phase .ended

inductive Does (expiredSeconds : Int) (s : ExpiredLoop) : ExpiredLoop → Prop
  | ticks (seconds : Nat) : Does expiredSeconds s { s with now := s.now + seconds }
  | opens (handler : Nat) (name : PyStr) : Does expiredSeconds s (s.openStream handler name)
  | writes (handler n : Nat) (line : PyStr) (h : s.streams handler = some n) :
      Does expiredSeconds s (s.writeLine n line)
  | closes (handler : Nat) : Does expiredSeconds s (s.setStream handler none)
  | takes (name : PyStr) (n : Nat) (h : s.entries name = some n) :
      Does expiredSeconds s
        { s with entries := Function.update s.entries name none, taken := s.taken ++ [n] }
  | turns (phase : SweepPhase) (h : Turns expiredSeconds s s.phase phase) :
      Does expiredSeconds s (s.setPhase phase)
  | unlinks (sweep : Sweep) (i : Nat) (name : PyStr) (delList : List PyStr)
      (paused : Option Int) (h : s.phase = .deleting sweep i (name :: delList) paused) :
      Does expiredSeconds s (s.unlink sweep i name delList)
  | rests (sweep : Sweep) (i : Nat) (paused : Option Int) (wake : Int)
      (h : s.phase = .deleting sweep i [] paused) :
      Does expiredSeconds s { s with phase := .sleeping wake, swept := s.swept ++ [sweep] }

theorem step_does {e : Event} (hl : Listed s e) (hs : step c s e = some s') :
    Does c.expiredSeconds s s' := by
  cases e with
  | tick seconds => cases hs; exact .ticks seconds
  | opens handler logId =>
    simp only [step] at hs
    split at hs
    · cases hs
    · cases hs; exact .opens handler _
  | writes handler line =>
    obtain ⟨n, hn, rfl⟩ := Option.map_eq_some_iff.mp hs
    exact .writes handler n line hn
  | closes handler => cases hs; exact .closes handler
  | takes name =>
    obtain ⟨n, hn, rfl⟩ := Option.map_eq_some_iff.mp hs
    exact .takes name n hn
  | unlinks =>
    simp only [step] at hs
    split at hs
    · rename_i hp
      split at hs
      · cases hs; exact .unlinks _ _ _ _ _ hp
      · cases hs
    · cases hs
  | rests =>
    simp only [step] at hs
    split at hs
    · rename_i hp
      cases hs
      exact .rests _ _ _ _ hp
    · cases hs
  | raises =>
    have hend : s' = s.setPhase .ended := by
      simp only [step] at hs
      split at hs
      · cases hs; rfl
      · cases hs; rfl
      · split at hs
        · cases hs; rfl
        · cases hs
      · cases hs
    rw [hend]
    exact .turns _ (.ends _)
  | cancelled =>
    have hend : s' = s.setPhase .ended := by
      simp only [step] at hs
      split at hs <;> first | cases hs; rfl | cases hs
    rw [hend]
    exact .turns _ (.ends _)
  | wakes =>
    simp only [step] at hs
    split at hs
    · rename_i wake hp
      split at hs
      · cases hs
        exact .turns _ (by rw [hp]; exact .wakes wake)
      · cases hs
    · cases hs
  | lists names =>
    simp only [step] at hs
    split at hs
    · rename_i hp
      cases hs
      exact .turns _ (by rw [hp]; exact .lists _ _ hl)
    · cases hs
  | visits fails =>
    simp only [step] at hs
    split at hs
    · rename_i hp
      cases hs
      exact .turns _ (by rw [hp]; exact .visits ..)
    · cases hs
  | scanned =>
    simp only [step] at hs
    split at hs
    · rename_i hp
      cases hs
      exact .turns _ (by rw [hp]; exact .scanned ..)
    · cases hs
  | pauses =>
    simp only [step] at hs
    split at hs
    · rename_i hp
      split at hs
      · cases hs
        exact .turns _ (by rw [hp]; exact .pauses ..)
      · cases hs
    · cases hs

/-! ## The directory -/

structure Sane (s : ExpiredLoop) : Prop where
  named : ∀ name n, s.entries name = some n → n < s.nextFile ∧ (s.files n).name = name
  accounted : ∀ n, n < s.nextFile →
    s.entries (s.files n).name = some n ∨ n ∈ s.taken ∨ ∃ r ∈ s.removed, r.file = n
  dated : ∀ n, n < s.nextFile →
    (s.files n).ctime ≤ s.now ∧ ∀ l ∈ (s.files n).lines, l.1 ≤ (s.files n).ctime
  streams : ∀ h n, s.streams h = some n → n < s.nextFile

/-- What may become of the files. -/
structure Goes (s s' : ExpiredLoop) : Prop where
  now : s.now ≤ s'.now
  next : s.nextFile ≤ s'.nextFile
  name : ∀ n, n < s.nextFile → (s'.files n).name = (s.files n).name
  ctime : ∀ n, n < s.nextFile → (s.files n).ctime ≤ (s'.files n).ctime
  lines : ∀ n, n < s.nextFile →
    ∀ l ∈ (s'.files n).lines, l ∈ (s.files n).lines ∨ s.now ≤ l.1
  born : ∀ n, s.nextFile ≤ n → n < s'.nextFile →
    (s'.files n).lines = [] ∧ s.now ≤ (s'.files n).ctime
  entries : ∀ name n, s'.entries name = some n → s.entries name = some n ∨ s.nextFile ≤ n

theorem Goes.same (hnow : s.now ≤ s'.now) (hf : s'.files = s.files)
    (hn : s'.nextFile = s.nextFile)
    (he : ∀ name n, s'.entries name = some n → s.entries name = some n) : Goes s s' where
  now := hnow
  next := by rw [hn]
  name := by intro n _; rw [hf]
  ctime := by intro n _; exact Int.le_of_eq (by rw [hf])
  lines := by intro n _ l hl; rw [hf] at hl; exact .inl hl
  born := by intro n hle hlt; omega
  entries := by intro name n h; exact .inl (he name n h)

theorem update_none {entries : PyStr → Option Nat} {name name' : PyStr} {n : Nat}
    (h : Function.update entries name none name' = some n) :
    name' ≠ name ∧ entries name' = some n := by
  by_cases hne : name' = name
  · rw [hne, Function.update_self] at h
    cases h
  · rw [Function.update_of_ne hne] at h
    exact ⟨hne, h⟩

theorem Sane.setStream (h : Sane s) (handler : Nat) {n : Option Nat}
    (hn : ∀ n', n = some n' → n' < s.nextFile) : Sane (s.setStream handler n) where
  named := h.named
  accounted := h.accounted
  dated := h.dated
  streams := by
    intro handler' n' hs
    simp only [ExpiredLoop.setStream] at hs
    by_cases hne : handler' = handler
    · rw [hne, Function.update_self] at hs
      exact hn n' hs
    · rw [Function.update_of_ne hne] at hs
      exact h.streams handler' n' hs

theorem Goes.setStream (h : Goes s s') (handler : Nat) (n : Option Nat) :
    Goes s (s'.setStream handler n) where
  now := h.now
  next := h.next
  name := h.name
  ctime := h.ctime
  lines := h.lines
  born := h.born
  entries := h.entries

theorem create_file (s : ExpiredLoop) (name : PyStr) :
    (s.create name).files s.nextFile = ⟨name, s.now, []⟩ := Function.update_self ..

theorem create_other {n : Nat} (hn : n < s.nextFile) (name : PyStr) :
    (s.create name).files n = s.files n := Function.update_of_ne (Nat.ne_of_lt hn) ..

theorem create_entries {name name' : PyStr} {n : Nat}
    (h : (s.create name).entries name' = some n) :
    (name' = name ∧ n = s.nextFile) ∨ s.entries name' = some n := by
  simp only [create] at h
  by_cases hne : name' = name
  · rw [hne, Function.update_self, Option.some.injEq] at h
    exact .inl ⟨hne, h.symm⟩
  · rw [Function.update_of_ne hne] at h
    exact .inr h

theorem Sane.create (h : Sane s) {name : PyStr} (hnone : s.entries name = none) :
    Sane (s.create name) where
  named := by
    intro name' n he
    rcases create_entries he with ⟨rfl, rfl⟩ | he
    · exact ⟨Nat.lt_succ_self _, by rw [create_file]⟩
    · obtain ⟨hlt, hname⟩ := h.named name' n he
      exact ⟨Nat.lt_succ_of_lt hlt, by rw [create_other hlt]; exact hname⟩
  accounted := by
    intro n hn
    rcases Nat.lt_succ_iff_lt_or_eq.mp hn with hlt | rfl
    · rw [create_other hlt]
      refine (h.accounted n hlt).imp_left fun he => ?_
      have hne : (s.files n).name ≠ name := by
        intro hc
        rw [hc, hnone] at he
        cases he
      simp only [ExpiredLoop.create]
      rw [Function.update_of_ne hne]
      exact he
    · rw [create_file]
      exact .inl (Function.update_self ..)
  dated := by
    intro n hn
    rcases Nat.lt_succ_iff_lt_or_eq.mp hn with hlt | rfl
    · rw [create_other hlt]
      exact h.dated n hlt
    · rw [create_file]
      exact ⟨Int.le_refl _, fun l hl => by cases hl⟩
  streams := by
    intro handler n hs
    exact Nat.lt_succ_of_lt (h.streams handler n hs)

theorem create_goes (s : ExpiredLoop) (name : PyStr) : Goes s (s.create name) where
  now := Int.le_refl _
  next := Nat.le_succ _
  name := by intro n hn; rw [create_other hn]
  ctime := by intro n hn; exact Int.le_of_eq (by rw [create_other hn])
  lines := by intro n hn l hl; rw [create_other hn] at hl; exact .inl hl
  born := by
    intro n hle hlt
    have heq : n = s.nextFile := Nat.le_antisymm (Nat.le_of_lt_succ hlt) hle
    rw [heq, create_file]
    exact ⟨rfl, Int.le_refl _⟩
  entries := by
    intro name' n he
    rcases create_entries he with ⟨-, rfl⟩ | he
    · exact .inr (Nat.le_refl _)
    · exact .inl he

theorem openStream_same (s : ExpiredLoop) (handler : Nat) (name : PyStr) :
    (s.openStream handler name).phase = s.phase ∧ (s.openStream handler name).removed = s.removed ∧
      (s.openStream handler name).swept = s.swept := by
  unfold openStream
  split <;> exact ⟨rfl, rfl, rfl⟩

theorem openStream_goes (h : Sane s) (handler : Nat) (name : PyStr) :
    Sane (s.openStream handler name) ∧ Goes s (s.openStream handler name) := by
  unfold openStream
  split
  · rename_i n hn
    refine ⟨h.setStream handler fun n' he => ?_,
      (Goes.same (Int.le_refl _) rfl rfl fun _ _ he => he).setStream handler _⟩
    cases he
    exact (h.named name n hn).1
  · rename_i hnone
    refine ⟨(h.create hnone).setStream handler fun n' he => ?_,
      (create_goes s name).setStream handler _⟩
    cases he
    exact Nat.lt_succ_self _

theorem writeLine_file (s : ExpiredLoop) (n : Nat) (line : PyStr) :
    (s.writeLine n line).files n =
      ⟨(s.files n).name, s.now, (s.files n).lines ++ [(s.now, line)]⟩ :=
  Function.update_self ..

theorem writeLine_other {n n' : Nat} (hne : n' ≠ n) (line : PyStr) :
    (s.writeLine n line).files n' = s.files n' := Function.update_of_ne hne ..

theorem writeLine_name (s : ExpiredLoop) (n n' : Nat) (line : PyStr) :
    ((s.writeLine n line).files n').name = (s.files n').name := by
  by_cases hne : n' = n
  · rw [hne, writeLine_file]
  · rw [writeLine_other hne]

theorem writeLine_lines {n n' : Nat} {line : PyStr} {l : Int × PyStr}
    (hl : l ∈ ((s.writeLine n line).files n').lines) :
    l ∈ (s.files n').lines ∨ (n' = n ∧ l.1 = s.now) := by
  by_cases hne : n' = n
  · rw [hne, writeLine_file] at hl
    rw [hne]
    rcases List.mem_append.mp hl with hold | hnew
    · exact .inl hold
    · rw [List.mem_singleton.mp hnew]
      exact .inr ⟨rfl, rfl⟩
  · rw [writeLine_other hne] at hl
    exact .inl hl

theorem Sane.writeLine (h : Sane s) (n : Nat) (line : PyStr) :
    Sane (s.writeLine n line) where
  named := by
    intro name n' he
    rw [writeLine_name]
    exact h.named name n' he
  accounted := by
    intro n' hn'
    rw [writeLine_name]
    exact h.accounted n' hn'
  dated := by
    intro n' hn'
    obtain ⟨hle, hlines⟩ := h.dated n' hn'
    by_cases hne : n' = n
    · rw [hne, writeLine_file]
      refine ⟨Int.le_refl _, fun l hl => ?_⟩
      rw [hne] at hle hlines
      rcases List.mem_append.mp hl with hold | hnew
      · exact Int.le_trans (hlines l hold) hle
      · exact Int.le_of_eq (by rw [List.mem_singleton.mp hnew])
    · rw [writeLine_other hne]
      exact ⟨hle, hlines⟩
  streams := h.streams

theorem writeLine_goes (h : Sane s) (n : Nat) (line : PyStr) : Goes s (s.writeLine n line) where
  now := Int.le_refl _
  next := Nat.le_refl _
  name := by intro n' _; exact writeLine_name s n n' line
  ctime := by
    intro n' hn'
    by_cases hne : n' = n
    · rw [hne] at hn' ⊢
      rw [writeLine_file]
      exact (h.dated n hn').1
    · exact Int.le_of_eq (by rw [writeLine_other hne])
  lines := by
    intro n' _ l hl
    rcases writeLine_lines hl with hold | ⟨-, hnow⟩
    · exact .inl hold
    · exact .inr (Int.le_of_eq hnow.symm)
  born := by
    intro n' hle hlt
    exact absurd hlt (Nat.not_lt.mpr hle)
  entries := by
    intro name n' he
    exact .inl he

theorem Does.goes (h : Sane s) (hd : Does expiredSeconds s s') : Sane s' ∧ Goes s s' := by
  cases hd with
  | ticks seconds =>
    refine ⟨⟨h.named, h.accounted, fun n hn => ?_, h.streams⟩,
      .same (by simp only; omega) rfl rfl fun _ _ he => he⟩
    obtain ⟨hle, hlines⟩ := h.dated n hn
    exact ⟨by simp only; omega, hlines⟩
  | opens handler name => exact openStream_goes h handler name
  | writes handler n line _ => exact ⟨h.writeLine n line, writeLine_goes h n line⟩
  | closes handler =>
    exact ⟨h.setStream handler fun _ he => (by cases he),
      (Goes.same (Int.le_refl _) rfl rfl fun _ _ he => he).setStream handler none⟩
  | takes name n hn =>
    refine ⟨⟨fun name' n' he => h.named name' n' (update_none he).2, fun n' hn' => ?_, h.dated,
      h.streams⟩, .same (Int.le_refl _) rfl rfl fun _ _ he => (update_none he).2⟩
    rcases h.accounted n' hn' with he | ht | hr
    · by_cases hne : (s.files n').name = name
      · rw [hne, hn, Option.some.injEq] at he
        rw [← he]
        exact .inr (.inl (List.mem_append_right _ (List.mem_singleton_self n)))
      · exact .inl (by simp only; rw [Function.update_of_ne hne]; exact he)
    · exact .inr (.inl (List.mem_append_left _ ht))
    · exact .inr (.inr hr)
  | turns phase _ =>
    exact ⟨⟨h.named, h.accounted, h.dated, h.streams⟩,
      .same (Int.le_refl _) rfl rfl fun _ _ he => he⟩
  | unlinks sweep i name delList paused _ =>
    refine ⟨⟨fun name' n' he => h.named name' n' (update_none he).2, fun n' hn' => ?_, h.dated,
      h.streams⟩, .same (Int.le_refl _) rfl rfl fun _ _ he => (update_none he).2⟩
    rcases h.accounted n' hn' with he | ht | ⟨r, hr, hfile⟩
    · by_cases hne : (s.files n').name = name
      · rw [hne] at he
        refine .inr (.inr ⟨⟨n', sweep.start⟩, List.mem_append_right _ ?_, rfl⟩)
        rw [he]
        exact List.mem_singleton_self _
      · exact .inl (by simp only [unlink]; rw [Function.update_of_ne hne]; exact he)
    · exact .inr (.inl ht)
    · exact .inr (.inr ⟨r, List.mem_append_left _ hr, hfile⟩)
  | rests sweep i paused wake _ =>
    exact ⟨⟨h.named, h.accounted, h.dated, h.streams⟩,
      .same (Int.le_refl _) rfl rfl fun _ _ he => he⟩

/-! ## What is removed -/

/-- All that was in the file was too old when the round began, or came after that. -/
def Expendable (expiredSeconds start : Int) (f : LogFile) : Prop :=
  ∀ l ∈ f.lines, l.1 < start - expiredSeconds ∨ start ≤ l.1

def Found (expiredSeconds : Int) (s : ExpiredLoop) (start : Int) (names : List PyStr) : Prop :=
  ∀ name ∈ names, logNameRegex name = true ∧
    ∀ n, s.entries name = some n → Expendable expiredSeconds start (s.files n)

def PhaseOk (expiredSeconds : Int) (s : ExpiredLoop) : SweepPhase → Prop
  | .sleeping _ | .ended => True
  | .started start => start ≤ s.now
  | .scanning sweep todo delList =>
    sweep.start ≤ s.now ∧ (∀ name ∈ todo, logNameRegex name = true) ∧
      Found expiredSeconds s sweep.start delList
  | .deleting sweep _ delList _ => sweep.start ≤ s.now ∧ Found expiredSeconds s sweep.start delList

structure RemovalOk (expiredSeconds : Int) (s : ExpiredLoop) (r : Removal) : Prop where
  file : r.file < s.nextFile
  regex : logNameRegex (s.files r.file).name = true
  start : r.start ≤ s.now
  expendable : Expendable expiredSeconds r.start (s.files r.file)

structure Careful (expiredSeconds : Int) (s : ExpiredLoop) : Prop extends Sane s where
  phase : PhaseOk expiredSeconds s s.phase
  removed : ∀ r ∈ s.removed, RemovalOk expiredSeconds s r

theorem Goes.expendable (h : Goes s s') {n : Nat} {start : Int} (hn : n < s.nextFile)
    (hstart : start ≤ s.now) (he : Expendable expiredSeconds start (s.files n)) :
    Expendable expiredSeconds start (s'.files n) := by
  intro l hl
  rcases h.lines n hn l hl with hold | hnew
  · exact he l hold
  · exact .inr (Int.le_trans hstart hnew)

theorem Goes.found (h : Goes s s') (hs : Sane s) (hs' : Sane s') {start : Int}
    {names : List PyStr} (hstart : start ≤ s.now) (hf : Found expiredSeconds s start names) :
    Found expiredSeconds s' start names := by
  intro name hm
  refine ⟨(hf name hm).1, fun n he => ?_⟩
  rcases h.entries name n he with hold | hnew
  · exact h.expendable (hs.named name n hold).1 hstart ((hf name hm).2 n hold)
  · intro l hl
    rw [(h.born n hnew (hs'.named name n he).1).1] at hl
    cases hl

theorem Goes.phaseOk (h : Goes s s') (hs : Sane s) (hs' : Sane s') {phase : SweepPhase}
    (hp : PhaseOk expiredSeconds s phase) : PhaseOk expiredSeconds s' phase := by
  cases phase with
  | sleeping wake => exact trivial
  | ended => exact trivial
  | started start => exact Int.le_trans hp h.now
  | scanning sweep todo delList =>
    obtain ⟨hstart, htodo, hf⟩ := hp
    exact ⟨Int.le_trans hstart h.now, htodo, h.found hs hs' hstart hf⟩
  | deleting sweep i delList paused =>
    obtain ⟨hstart, hf⟩ := hp
    exact ⟨Int.le_trans hstart h.now, h.found hs hs' hstart hf⟩

theorem Goes.removalOk (h : Goes s s') {r : Removal} (hr : RemovalOk expiredSeconds s r) :
    RemovalOk expiredSeconds s' r where
  file := Nat.lt_of_lt_of_le hr.file h.next
  regex := by rw [h.name r.file hr.file]; exact hr.regex
  start := Int.le_trans hr.start h.now
  expendable := h.expendable hr.file hr.start hr.expendable

theorem visit_ok (h : Sane s) {sweep : Sweep} {name : PyStr} {todo delList : List PyStr}
    (fails : Bool) (hp : PhaseOk expiredSeconds s (.scanning sweep (name :: todo) delList)) :
    PhaseOk expiredSeconds s (s.visit expiredSeconds sweep name todo delList fails) := by
  obtain ⟨hstart, htodo, hf⟩ := hp
  have hrest : ∀ name' ∈ todo, logNameRegex name' = true := by
    intro name' hm
    exact htodo name' (List.mem_cons_of_mem _ hm)
  unfold visit
  split
  · exact ⟨hstart, hrest, hf⟩
  · rename_i n hn
    split
    · exact ⟨hstart, hrest, hf⟩
    · split
      · rename_i hold
        refine ⟨hstart, hrest, fun name' hm => ?_⟩
        rcases List.mem_append.mp hm with hm | hm
        · exact hf name' hm
        · rw [List.mem_singleton.mp hm]
          refine ⟨htodo name (List.mem_cons_self ..), fun n' hn' l hl => ?_⟩
          cases hn.symm.trans hn'
          have hle := (h.dated n (h.named name n hn).1).2 l hl
          exact .inl (Int.lt_of_le_of_lt hle hold)
      · exact ⟨hstart, hrest, hf⟩

theorem Turns.phaseOk (h : Sane s) {phase phase' : SweepPhase}
    (ht : Turns expiredSeconds s phase phase') (hp : PhaseOk expiredSeconds s phase) :
    PhaseOk expiredSeconds s phase' := by
  cases ht with
  | wakes wake => exact Int.le_refl _
  | lists start names _ =>
    exact ⟨hp, fun name hm => (List.mem_filter.mp hm).2, fun name hm => by cases hm⟩
  | visits sweep name todo delList fails => exact visit_ok h fails hp
  | scanned sweep delList => exact ⟨hp.1, hp.2.2⟩
  | pauses sweep i delList wake => exact hp
  | ends _ => exact trivial

theorem Careful.does (h : Careful expiredSeconds s) (hd : Does expiredSeconds s s') :
    Careful expiredSeconds s' := by
  obtain ⟨hs', hgoes⟩ := hd.goes h.toSane
  have hphase := hgoes.phaseOk h.toSane hs' h.phase
  have hremoved : ∀ r ∈ s.removed, RemovalOk expiredSeconds s' r := by
    intro r hr
    exact hgoes.removalOk (h.removed r hr)
  refine ⟨hs', ?_, ?_⟩
  · cases hd with
    | opens handler name =>
      rw [(openStream_same s handler name).1]
      exact hphase
    | turns phase ht => exact ht.phaseOk h.toSane h.phase
    | unlinks sweep i name delList paused hp =>
      rw [hp] at hphase
      exact ⟨hphase.1, fun name' hm => hphase.2 name' (List.mem_cons_of_mem _ hm)⟩
    | rests sweep i paused wake _ => exact trivial
    | _ => exact hphase
  · cases hd with
    | opens handler name =>
      rw [(openStream_same s handler name).2.1]
      exact hremoved
    | unlinks sweep i name delList paused hp =>
      intro r hr
      rcases List.mem_append.mp hr with hr | hr
      · exact hremoved r hr
      · obtain ⟨n, hn, rfl⟩ := List.mem_map.mp hr
        have hn : s.entries name = some n := Option.mem_toList.mp hn
        have hok := h.phase
        rw [hp] at hok
        obtain ⟨hregex, hexp⟩ := hok.2 name (List.mem_cons_self ..)
        obtain ⟨hlt, hname⟩ := h.named name n hn
        exact ⟨hlt, by simp only [unlink, hname, hregex], hok.1, hexp n hn⟩
    | _ => exact hremoved

theorem Initial.careful (h : Initial s) : Careful expiredSeconds s where
  named := h.named
  accounted := by intro n hn; exact .inl (h.linked n hn)
  dated := h.dated
  streams := by intro handler n hs; rw [h.streams handler] at hs; cases hs
  phase := by rw [h.phase]; exact trivial
  removed := by intro r hr; rw [h.removed] at hr; cases hr

theorem reachable_careful (h : Reachable c s) : Careful c.expiredSeconds s := by
  obtain ⟨s₀, hinit, hs⟩ := h
  exact hs.invariant (fun _ _ _ hc hl hstep => hc.does (step_does hl hstep)) hinit.careful

/-- A file can be read under its name, unless someone else has removed it, or a round of the loop:
then it is a log file, and each line in it was older than `expired_seconds` when the round began, or
has come since. -/
theorem lines_retained (h : Reachable c s) {n : Nat} (hn : n < s.nextFile) :
    s.entries (s.files n).name = some n ∨ n ∈ s.taken ∨
      ∃ r ∈ s.removed, r.file = n ∧ logNameRegex (s.files n).name = true ∧ r.start ≤ s.now ∧
        ∀ l ∈ (s.files n).lines, l.1 < r.start - c.expiredSeconds ∨ r.start ≤ l.1 := by
  have hc := reachable_careful h
  rcases hc.accounted n hn with hlinked | htaken | ⟨r, hr, rfl⟩
  · exact .inl hlinked
  · exact .inr (.inl htaken)
  · have hok := hc.removed r hr
    exact .inr (.inr ⟨r, hr, rfl, hok.regex, hok.start, hok.expendable⟩)

/-- A directory with one file that has not been written for long. -/
def aged : ExpiredLoop where
  now := 100
  entries := Function.update (fun _ => none) (fileName 1) (some 0)
  files _ := ⟨fileName 1, 0, [(0, py "early")]⟩
  nextFile := 1
  streams _ := none
  phase := .sleeping 100
  removed := []
  taken := []
  swept := []

theorem aged_entries {name : PyStr} {n : Nat} (h : aged.entries name = some n) :
    name = fileName 1 ∧ n = 0 := by
  simp only [aged] at h
  by_cases hne : name = fileName 1
  · rw [hne, Function.update_self, Option.some.injEq] at h
    exact ⟨hne, h.symm⟩
  · rw [Function.update_of_ne hne] at h
    cases h

theorem aged_initial : Initial aged where
  named := by
    intro name n he
    obtain ⟨rfl, rfl⟩ := aged_entries he
    exact ⟨Nat.one_pos, rfl⟩
  linked := by
    intro n hn
    rw [Nat.lt_one_iff.mp hn]
    exact Function.update_self (fileName 1) (some 0) fun _ => none
  dated := by
    intro n _
    refine ⟨show (0 : Int) ≤ 100 by omega, fun l hl => ?_⟩
    rw [List.mem_singleton.mp hl]
    exact Int.le_refl _
  streams _ := rfl
  phase := rfl
  removed := rfl
  taken := rfl
  swept := rfl

/-- In hundredths of a second. -/
def everySecond : Expiry := { expiredSeconds := 10, interval := 100, pause := 1 }

/-- A task logs to the file after `expired_once` has looked at it. -/
def overtaking : List Event :=
  [.visits false, .opens 0 1, .writes 0 (py "late"), .scanned, .unlinks, .rests]

theorem reachable_overtaken : ∃ s, Reachable everySecond s ∧ s.nextFile = 1 ∧
    s.phase = .sleeping 200 ∧
    s.entries (fileName 1) = none ∧ (s.files 0).name = fileName 1 ∧
    (s.files 0).lines = [(0, py "early"), (100, py "late")] ∧ s.taken = [] ∧ s.now = 100 := by
  have hwakes : Steps (step everySecond) Listed aged _ := .single (e := .wakes) trivial rfl
  have hlisted : Listed (aged.setPhase (.started 100)) (.lists [fileName 1]) := by
    intro name n he _
    exact List.mem_singleton.mpr (aged_entries he).1
  have hok : ∀ e ∈ overtaking, ∀ s, Listed s e := by
    intro e he s
    simp only [overtaking, List.mem_cons, List.not_mem_nil, or_false] at he
    rcases he with rfl | rfl | rfl | rfl | rfl | rfl <;> exact trivial
  exact ⟨_, ⟨aged, aged_initial, (hwakes.tail hlisted rfl).trans (.of_run hok rfl)⟩, rfl, rfl, rfl,
    rfl, rfl, rfl, rfl⟩

/-- The line is gone. -/
theorem lines_retained_overtaken : ∃ s : ExpiredLoop, (100, py "late") ∈ (s.files 0).lines ∧
    s.entries (s.files 0).name = none ∧ ∃ r ∈ s.removed, r.file = 0 ∧ r.start ≤ 100 := by
  obtain ⟨s, h, hn, -, hnone, hname, hlines, htaken, hnow⟩ := reachable_overtaken
  have hmem : (100, py "late") ∈ (s.files 0).lines := by
    rw [hlines]
    exact List.mem_cons_of_mem _ (List.mem_singleton_self _)
  rw [← hname] at hnone
  refine ⟨s, hmem, hnone, ?_⟩
  rcases lines_retained (n := 0) h (by omega) with hl | ht | ⟨r, hr, hfile, -, hstart, -⟩
  · rw [hnone] at hl
    cases hl
  · rw [htaken] at ht
    cases ht
  · rw [hnow] at hstart
    exact ⟨r, hr, hfile, hstart⟩

end ExpiredLoop
end Pyxxl
