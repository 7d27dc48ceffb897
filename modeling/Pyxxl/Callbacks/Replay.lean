import Mathlib.Data.List.Lex
import Pyxxl.Model
import Pyxxl.Lib.Json

/-!
# Pyxxl.Callbacks.Replay

The first `CallbackManager.start()` on the bytes of the callback files
(`_replay_persisted_requests`, `_load_request_from_file`).

* a file name is compared by its code points, as `sorted` does for paths of one directory; the
  directory lists its files in any order.
* `reads`: for which names `read_text` does not meet an `OSError`. Files can be unlinked.
* `Limits`: what `json.loads` can nest before it raises `RecursionError`, and the digits `int`
  takes before it raises `ValueError`.
* nothing suspends `start`: no lock is held by others, and the queue is unbounded.
* `Replayed`: what a replay should do; `replay_total`: when it does.
-/

namespace Pyxxl

structure CallbackFile where
  name : PyStr
  bytes : ByteArray

/-- What `_load_request_from_file` may come upon. -/
inductive LoadError where
  | keyError
  | typeError
  | jsonDecodeError
  | osError
  | unicodeDecodeError
  | recursionError
  | valueError
  deriving DecidableEq, Repr

/-- `except (KeyError, TypeError, json.JSONDecodeError, OSError)`. -/
def LoadError.caught : LoadError → Bool
  | .keyError | .typeError | .jsonDecodeError | .osError => true
  | .unicodeDecodeError | .recursionError | .valueError => false

/-- A `CallbackRequest` as it is loaded: the fields are not checked. -/
structure LoadedRequest where
  logId : Json
  timestamp : Json
  code : Json
  msg : Json
  attempts : Json
  persistedPath : PyStr

/-! ## One file -/

/-- What text mode makes of the ends of lines. -/
def universalNewlines : PyStr → PyStr
  | [] => []
  | 13 :: s =>
    match s with
    | 10 :: s => 10 :: universalNewlines s
    | s => 10 :: universalNewlines s
  | c :: s => c :: universalNewlines s

/-- The text of a file that is UTF-8. -/
def decode (b : ByteArray) : Option PyStr :=
  b.utf8Decode?.map fun cs => universalNewlines (cs.toList.map Char.toNat)

/-- `path.read_text(encoding="utf-8")`. -/
def readText (readable : Bool) (b : ByteArray) : Except LoadError PyStr :=
  if readable then
    match decode b with
    | some t => .ok t
    | none => .error .unicodeDecodeError
  else .error .osError

def jsonLoads (l : Json.Limits) (t : PyStr) : Except LoadError Json :=
  match Json.loads l t with
  | .ok v => .ok v
  | .error .invalid => .error .jsonDecodeError
  | .error .nesting => .error .recursionError
  | .error .digits => .error .valueError

/-- `payload[k]`. -/
def subscript (payload : Json) (k : String) : Except LoadError Json :=
  match payload with
  | .obj ms =>
    match Json.get? ms (py k) with
    | some v => .ok v
    | none => .error .keyError
  | _ => .error .typeError

/-- `payload.get(k, default)`. -/
def getOr (payload : Json) (k : String) (default : Json) : Json :=
  match payload with
  | .obj ms => (Json.get? ms (py k)).getD default
  | _ => default

def fromPayload (path : PyStr) (payload : Json) : Except LoadError LoadedRequest := do
  let logId ← subscript payload "log_id"
  let timestamp ← subscript payload "timestamp"
  let code ← subscript payload "code"
  return {
    logId := logId
    timestamp := timestamp
    code := code
    msg := getOr payload "msg" .null
    attempts := getOr payload "attempts" (.int 0)
    persistedPath := path }

/-- `_load_request_from_file`. -/
def loadRequestFromFile (l : Json.Limits) (readable : Bool) (path : PyStr) (b : ByteArray) :
    Except LoadError (Option LoadedRequest) :=
  let load : Except LoadError LoadedRequest := do
    let text ← readText readable b
    let payload ← jsonLoads l text
    fromPayload path payload
  match load with
  | .ok r => .ok (some r)
  | .error e => if e.caught then .ok none else .error e

/-! ## `start` -/

/-- The manager as far as its first `start` goes, with the files of `store_dir`. -/
structure Backlog where
  storeDir : PyStr
  files : List CallbackFile
  distinct : (files.map CallbackFile.name).Nodup
  queue : List LoadedRequest
  pending : Nat
  pendingEmpty : Bool
  worker : Bool
  started : Bool

namespace Backlog

/-- `path.as_posix()`. -/
def path (s : Backlog) (f : CallbackFile) : PyStr := s.storeDir ++ py "/" ++ f.name

def unlink (s : Backlog) (name : PyStr) : Backlog :=
  { s with
    files := s.files.filter (·.name != name)
    distinct := s.distinct.sublist (List.filter_sublist.map _) }

/-- `_queue_request`. -/
def queueRequest (s : Backlog) (r : LoadedRequest) : Backlog :=
  { s with
    pending := s.pending + 1
    pendingEmpty := false
    worker := true
    queue := s.queue ++ [r] }

/-- The loop of `_replay_persisted_requests`, and what it raises. -/
def replayFiles (l : Json.Limits) (reads : PyStr → Bool) :
    List CallbackFile → Backlog → Backlog × Option LoadError
  | [], s => (s, none)
  | f :: fs, s =>
    match loadRequestFromFile l (reads f.name) (s.path f) f.bytes with
    | .ok (some r) => replayFiles l reads fs (s.queueRequest r)
    | .ok none => replayFiles l reads fs (s.unlink f.name)
    | .error e => (s, some e)

/-- `sorted(self.store_dir.glob(...))`. -/
def pendingFiles (s : Backlog) : List CallbackFile := s.files.mergeSort fun f g => f.name ≤ g.name

def start (l : Json.Limits) (reads : PyStr → Bool) (s : Backlog) : Backlog × Option LoadError :=
  if s.started then (s, none)
  else replayFiles l reads s.pendingFiles { s with started := true }

end Backlog

/-! ## What a replay should do -/

def hasKeys (ms : List (PyStr × Json)) : Bool :=
  ["log_id", "timestamp", "code"].all fun k => (Json.get? ms (py k)).isSome

/-- The members of a file that holds a JSON object with a request's keys. -/
def record (l : Json.Limits) (b : ByteArray) : Option (List (PyStr × Json)) :=
  match decode b with
  | none => none
  | some t =>
    match Json.loads l t with
    | .ok (.obj ms) => if hasKeys ms then some ms else none
    | _ => none

def requestOf (path : PyStr) (ms : List (PyStr × Json)) : LoadedRequest where
  logId := (Json.get? ms (py "log_id")).getD .null
  timestamp := (Json.get? ms (py "timestamp")).getD .null
  code := (Json.get? ms (py "code")).getD .null
  msg := (Json.get? ms (py "msg")).getD .null
  attempts := (Json.get? ms (py "attempts")).getD (.int 0)
  persistedPath := path

/-- The request of a file. -/
def requestIn (l : Json.Limits) (s : Backlog) (f : CallbackFile) : Option LoadedRequest :=
  (record l f.bytes).map (requestOf (s.path f))

/-- `start` returns, has queued and counted the requests of the files that could be read and are
well formed, in the order of their names, and has removed none but malformed files. -/
def Replayed (l : Json.Limits) (reads : PyStr → Bool) (s : Backlog) : Prop :=
  (s.start l reads).2 = none ∧
    (∃ fs : List CallbackFile, fs.Pairwise (fun f g => f.name < g.name) ∧
      (∀ f, f ∈ fs ↔ f ∈ s.files ∧ reads f.name = true ∧ (record l f.bytes).isSome = true) ∧
      (s.start l reads).1.queue = s.queue ++ fs.filterMap (requestIn l s) ∧
      (s.start l reads).1.pending = s.pending + fs.length) ∧
    ∀ f ∈ s.files, f ∉ (s.start l reads).1.files → reads f.name = true ∧ record l f.bytes = none

/-- Both decoders end, with a value or with an error that is caught. -/
def Decodes (l : Json.Limits) (b : ByteArray) : Prop :=
  ∃ t, decode b = some t ∧ Json.loads l t ≠ .error .nesting ∧ Json.loads l t ≠ .error .digits

/-! ## One file -/

variable {l : Json.Limits} {reads : PyStr → Bool} {b : ByteArray} {path : PyStr}

theorem fromPayload_keys {ms : List (PyStr × Json)} (h : hasKeys ms = true) :
    fromPayload path (.obj ms) = .ok (requestOf path ms) := by
  simp only [hasKeys, List.all_cons, List.all_nil, Bool.and_true, Bool.and_eq_true,
    Option.isSome_iff_exists] at h
  obtain ⟨⟨i, hi⟩, ⟨t, ht⟩, c, hc⟩ := h
  simp only [fromPayload, subscript, getOr, hi, ht, hc, requestOf, Option.getD_some]
  rfl

theorem fromPayload_error (path : PyStr) {v : Json} (h : ∀ ms, v = .obj ms → hasKeys ms = false) :
    ∃ e, fromPayload path v = .error e ∧ e.caught = true := by
  cases v with
  | obj ms =>
    have hk := h ms rfl
    simp only [hasKeys, List.all_cons, List.all_nil, Bool.and_true] at hk
    refine ⟨.keyError, ?_, rfl⟩
    cases hi : Json.get? ms (py "log_id") with
    | none => simp only [fromPayload, subscript, hi]; rfl
    | some i =>
      cases ht : Json.get? ms (py "timestamp") with
      | none => simp only [fromPayload, subscript, hi, ht]; rfl
      | some t =>
        cases hc : Json.get? ms (py "code") with
        | none => simp only [fromPayload, subscript, hi, ht, hc]; rfl
        | some c =>
          rw [hi, ht, hc] at hk
          cases hk
  | _ => exact ⟨.typeError, rfl, rfl⟩

/-- A file that cannot be read is taken for malformed. -/
theorem load_unreadable : loadRequestFromFile l false path b = .ok none := rfl

theorem load_undecoded (h : decode b = none) :
    loadRequestFromFile l true path b = .error .unicodeDecodeError := by
  simp only [loadRequestFromFile, readText, h]
  rfl

/-- A file both decoders can take is queued if it is well formed. -/
theorem load_decodes (path : PyStr) (h : Decodes l b) :
    loadRequestFromFile l true path b = .ok ((record l b).map (requestOf path)) := by
  obtain ⟨t, ht, hn, hd⟩ := h
  simp only [loadRequestFromFile, readText, record, ht, jsonLoads, if_true, bind, Except.bind]
  cases hl : Json.loads l t with
  | error e =>
    cases e with
    | invalid => rfl
    | nesting => exact absurd hl hn
    | digits => exact absurd hl hd
  | ok v =>
    by_cases hk : ∃ ms, v = .obj ms ∧ hasKeys ms = true
    · obtain ⟨ms, rfl, hk⟩ := hk
      simp only [fromPayload_keys hk, hk, if_true, Option.map_some]
    · have hno : ∀ ms, v = .obj ms → hasKeys ms = false := fun ms hv => by
        by_contra hc
        exact hk ⟨ms, hv, by simpa using hc⟩
      obtain ⟨e, he, hc⟩ := fromPayload_error path hno
      simp only [he, hc, if_true]
      cases v with
      | obj ms => simp only [hno ms rfl, Bool.false_eq_true, if_false, Option.map_none]
      | _ => rfl

theorem load_raises (path : PyStr) (h : ¬Decodes l b) :
    ∃ e, loadRequestFromFile l true path b = .error e := by
  cases ht : decode b with
  | none => exact ⟨_, load_undecoded ht⟩
  | some t =>
    simp only [loadRequestFromFile, readText, ht, jsonLoads, if_true, bind, Except.bind]
    cases hl : Json.loads l t with
    | ok v => exact absurd ⟨t, ht, by rw [hl]; simp, by rw [hl]; simp⟩ h
    | error e =>
      cases e with
      | invalid => exact absurd ⟨t, ht, by rw [hl]; simp, by rw [hl]; simp⟩ h
      | nesting => exact ⟨.recursionError, rfl⟩
      | digits => exact ⟨.valueError, rfl⟩

/-! ## The loop -/

open Backlog

variable {s : Backlog} {fs : List CallbackFile} {f : CallbackFile}

theorem replayFiles_subset (fs : List CallbackFile) (s : Backlog) :
    ∀ f ∈ (replayFiles l reads fs s).1.files, f ∈ s.files := by
  induction fs generalizing s with
  | nil => exact fun _ hf => hf
  | cons g fs ih =>
    intro f hf
    simp only [replayFiles] at hf
    split at hf
    · exact ih (s.queueRequest _) f hf
    · exact List.mem_of_mem_filter (ih (s.unlink g.name) f hf)
    · exact hf

/-- A loop that returns has decoded all it could read, and has removed what it could not. -/
theorem replayFiles_returns (h : (replayFiles l reads fs s).2 = none) :
    ∀ f ∈ fs, (reads f.name = true → Decodes l f.bytes) ∧
      (reads f.name = false → f ∉ (replayFiles l reads fs s).1.files) := by
  induction fs generalizing s with
  | nil => intro f hf; cases hf
  | cons g fs ih =>
    intro f hf
    have hg : reads g.name = true → Decodes l g.bytes := by
      intro hr
      by_contra hd
      obtain ⟨e, he⟩ := load_raises (s.path g) hd
      simp only [replayFiles, hr, he] at h
      cases h
    have hgone : reads g.name = false → g ∉ (replayFiles l reads (g :: fs) s).1.files := by
      intro hr hm
      simp only [replayFiles, hr, load_unreadable] at hm
      have hu : g ∈ (s.unlink g.name).files := replayFiles_subset fs _ g hm
      simp [unlink] at hu
    rcases List.mem_cons.mp hf with rfl | hf
    · exact ⟨hg, hgone⟩
    · simp only [replayFiles] at h ⊢
      split at h
      · exact ih h f hf
      · exact ih h f hf
      · cases h

/-- A loop that can read and decode all its files. -/
theorem replayFiles_decodes (h : ∀ f ∈ fs, reads f.name = true ∧ Decodes l f.bytes) :
    (replayFiles l reads fs s).2 = none ∧
      (replayFiles l reads fs s).1.queue = s.queue ++ fs.filterMap (requestIn l s) ∧
      (replayFiles l reads fs s).1.pending =
        s.pending + (fs.filter fun f => (record l f.bytes).isSome).length ∧
      ∀ f ∈ s.files, f ∉ (replayFiles l reads fs s).1.files →
        ∃ g ∈ fs, g.name = f.name ∧ record l g.bytes = none := by
  induction fs generalizing s with
  | nil => exact ⟨rfl, (List.append_nil _).symm, rfl, fun f hf hn => absurd hf hn⟩
  | cons g fs ih =>
    obtain ⟨hr, hd⟩ := h g (List.mem_cons_self ..)
    have hfs : ∀ f ∈ fs, reads f.name = true ∧ Decodes l f.bytes := fun f hf =>
      h f (List.mem_cons_of_mem _ hf)
    have hload := load_decodes (s.path g) hd
    cases hrec : record l g.bytes with
    | some ms =>
      have hin : requestIn l s g = some (requestOf (s.path g) ms) := by
        rw [requestIn, hrec]
        rfl
      rw [hrec] at hload
      obtain ⟨hnone, hq, hp, hf⟩ := ih (s := s.queueRequest (requestOf (s.path g) ms)) hfs
      simp only [replayFiles, hr, hload, Option.map_some]
      refine ⟨hnone, ?_, ?_, fun f hm hn => ?_⟩
      · rw [hq, List.filterMap_cons_some hin]
        exact List.append_assoc ..
      · rw [hp, List.filter_cons_of_pos (by rw [hrec]; rfl), List.length_cons]
        show s.pending + 1 + _ = _
        omega
      · obtain ⟨k, hk, hkf⟩ := hf f hm hn
        exact ⟨k, List.mem_cons_of_mem _ hk, hkf⟩
    | none =>
      have hin : requestIn l s g = none := by
        rw [requestIn, hrec]
        rfl
      rw [hrec] at hload
      obtain ⟨hnone, hq, hp, hf⟩ := ih (s := s.unlink g.name) hfs
      simp only [replayFiles, hr, hload, Option.map_none]
      refine ⟨hnone, ?_, ?_, fun f hm hn => ?_⟩
      · rw [hq, List.filterMap_cons_none hin]
        rfl
      · rw [hp, List.filter_cons_of_neg (by rw [hrec]; simp)]
        rfl
      · by_cases hname : f.name = g.name
        · exact ⟨g, List.mem_cons_self .., hname.symm, hrec⟩
        · obtain ⟨k, hk, hkf⟩ := hf f (by simp [unlink, hm, hname]) hn
          exact ⟨k, List.mem_cons_of_mem _ hk, hkf⟩

/-! ## `start` -/

theorem mem_pendingFiles : f ∈ s.pendingFiles ↔ f ∈ s.files := List.mem_mergeSort

/-- File names differ, so that they are sorted strictly. -/
theorem pendingFiles_sorted (s : Backlog) :
    s.pendingFiles.Pairwise fun f g => f.name < g.name := by
  have hle : s.pendingFiles.Pairwise fun f g => f.name ≤ g.name := by
    have h : (s.files.mergeSort fun f g => decide (f.name ≤ g.name)).Pairwise
        fun f g => decide (f.name ≤ g.name) = true := List.pairwise_mergeSort
      (fun a b c hab hbc => by simp only [decide_eq_true_eq] at *; exact le_trans hab hbc)
      (fun a b => by simpa using le_total a.name b.name) s.files
    exact h.imp fun hab => by simpa using hab
  have hne : s.pendingFiles.Pairwise fun f g => f.name ≠ g.name := by
    have hperm := List.mergeSort_perm s.files fun f g => decide (f.name ≤ g.name)
    exact List.pairwise_map.mp ((hperm.map CallbackFile.name).nodup_iff.mpr s.distinct)
  exact hle.imp₂ (fun _ _ hab hn => lt_of_le_of_ne hab hn) hne

theorem name_injective {g : CallbackFile} (hf : f ∈ s.files) (hg : g ∈ s.files)
    (h : g.name = f.name) : g = f :=
  List.inj_on_of_nodup_map s.distinct hg hf h

/-- The first `start` does what it should exactly if every callback file can be read, is UTF-8 and
brings `json.loads` neither to its nesting limit nor to the digit limit of `int`. -/
theorem replay_total (l : Json.Limits) (reads : PyStr → Bool) (s : Backlog)
    (h : s.started = false) :
    Replayed l reads s ↔ ∀ f ∈ s.files, reads f.name = true ∧ Decodes l f.bytes := by
  have hstart : s.start l reads = replayFiles l reads s.pendingFiles { s with started := true } := by
    rw [start, h]
    rfl
  constructor
  · rintro ⟨hnone, -, hremoved⟩ f hf
    rw [hstart] at hnone
    obtain ⟨hd, hgone⟩ := replayFiles_returns hnone f (mem_pendingFiles.mpr hf)
    cases hr : reads f.name with
    | true => exact ⟨rfl, hd hr⟩
    | false =>
      have hread := (hremoved f hf (by rw [hstart]; exact hgone hr)).1
      rw [hr] at hread
      cases hread
  · intro hall
    obtain ⟨hnone, hq, hp, hremoved⟩ := replayFiles_decodes (s := { s with started := true })
      fun f hf => hall f (mem_pendingFiles.mp hf)
    rw [Replayed, hstart]
    refine ⟨hnone, ⟨s.pendingFiles.filter fun f => (record l f.bytes).isSome,
      (pendingFiles_sorted s).sublist List.filter_sublist, fun f => ?_, ?_, hp⟩, fun f hf hn => ?_⟩
    · rw [List.mem_filter, mem_pendingFiles]
      exact ⟨fun ⟨hf, hr⟩ => ⟨hf, (hall f hf).1, hr⟩, fun ⟨hf, _, hr⟩ => ⟨hf, hr⟩⟩
    · rw [hq, List.filterMap_filter]
      refine congrArg (s.queue ++ ·) (List.filterMap_congr fun f _ => ?_)
      show (record l f.bytes).map _ = _
      split
      · rfl
      · rename_i hn
        rw [Option.not_isSome_iff_eq_none.mp hn]
        rfl
    · obtain ⟨g, hg, hname, hrec⟩ := hremoved f hf hn
      have he := name_injective hf (mem_pendingFiles.mp hg) hname
      subst he
      exact ⟨(hall _ hf).1, hrec⟩

/-! ## Two directories -/

/-- What was written in UTF-8 is read back. -/
theorem decode_encode (t : String) : decode t.toUTF8 = some (universalNewlines (py t)) := by
  rw [decode, String.toUTF8_eq_toByteArray, ← String.utf8Encode_toList, List.utf8Decode?_utf8Encode,
    Option.map_some, List.toList_toArray, py]

/-- The limits of an interpreter as it is started. -/
def defaultLimits : Json.Limits := ⟨990, 4300⟩

def goodText : String := "\x7b\"log_id\": 7, \"timestamp\": 1, \"code\": 200\x7d"

def goodFile : CallbackFile where
  name := py "callback-7-1-00.json"
  bytes := goodText.toUTF8

/-- A file a crash has cut in the middle of a character. -/
def cutFile : CallbackFile where
  name := py "callback-6-1-00.json"
  bytes := ⟨#[0x7b, 0x22, 0xe5, 0xa4]⟩

def backlog (files : List CallbackFile) (h : (files.map CallbackFile.name).Nodup) : Backlog where
  storeDir := py "logs"
  files := files
  distinct := h
  queue := []
  pending := 0
  pendingEmpty := true
  worker := false
  started := false

theorem replay_total_good :
    Replayed defaultLimits (fun _ => true) (backlog [goodFile] (by decide)) := by
  refine (replay_total defaultLimits (fun _ => true) (backlog [goodFile] (by decide)) rfl).mpr ?_
  intro f hf
  rw [List.mem_singleton.mp hf]
  have hload : ∃ v, Json.loads defaultLimits (py goodText) = .ok v := ⟨_, rfl⟩
  obtain ⟨v, hv⟩ := hload
  have hdecode : decode goodFile.bytes = some (py goodText) := decode_encode goodText
  exact ⟨rfl, py goodText, hdecode, by rw [hv]; simp, by rw [hv]; simp⟩

/-- The good file after it is not loaded: `start` has raised. -/
theorem replay_raises : ¬Replayed defaultLimits (fun _ => true)
    (backlog [goodFile, cutFile] (by decide)) := by
  rintro ⟨hnone, -⟩
  have hnone : (replayFiles defaultLimits (fun _ => true)
    (backlog [goodFile, cutFile] (by decide)).pendingFiles _).2 = none := hnone
  have hmem : cutFile ∈ (backlog [goodFile, cutFile] (by decide)).pendingFiles :=
    mem_pendingFiles.mpr (List.mem_cons_of_mem _ (List.mem_singleton_self _))
  obtain ⟨t, ht, -⟩ := (replayFiles_returns hnone cutFile hmem).1 rfl
  have hcut : decode cutFile.bytes = none := by decide
  rw [hcut] at ht
  cases ht

end Pyxxl
