import Mathlib.Logic.Function.Basic
import Pyxxl.Callbacks.Replay
import Pyxxl.Lib.JsonText
import Pyxxl.Lib.PosixPath
import Pyxxl.Lib.Transition

/-!
# Pyxxl.Callbacks.RoundTrip

`_persist_request` down to the bytes it writes, and `_load_request_from_file` on them, for messages
that are `None` or strings.

* `hex` is what `uuid4().hex` gives.
* a file goes by the text of its path; text mode on POSIX writes the ends of lines as they are.
* `writes`: for which paths the file system does what it is asked to.
* `persisted` records the version of a request that was written last; no code reads it.
* `Writable`: the requests that come back; `Kept`: what a run of the store keeps.
-/

namespace Pyxxl

/-! ## One request -/

structure TextRequest where
  logId : Int
  timestamp : Int
  code : Int
  msg : Option PyStr := none
  attempts : Int := 0
  persistedPath : Option PyStr := none

/-- What `_persist_request` does not catch. -/
inductive PersistError where
  | valueError
  | unicodeEncodeError
  deriving DecidableEq, Repr

def TextRequest.fields (r : TextRequest) : List (PyStr × Json) :=
  [(py "log_id", .int r.logId), (py "timestamp", .int r.timestamp), (py "code", .int r.code),
    (py "msg", r.msg.elim .null .str), (py "attempts", .int r.attempts),
    (py "persisted_path", r.persistedPath.elim .null .str)]

/-- `asdict(request)`, as `json.dumps` sees it. -/
def TextRequest.asdict (r : TextRequest) : Json := .obj r.fields

/-- `text.encode("utf-8")`. -/
def encode (t : PyStr) : Option ByteArray :=
  if t.all fun c => decide c.isValidChar then some (String.ofList (t.map Char.ofNat)).toUTF8
  else none

/-- A code point that may stand in a file name, in UTF-8 with `surrogateescape`. -/
def fsEncodable (c : Nat) : Bool := decide c.isValidChar || (0xDC80 ≤ c && c ≤ 0xDCFF)

/-- `open(path, "w")`, but for the file system. -/
def openError (path : PyStr) : Option PersistError :=
  if !path.all fsEncodable then some .unicodeEncodeError
  else if path.contains 0 then some .valueError
  else none

/-- `f"callback-{request.log_id}-{request.timestamp}-{uuid4().hex}.json"`. -/
def TextRequest.fileName (r : TextRequest) (hex : PyStr) : PyStr :=
  py "callback-" ++ pyInt r.logId ++ py "-" ++ pyInt r.timestamp ++ py "-" ++ hex ++ py ".json"

/-- The `path` of `_persist_request`. -/
def TextRequest.target (storeDir hex : PyStr) (r : TextRequest) : PyStr :=
  match r.persistedPath with
  | some (c :: p) => PosixPath.normal (c :: p)
  | _ => PosixPath.join storeDir (r.fileName hex)

/-- The request has the path of a file. -/
def TextRequest.Owns (r : TextRequest) (path : PyStr) : Prop :=
  ∃ p, r.persistedPath = some p ∧ p ≠ [] ∧ PosixPath.normal p = path

/-- The first lines of `_persist_request`: a request without a path gets one. -/
def TextRequest.withPath (l : Json.Limits) (storeDir hex : PyStr) (r : TextRequest) :
    Except PersistError TextRequest :=
  match r.persistedPath with
  | some (_ :: _) => .ok r
  | _ =>
    if Json.printable l r.logId ∧ Json.printable l r.timestamp then
      .ok { r with persistedPath := some (r.target storeDir hex) }
    else .error .valueError

/-- The loaded request equals the written one in every field. -/
def LoadedRequest.Same (q : LoadedRequest) (r : TextRequest) : Prop :=
  q.logId = .int r.logId ∧ q.timestamp = .int r.timestamp ∧ q.code = .int r.code ∧
    q.msg = r.msg.elim .null .str ∧ q.attempts = .int r.attempts ∧
    some q.persistedPath = r.persistedPath

/-! ## The store -/

structure FileStore where
  storeDir : PyStr
  request : Nat → TextRequest
  files : PyStr → Option ByteArray
  persisted : Nat → Option TextRequest

namespace FileStore

def setRequest (s : FileStore) (i : Nat) (r : TextRequest) : FileStore :=
  { s with request := Function.update s.request i r }

def setFile (s : FileStore) (path : PyStr) (b : Option ByteArray) : FileStore :=
  { s with files := Function.update s.files path b }

def setPersisted (s : FileStore) (i : Nat) (r : Option TextRequest) : FileStore :=
  { s with persisted := Function.update s.persisted i r }

/-- `path.write_text(json.dumps(asdict(request), ensure_ascii=False), encoding="utf-8")`, with its
`except`. The file is cut short before the text is encoded. -/
def writeText (l : Json.Limits) (writes : PyStr → Bool) (s : FileStore) (i : Nat) (path : PyStr)
    (r : TextRequest) : FileStore × Option PersistError :=
  match Json.dumps l r.asdict with
  | none => (s, some .valueError)
  | some text =>
    match openError path with
    | some e => (s, some e)
    | none =>
      if writes path then
        match encode text with
        | some b => ((s.setFile path (some b)).setPersisted i (some r), none)
        | none => (s.setFile path (some ByteArray.empty), some .unicodeEncodeError)
      else (s, none)

/-- `_persist_request`, and what it raises. -/
def persist (l : Json.Limits) (writes : PyStr → Bool) (s : FileStore) (i : Nat) (hex : PyStr) :
    FileStore × Option PersistError :=
  match (s.request i).withPath l s.storeDir hex with
  | .error e => (s, some e)
  | .ok r => (s.setRequest i r).writeText l writes i ((s.request i).target s.storeDir hex) r

/-- `request.attempts += 1`. -/
def attempt (s : FileStore) (i : Nat) : FileStore :=
  s.setRequest i { s.request i with attempts := (s.request i).attempts + 1 }

/-- `_delete_persisted_request`, for paths a file can have. -/
def delete (s : FileStore) (i : Nat) : FileStore :=
  match (s.request i).persistedPath with
  | some (c :: p) =>
    ((s.setFile (PosixPath.normal (c :: p)) none).setRequest i
      { s.request i with persistedPath := none }).setPersisted i none
  | _ => s

/-- `_persist_request` returns, and `_load_request_from_file` gives the request back. -/
def RoundTrips (l : Json.Limits) (s : FileStore) (i : Nat) (hex : PyStr) : Prop :=
  let after := s.persist l (fun _ => true) i hex
  let path := (s.request i).target s.storeDir hex
  after.2 = none ∧ ∃ b q, after.1.files path = some b ∧
    loadRequestFromFile l true path b = .ok (some q) ∧ q.Same (after.1.request i)

end FileStore

/-- Its integers are not too long for `int.__repr__`, its message and its path can be written in
UTF-8, and a path it already has is as `as_posix` writes it. -/
structure TextRequest.Writable (l : Json.Limits) (storeDir hex : PyStr) (r : TextRequest) :
    Prop where
  ints : ∀ z ∈ [r.logId, r.timestamp, r.code, r.attempts], Json.printable l z
  msg : ∀ t, r.msg = some t → ∀ c ∈ t, c.isValidChar
  path : ∀ c ∈ r.target storeDir hex, c.isValidChar ∧ c ≠ 0
  own : ∀ p, r.persistedPath = some p → p ≠ [] → PosixPath.normal p = p

/-! ## The text -/

variable {l : Json.Limits} {n : Nat} {r : TextRequest} {storeDir hex : PyStr}

theorem universalNewlines_id {t : PyStr} (h : ∀ c ∈ t, c ≠ 13) : universalNewlines t = t := by
  induction t with
  | nil => rfl
  | cons c t ih =>
    rw [universalNewlines, ih fun d hd => h d (List.mem_cons_of_mem _ hd)]
    · exact h c (List.mem_cons_self ..)

theorem toNat_ofNat {c : Nat} (h : c.isValidChar) : (Char.ofNat c).toNat = c := by
  rw [Char.ofNat, dif_pos h]
  rfl

/-- What was encoded is decoded, if it has no carriage returns. -/
theorem decode_of_encode {t : PyStr} {b : ByteArray} (hb : encode t = some b)
    (h13 : ∀ c ∈ t, c ≠ 13) : decode b = some t := by
  unfold encode at hb
  split at hb
  · rename_i hvalid
    cases hb
    have hpy : py (String.ofList (t.map Char.ofNat)) = t := by
      rw [py, String.toList_ofList, List.map_map]
      refine (List.map_congr_left fun c hc => ?_).trans (List.map_id t)
      exact toNat_ofNat (of_decide_eq_true (List.all_eq_true.mp hvalid c hc))
    rw [decode_encode, hpy, universalNewlines_id h13]
  · cases hb

theorem encode_isSome {t : PyStr} : (encode t).isSome = true ↔ ∀ c ∈ t, c.isValidChar := by
  unfold encode
  split
  · rename_i h
    exact iff_of_true rfl fun c hc => of_decide_eq_true (List.all_eq_true.mp h c hc)
  · rename_i h
    exact iff_of_false nofun fun hall => h (List.all_eq_true.mpr fun c hc =>
      decide_eq_true (hall c hc))

theorem TextRequest.ints_asdict (r : TextRequest) :
    Json.ints r.asdict = [r.logId, r.timestamp, r.code, r.attempts] := by
  obtain ⟨logId, timestamp, code, msg, attempts, persistedPath⟩ := r
  cases msg with
  | none => cases persistedPath <;> rfl
  | some t => cases persistedPath <;> rfl

theorem TextRequest.asdict_fits
    (h : ∀ z ∈ [r.logId, r.timestamp, r.code, r.attempts], Json.printable l z) :
    Json.Fits l (n + 1) r.asdict := by
  simp only [List.forall_mem_cons] at h
  have hopt : ∀ t : Option PyStr, Json.Fits l n (t.elim .null .str) := fun t => by
    cases t with
    | none => exact .null
    | some t => exact .str t
  have hkeys : [py "log_id", py "timestamp", py "code", py "msg", py "attempts",
    py "persisted_path"].Nodup := by decide
  refine .obj hkeys ?_
  simp only [fields, List.forall_mem_cons]
  exact ⟨.int h.1, .int h.2.1, .int h.2.2.1, hopt _, .int h.2.2.2.1, hopt _, nofun⟩

/-- What is not ASCII in the text comes from the message or the path. -/
theorem TextRequest.asdict_forall {P : Nat → Prop} (hP : ∀ c, 32 ≤ c → c < 128 → P c)
    (h : Json.Fits l n r.asdict) :
    (∀ c ∈ Json.dump r.asdict, P c) ↔
      (∀ t, r.msg = some t → ∀ c ∈ t, 128 ≤ c → P c) ∧
        ∀ p, r.persistedPath = some p → ∀ c ∈ p, 128 ≤ c → P c := by
  rw [Json.dump_forall hP h]
  have hnil : ∀ t ∈ ([] : List PyStr), ∀ c ∈ t, 128 ≤ c → P c := nofun
  have hkey : ∀ k : String, (∀ c ∈ py k, c < 128) → ∀ c ∈ py k, 128 ≤ c → P c :=
    fun k hk c hc h128 => absurd (hk c hc) (by omega)
  have hopt : ∀ t : Option PyStr, (∀ s ∈ Json.strings (t.elim .null .str), ∀ c ∈ s, 128 ≤ c → P c) ↔
      ∀ u, t = some u → ∀ c ∈ u, 128 ≤ c → P c := fun t => by
    cases t with
    | none => exact iff_of_true nofun nofun
    | some t => simp only [Option.elim, Json.strings, List.forall_mem_singleton, Option.some.injEq,
        forall_eq']
  simp only [asdict, fields, Json.strings, Json.memberStrings, List.forall_mem_cons,
    List.forall_mem_append, hopt]
  constructor
  · rintro ⟨-, -, -, -, -, -, -, hmsg, -, -, -, hpath, -⟩
    exact ⟨hmsg, hpath⟩
  · rintro ⟨hmsg, hpath⟩
    exact ⟨hkey "log_id" (by decide), hnil, hkey "timestamp" (by decide), hnil,
      hkey "code" (by decide), hnil, hkey "msg" (by decide), hmsg, hkey "attempts" (by decide),
      hnil, hkey "persisted_path" (by decide), hpath, hnil⟩

/-! ## One write -/

/-- The request with its path. -/
def TextRequest.atPath (r : TextRequest) (path : PyStr) : TextRequest :=
  { r with persistedPath := some path }

theorem TextRequest.target_normal (storeDir hex : PyStr) (r : TextRequest) :
    PosixPath.normal (r.target storeDir hex) = r.target storeDir hex := by
  unfold target
  split
  · exact PosixPath.normal_normal _
  · exact PosixPath.normal_normal _

/-- A request has a path of its own, or gets one if its file name can be written. -/
theorem TextRequest.withPath_cases (l : Json.Limits) (storeDir hex : PyStr) (r : TextRequest) :
    r.Owns (r.target storeDir hex) ∧ r.withPath l storeDir hex = .ok r ∨
      (∀ path, ¬r.Owns path) ∧ r.withPath l storeDir hex =
        if Json.printable l r.logId ∧ Json.printable l r.timestamp then
          .ok (r.atPath (r.target storeDir hex))
        else .error .valueError := by
  cases h : r.persistedPath with
  | none =>
    refine .inr ⟨?_, by rw [withPath, h]; rfl⟩
    rintro _ ⟨p, hp, -⟩
    rw [h] at hp
    cases hp
  | some p =>
    cases p with
    | nil =>
      refine .inr ⟨?_, by rw [withPath, h]; rfl⟩
      rintro _ ⟨p, hp, hne, -⟩
      rw [h] at hp
      cases hp
      exact hne rfl
    | cons c p =>
      exact .inl ⟨⟨c :: p, h, List.cons_ne_nil _ _, by rw [target, h]⟩, by rw [withPath, h]⟩

theorem TextRequest.target_of_owns (storeDir hex : PyStr) {path : PyStr} (h : r.Owns path) :
    r.target storeDir hex = path := by
  obtain ⟨p, hp, hne, rfl⟩ := h
  obtain ⟨c, p, rfl⟩ := List.exists_cons_of_ne_nil hne
  rw [target, hp]

theorem TextRequest.Writable.withPath (h : r.Writable l storeDir hex) :
    r.withPath l storeDir hex = .ok (r.atPath (r.target storeDir hex)) := by
  rcases r.withPath_cases l storeDir hex with ⟨⟨p, hp, hne, ht⟩, hw⟩ | ⟨-, hw⟩
  · rw [hw, ← ht, h.own p hp hne, atPath, ← hp]
  · rw [hw, if_pos ⟨h.ints _ (by simp), h.ints _ (by simp)⟩]

theorem TextRequest.Writable.dumps (h : r.Writable l storeDir hex) (path : PyStr) :
    Json.dumps l (r.atPath path).asdict = some (Json.dump (r.atPath path).asdict) := by
  rw [Json.dumps, ints_asdict]
  exact if_pos h.ints

theorem TextRequest.Writable.openError (h : r.Writable l storeDir hex) :
    openError (r.target storeDir hex) = none := by
  have hall : (r.target storeDir hex).all fsEncodable = true := List.all_eq_true.mpr fun c hc => by
    rw [fsEncodable, decide_eq_true (h.path c hc).1, Bool.true_or]
  have hzero : (r.target storeDir hex).contains 0 = false := by
    rw [Bool.eq_false_iff]
    intro hc
    exact (h.path 0 (List.contains_iff_mem.mp hc)).2 rfl
  rw [Pyxxl.openError, hall, hzero]
  rfl

theorem TextRequest.Writable.encode (h : r.Writable l storeDir hex) :
    ∃ b, encode (Json.dump (r.atPath (r.target storeDir hex)).asdict) = some b := by
  have hascii : ∀ c, 32 ≤ c → c < 128 → c.isValidChar := fun c _ hc => .inl (by omega)
  refine Option.isSome_iff_exists.mp (encode_isSome.mpr ?_)
  have hfits : Json.Fits l 1 (r.atPath (r.target storeDir hex)).asdict := asdict_fits h.ints
  refine (asdict_forall hascii hfits).mpr ⟨fun t ht c hc _ => ?_, ?_⟩
  · exact h.msg t ht c hc
  · intro p hp c hc _
    cases hp
    exact (h.path c hc).1

theorem load_path {b : ByteArray} {path : PyStr} {q : LoadedRequest}
    (h : loadRequestFromFile l true path b = .ok (some q)) : q.persistedPath = path := by
  by_cases hd : Decodes l b
  · rw [load_decodes path hd, Except.ok.injEq] at h
    obtain ⟨ms, -, rfl⟩ := Option.map_eq_some_iff.mp h
    rfl
  · obtain ⟨e, he⟩ := load_raises path hd
    rw [he] at h
    cases h

theorem openError_none {path : PyStr} (h : openError path = none) : ∀ c ∈ path, c ≠ 0 := by
  intro c hc h0
  unfold openError at h
  split at h
  · cases h
  · rw [if_pos (List.contains_iff_mem.mpr (h0 ▸ hc))] at h
    cases h

theorem TextRequest.atPath_owns (storeDir hex : PyStr) (r : TextRequest) (path : PyStr) :
    (r.atPath (r.target storeDir hex)).Owns path ↔ path = r.target storeDir hex := by
  have hnormal := r.target_normal storeDir hex
  refine ⟨?_, fun he => ⟨_, rfl, ?_, hnormal.trans he.symm⟩⟩
  · rintro ⟨_, ho, -, rfl⟩
    cases ho
    exact hnormal
  · rw [← hnormal]
    exact PosixPath.normal_ne_nil _

/-- Further attempts leave a persisted request writable, as long as they can be counted. -/
theorem TextRequest.Writable.again (h : r.Writable l storeDir hex) {a : Int}
    (ha : Json.printable l a) (hex' : PyStr) :
    ({ r.atPath (r.target storeDir hex) with attempts := a }).Writable l storeDir hex' where
  ints := by
    have hints := h.ints
    simp only [List.forall_mem_cons] at hints ⊢
    exact ⟨hints.1, hints.2.1, hints.2.2.1, ha, nofun⟩
  msg := h.msg
  path := by
    have howns := (r.atPath_owns storeDir hex _).mpr rfl
    have htarget : ({ r.atPath (r.target storeDir hex) with attempts := a } : TextRequest).target
        storeDir hex' = r.target storeDir hex := target_of_owns storeDir hex' howns
    rw [htarget]
    exact h.path
  own p hp _ := by
    cases hp
    exact r.target_normal storeDir hex

/-- What the text of a request tells about its message and its path. -/
theorem TextRequest.Writable.of_encode
    (hints : ∀ z ∈ [r.logId, r.timestamp, r.code, r.attempts], Json.printable l z)
    (hopen : Pyxxl.openError (r.target storeDir hex) = none)
    (hencode : (Pyxxl.encode (Json.dump (r.atPath (r.target storeDir hex)).asdict)).isSome = true)
    (hown : ∀ p, r.persistedPath = some p → p ≠ [] → PosixPath.normal p = p) :
    r.Writable l storeDir hex := by
  have hascii : ∀ c, 32 ≤ c → c < 128 → c.isValidChar := fun c _ hc => .inl (by omega)
  have hvalid : ∀ c, (128 ≤ c → c.isValidChar) → c.isValidChar := fun c hc => by
    by_cases h128 : 128 ≤ c
    · exact hc h128
    · exact .inl (by omega)
  have hfits : Json.Fits l 1 (r.atPath (r.target storeDir hex)).asdict := asdict_fits hints
  obtain ⟨hmsg, htarget⟩ := (asdict_forall hascii hfits).mp (encode_isSome.mp hencode)
  exact ⟨hints, fun t ht c hc => hvalid c (hmsg t ht c hc), fun c hc =>
    ⟨hvalid c (htarget _ rfl c hc), openError_none hopen c hc⟩, hown⟩

/-- The bytes of a request load to the request. -/
theorem load_encode {b : ByteArray} {path : PyStr} (hl : l.nesting = n + 1)
    (hints : ∀ z ∈ [r.logId, r.timestamp, r.code, r.attempts], Json.printable l z)
    (hb : encode (Json.dump (r.atPath path).asdict) = some b) :
    ∃ q, loadRequestFromFile l true path b = .ok (some q) ∧ q.Same (r.atPath path) := by
  have hfits : Json.Fits l (n + 1) (r.atPath path).asdict := TextRequest.asdict_fits hints
  have h13 : ∀ c ∈ Json.dump (r.atPath path).asdict, c ≠ 13 :=
    (Json.dump_forall (fun c h32 _ => by omega) hfits).mpr fun _ _ c _ h => by omega
  have hdecode := decode_of_encode hb h13
  have hloads := Json.loads_dump (hl ▸ hfits)
  have hrecord : record l b = some (r.atPath path).fields := by
    have hkeys : hasKeys (r.atPath path).fields = true := rfl
    rw [TextRequest.asdict] at hloads
    simp only [record, hdecode, TextRequest.asdict, hloads, hkeys, if_true]
  refine ⟨requestOf path (r.atPath path).fields, ?_, rfl, rfl, rfl, rfl, rfl, rfl⟩
  rw [load_decodes path ⟨_, hdecode, ?_, ?_⟩, hrecord]
  · rfl
  · rw [hloads]
    intro h
    cases h
  · rw [hloads]
    intro h
    cases h

namespace FileStore

variable {s s' : FileStore} {i j : Nat}

/-- A request that is writable is written, and nothing else is touched. -/
theorem persist_writable (writes : PyStr → Bool) (h : (s.request i).Writable l s.storeDir hex)
    (hw : writes ((s.request i).target s.storeDir hex) = true) :
    ∃ b, encode (Json.dump ((s.request i).atPath ((s.request i).target s.storeDir hex)).asdict) =
        some b ∧
      s.persist l writes i hex =
        ((((s.setRequest i ((s.request i).atPath ((s.request i).target s.storeDir hex))).setFile
          ((s.request i).target s.storeDir hex) (some b)).setPersisted i
            (some ((s.request i).atPath ((s.request i).target s.storeDir hex)))), none) := by
  obtain ⟨b, hb⟩ := h.encode
  refine ⟨b, hb, ?_⟩
  simp only [persist, h.withPath, writeText, h.dumps, h.openError, hw, hb, if_true]

/-- A write that returns has made the text and the bytes. -/
theorem writeText_returns {path : PyStr} (h : (s.writeText l (fun _ => true) i path r).2 = none) :
    (∀ z ∈ Json.ints r.asdict, Json.printable l z) ∧ openError path = none ∧
      (encode (Json.dump r.asdict)).isSome = true ∧
      (s.writeText l (fun _ => true) i path r).1.request = s.request := by
  unfold writeText Json.dumps at h ⊢
  by_cases hints : ∀ z ∈ Json.ints r.asdict, Json.printable l z
  · simp only [if_pos hints, if_true] at h ⊢
    cases ho : openError path with
    | some e => rw [ho] at h; cases h
    | none =>
      simp only [ho] at h ⊢
      cases hb : encode (Json.dump r.asdict) with
      | none => simp only [hb] at h; cases h
      | some b => exact ⟨hints, trivial, rfl, rfl⟩
  · simp only [if_neg hints] at h
    cases h

/-- A write that returns has made the path as well. -/
theorem persist_returns (h : (s.persist l (fun _ => true) i hex).2 = none) :
    ∃ r, (s.request i).withPath l s.storeDir hex = .ok r ∧
      (∀ z ∈ Json.ints r.asdict, Json.printable l z) ∧
      openError ((s.request i).target s.storeDir hex) = none ∧
      (encode (Json.dump r.asdict)).isSome = true ∧
      (s.persist l (fun _ => true) i hex).1.request i = r := by
  unfold persist at h ⊢
  cases hr : (s.request i).withPath l s.storeDir hex with
  | error e => rw [hr] at h; cases h
  | ok r =>
    simp only [hr] at h ⊢
    obtain ⟨hints, ho, hb, hreq⟩ := writeText_returns h
    exact ⟨r, rfl, hints, ho, hb, by rw [hreq]; exact Function.update_self ..⟩

/-- `_persist_request` and `_load_request_from_file` are a round trip exactly for these requests. -/
theorem roundTrips_iff (hl : l.nesting = n + 1) (s : FileStore) (i : Nat) (hex : PyStr) :
    RoundTrips l s i hex ↔ (s.request i).Writable l s.storeDir hex := by
  constructor
  · rintro ⟨hnone, b, q, -, hload, hsame⟩
    obtain ⟨r, hpath, hints, hopen, hencode, hreq⟩ := persist_returns hnone
    rw [hreq] at hsame
    -- the request that was written is the one it was given, with the path it was written to
    have hr : r = (s.request i).atPath ((s.request i).target s.storeDir hex) ∧
        ∀ p, (s.request i).persistedPath = some p → p ≠ [] → PosixPath.normal p = p := by
      have hq : some ((s.request i).target s.storeDir hex) = r.persistedPath := by
        rw [← load_path hload]
        exact hsame.2.2.2.2.2
      rcases (s.request i).withPath_cases l s.storeDir hex with ⟨-, hw⟩ | ⟨hno, hw⟩
      · cases hw.symm.trans hpath
        refine ⟨by rw [TextRequest.atPath, hq], fun p hp hne => ?_⟩
        rw [TextRequest.target_of_owns s.storeDir hex ⟨p, hp, hne, rfl⟩, hp] at hq
        exact Option.some.inj hq
      · rw [hw] at hpath
        split at hpath
        · cases hpath
          exact ⟨rfl, fun p hp hne => absurd ⟨p, hp, hne, rfl⟩ (hno _)⟩
        · cases hpath
    obtain ⟨rfl, hown⟩ := hr
    rw [TextRequest.ints_asdict] at hints
    exact .of_encode hints hopen hencode hown
  · intro h
    obtain ⟨b, hb, hp⟩ := persist_writable (fun _ => true) h rfl
    obtain ⟨q, hq, hsame⟩ := load_encode hl h.ints hb
    rw [RoundTrips, hp]
    refine ⟨rfl, b, q, Function.update_self .., hq, ?_⟩
    simp only [setRequest, setFile, setPersisted, Function.update_self]
    exact hsame

/-- A text that cannot be encoded costs the file what it had. -/
theorem persist_cut (h : (s.request i).withPath l s.storeDir hex = .ok r)
    (hdumps : Json.dumps l r.asdict = some (Json.dump r.asdict))
    (hopen : openError ((s.request i).target s.storeDir hex) = none)
    (hencode : encode (Json.dump r.asdict) = none) :
    (s.persist l (fun _ => true) i hex).2 = some .unicodeEncodeError ∧
      (s.persist l (fun _ => true) i hex).1.files ((s.request i).target s.storeDir hex) =
        some ByteArray.empty := by
  simp only [persist, h, writeText, hdumps, hopen, hencode, if_true]
  exact ⟨trivial, Function.update_self ..⟩

/-! ## Runs -/

/-- What happens to the requests of a store, in any order. -/
inductive Op where
  | attempt (i : Nat)
  | persist (i : Nat) (hex : PyStr)
  | delete (i : Nat)

def step (l : Json.Limits) (s : FileStore) : Op → Option FileStore
  | .attempt i => some (s.attempt i)
  | .persist i hex => some (s.persist l (fun _ => true) i hex).1
  | .delete i => some (s.delete i)

/-- `uuid4` makes a path that nobody has, and no file. -/
def Fresh (s : FileStore) (i : Nat) (hex : PyStr) : Prop :=
  (∀ path, ¬(s.request i).Owns path) →
    s.files ((s.request i).target s.storeDir hex) = none ∧
      ∀ j, ¬(s.request j).Owns ((s.request i).target s.storeDir hex)

/-- Only writable requests are persisted. -/
def Good (l : Json.Limits) (s : FileStore) : Op → Prop
  | .persist i hex => (s.request i).Writable l s.storeDir hex ∧ s.Fresh i hex
  | _ => True

/-- Requests do not share a file. -/
def Apart (s : FileStore) : Prop :=
  ∀ i j path, (s.request i).Owns path → (s.request j).Owns path → i = j

/-- The file of each persisted request loads to the version persisted last, and a request has no
other file. -/
structure Kept (l : Json.Limits) (s₀ s : FileStore) : Prop where
  loads : ∀ i r, s.persisted i = some r → ∃ path b q, r.persistedPath = some path ∧
    (s.request i).Owns path ∧ s.files path = some b ∧
    loadRequestFromFile l true path b = .ok (some q) ∧ q.Same r
  single : ∀ path, s.files path ≠ s₀.files path → s.files path = none ∨
    ∃ i r, s.persisted i = some r ∧ r.persistedPath = some path
  apart : s.Apart

variable {s₀ : FileStore}

theorem attempt_owns {path : PyStr} :
    ((s.attempt i).request j).Owns path ↔ (s.request j).Owns path := by
  have h : ((s.attempt i).request j).persistedPath = (s.request j).persistedPath := by
    by_cases hj : j = i
    · subst hj
      simp only [attempt, setRequest, Function.update_self]
    · simp only [attempt, setRequest, Function.update_of_ne hj]
  rw [TextRequest.Owns, h, TextRequest.Owns]

theorem attempt_kept (h : Kept l s₀ s) : Kept l s₀ (s.attempt i) where
  loads j r hr := by
    obtain ⟨path, b, q, hp, hown, hrest⟩ := h.loads j r hr
    exact ⟨path, b, q, hp, attempt_owns.mpr hown, hrest⟩
  single := h.single
  apart j k path hj hk := h.apart j k path (attempt_owns.mp hj) (attempt_owns.mp hk)

/-- The path a request is written to is nobody else's. -/
theorem target_own (ha : s.Apart) (hf : s.Fresh i hex)
    (h : (s.request j).Owns ((s.request i).target s.storeDir hex)) : j = i := by
  by_cases hown : ∃ path, (s.request i).Owns path
  · obtain ⟨path, hown⟩ := hown
    rw [TextRequest.target_of_owns s.storeDir hex hown] at h
    exact ha j i path h hown
  · exact absurd h ((hf (not_exists.mp hown)).2 j)

theorem persist_kept (hl : l.nesting = n + 1) (h : Kept l s₀ s)
    (hw : (s.request i).Writable l s.storeDir hex) (hf : s.Fresh i hex) :
    Kept l s₀ (s.persist l (fun _ => true) i hex).1 := by
  obtain ⟨b, hb, hp⟩ := persist_writable (fun _ => true) hw rfl
  obtain ⟨q, hq, hsame⟩ := load_encode hl hw.ints hb
  rw [hp]
  have hself : ∀ p, (s.request i).Owns p → (s.request i).target s.storeDir hex = p := fun p hown =>
    TextRequest.target_of_owns s.storeDir hex hown
  have hother := fun j (hj : j ≠ i) => fun hown => hj (target_own h.apart hf hown)
  have hnew := (s.request i).atPath_owns s.storeDir hex
  generalize (s.request i).target s.storeDir hex = path at *
  refine ⟨fun j r hr => ?_, fun p hne => ?_, fun j k p hj hk => ?_⟩
  · by_cases hj : j = i
    · subst hj
      simp only [setPersisted, setFile, setRequest, Function.update_self] at hr ⊢
      cases hr
      exact ⟨path, b, q, rfl, (hnew path).mpr rfl, Function.update_self .., hq, hsame⟩
    · simp only [setPersisted, setFile, setRequest, Function.update_of_ne hj] at hr ⊢
      obtain ⟨p, b', q', hp', hown, hfile, hload⟩ := h.loads j r hr
      have hne : p ≠ path := fun he => hother j hj (he ▸ hown)
      exact ⟨p, b', q', hp', hown, by rw [Function.update_of_ne hne, hfile], hload⟩
  · by_cases hpath : p = path
    · exact .inr ⟨i, _, Function.update_self .., by rw [hpath]; rfl⟩
    · simp only [setPersisted, setFile, setRequest, Function.update_of_ne hpath] at hne ⊢
      rcases h.single p hne with hnone | ⟨j, r, hr, hrp⟩
      · exact .inl hnone
      · by_cases hj : j = i
        · subst hj
          obtain ⟨p', -, -, hp', hown, -⟩ := h.loads j r hr
          rw [hrp] at hp'
          cases hp'
          exact absurd (hself p hown).symm hpath
        · exact .inr ⟨j, r, by rw [Function.update_of_ne hj, hr], hrp⟩
  · simp only [setPersisted, setFile, setRequest] at hj hk
    by_cases hji : j = i
    · by_cases hki : k = i
      · rw [hji, hki]
      · rw [Function.update_of_ne hki] at hk
        rw [hji, Function.update_self, hnew] at hj
        exact absurd (hj ▸ hk) (hother k hki)
    · rw [Function.update_of_ne hji] at hj
      by_cases hki : k = i
      · rw [hki, Function.update_self, hnew] at hk
        exact absurd (hk ▸ hj) (hother j hji)
      · rw [Function.update_of_ne hki] at hk
        exact h.apart j k p hj hk

theorem delete_kept (h : Kept l s₀ s) : Kept l s₀ (s.delete i) := by
  unfold delete
  split
  · rename_i c p hp
    have hown : (s.request i).Owns (PosixPath.normal (c :: p)) :=
      ⟨c :: p, hp, List.cons_ne_nil _ _, rfl⟩
    have hgone : ∀ q, ¬({ s.request i with persistedPath := none } : TextRequest).Owns q := by
      rintro q ⟨p', hp', -⟩
      cases hp'
    generalize PosixPath.normal (c :: p) = path at *
    refine ⟨fun j r hr => ?_, fun q hne => ?_, fun j k q hj hk => ?_⟩
    · by_cases hj : j = i
      · subst hj
        simp only [setPersisted, Function.update_self] at hr
        cases hr
      · simp only [setPersisted, setFile, setRequest, Function.update_of_ne hj] at hr ⊢
        obtain ⟨p', b, q, hp', hown', hfile, hload⟩ := h.loads j r hr
        have hne : p' ≠ path := fun he => hj (h.apart j i path (he ▸ hown') hown)
        exact ⟨p', b, q, hp', hown', by rw [Function.update_of_ne hne, hfile], hload⟩
    · by_cases hq : q = path
      · exact .inl (by rw [hq]; exact Function.update_self ..)
      · simp only [setPersisted, setFile, setRequest, Function.update_of_ne hq] at hne ⊢
        rcases h.single q hne with hnone | ⟨j, r, hr, hrp⟩
        · exact .inl hnone
        · by_cases hj : j = i
          · subst hj
            obtain ⟨p', -, -, hp', hown', -⟩ := h.loads j r hr
            rw [hrp] at hp'
            cases hp'
            have hs := TextRequest.target_of_owns [] [] hown
            rw [TextRequest.target_of_owns [] [] hown'] at hs
            exact absurd hs hq
          · exact .inr ⟨j, r, by rw [Function.update_of_ne hj, hr], hrp⟩
    · simp only [setPersisted, setFile, setRequest] at hj hk
      by_cases hji : j = i
      · rw [hji, Function.update_self] at hj
        exact absurd hj (hgone q)
      · by_cases hki : k = i
        · rw [hki, Function.update_self] at hk
          exact absurd hk (hgone q)
        · rw [Function.update_of_ne hji] at hj
          rw [Function.update_of_ne hki] at hk
          exact h.apart j k q hj hk
  · exact h

theorem step_kept (hl : l.nesting = n + 1) {op : Op} (h : Kept l s₀ s) (hg : s.Good l op)
    (hs : s.step l op = some s') : Kept l s₀ s' := by
  cases op with
  | attempt i =>
    cases hs
    exact attempt_kept h
  | persist i hex =>
    cases hs
    exact persist_kept hl h hg.1 hg.2
  | delete i =>
    cases hs
    exact delete_kept h

/-- Nothing was persisted yet. -/
structure Initial (s : FileStore) : Prop where
  apart : s.Apart
  persisted : ∀ i, s.persisted i = none

theorem Initial.kept (h : s.Initial) : Kept l s s where
  loads i r hr := by
    rw [h.persisted i] at hr
    cases hr
  single path hne := absurd rfl hne
  apart := h.apart

/-- A request comes back from its file exactly if it is writable, and while only writable requests
are persisted, each has one file, which loads to the version persisted last. -/
theorem persist_round_trip {n digits : Nat} {s₀ s : FileStore} (h₀ : s₀.Initial)
    (h : Transition.Steps (step ⟨n + 1, digits⟩) (Good ⟨n + 1, digits⟩) s₀ s) :
    (∀ (t : FileStore) (i : Nat) (hex : PyStr), RoundTrips ⟨n + 1, digits⟩ t i hex ↔
      (t.request i).Writable ⟨n + 1, digits⟩ t.storeDir hex) ∧
      Kept ⟨n + 1, digits⟩ s₀ s :=
  ⟨roundTrips_iff rfl, h.invariant (fun _ _ _ hk hg hs => step_kept rfl hk hg hs) h₀.kept⟩

/-! ## Two requests -/

def uuid : PyStr := py "9f86d081884c7d659a2feaa0c55ad015"

/-- A store with one request. -/
def one (r : TextRequest) : FileStore where
  storeDir := py "logs/callback"
  request := fun _ => r
  files := fun _ => none
  persisted := fun _ => none

def plain : TextRequest := { logId := 7, timestamp := 1, code := 500, msg := some (py "é\n\"") }

def surrogate : TextRequest := { logId := 7, timestamp := 1, code := 500, msg := some [0xD800] }

theorem surrogate_raises :
    (((one surrogate).persist defaultLimits (fun _ => true) 0 uuid).2 =
      some .unicodeEncodeError) ∧ ¬RoundTrips defaultLimits (one surrogate) 0 uuid := by
  have h : ((one surrogate).persist defaultLimits (fun _ => true) 0 uuid).2 =
      some .unicodeEncodeError := by decide
  exact ⟨h, fun hr => by rw [hr.1] at h; cases h⟩

theorem plain_writable : plain.Writable defaultLimits (py "logs/callback") uuid where
  ints := by decide
  msg := by
    intro t ht
    cases ht
    decide
  path := by decide
  own := nofun

theorem one_initial : (one plain).Initial where
  apart i j path h _ := by
    obtain ⟨p, hp, -⟩ := h
    cases hp
  persisted _ := rfl

theorem persist_round_trip_again : ∃ s, Transition.run (step defaultLimits) (one plain)
      [.persist 0 uuid, .attempt 0, .persist 0 uuid] = some s ∧
    (RoundTrips defaultLimits s 0 uuid ↔
      (s.request 0).Writable defaultLimits s.storeDir uuid) ∧
    Kept defaultLimits (one plain) s := by
  have hok : Transition.Allowed (step defaultLimits) (Good defaultLimits) (one plain)
      [.persist 0 uuid, .attempt 0, .persist 0 uuid] := by
    refine ⟨⟨plain_writable, fun _ => ⟨rfl, fun j => ?_⟩⟩, fun s₁ h₁ => ⟨trivial, fun s₂ h₂ => ?_⟩⟩
    · rintro ⟨p, hp, -⟩
      cases hp
    · cases h₁
      cases h₂
      refine ⟨⟨plain_writable.again (a := 1) (by decide) uuid, fun hno => ?_⟩, fun _ _ => trivial⟩
      exact absurd ((plain.atPath_owns (py "logs/callback") uuid _).mpr rfl) (hno _)
  have h := persist_round_trip (n := 989) one_initial (Transition.Steps.of_allowed hok rfl)
  exact ⟨_, rfl, h.1 _ 0 uuid, h.2⟩

end FileStore
end Pyxxl
