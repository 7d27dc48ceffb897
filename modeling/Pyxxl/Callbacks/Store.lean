import Mathlib.Algebra.Group.Nat.Defs
import Mathlib.Logic.Function.Basic
import Pyxxl.Model

/-!
# Pyxxl.Callbacks.Store

The `CallbackRequest` objects of a `CallbackManager` and its files in `store_dir`
(`pyxxl/runtime/callbacks.py`): `_persist_request` and `_delete_persisted_request`.

* a request object goes by the number of its creation.
* `home` records the path a request was ever given; no code reads it.
* `writes`, `unlinks`: for which requests the file system does what it is asked to.
-/

namespace Pyxxl

/-! ## What can be written -/

/-- `int.__repr__` refuses integers of more than 4300 digits. -/
def intPrintable (z : Int) : Bool := z.natAbs < 10 ^ 4300

def PyKey.dumpable : PyKey → Bool
  | .int z => intPrintable z
  | .object => false
  | _ => true

mutual

/-- `json.dumps` accepts the value. -/
def PyVal.dumpable : PyVal → Bool
  | .none | .bool _ | .float _ | .str _ => true
  | .int z => intPrintable z
  | .list xs => dumpableList xs
  | .dict items => dumpableItems items
  | .object dumped _ => dumpableData dumped

def dumpableList : List PyVal → Bool
  | [] => true
  | x :: xs => x.dumpable && dumpableList xs

def dumpableItems : List (PyKey × PyVal) → Bool
  | [] => true
  | (k, x) :: rest => k.dumpable && x.dumpable && dumpableItems rest

def dumpableData : Option PyVal → Bool
  | none => false
  | some x => x.dumpable

end

/-- A code point that UTF-8 has no encoding for. -/
def isSurrogate (c : Nat) : Bool := 0xD800 ≤ c && c ≤ 0xDFFF

def PyStr.utf8 (s : PyStr) : Bool := s.all fun c => !isSurrogate c

def PyKey.utf8 : PyKey → Bool
  | .str s => PyStr.utf8 s
  | _ => true

mutual

/-- The text of the value, with `ensure_ascii=False`, can be encoded in UTF-8. -/
def PyVal.utf8 : PyVal → Bool
  | .str s => PyStr.utf8 s
  | .list xs => utf8List xs
  | .dict items => utf8Items items
  | .object dumped _ => utf8Data dumped
  | _ => true

def utf8List : List PyVal → Bool
  | [] => true
  | x :: xs => x.utf8 && utf8List xs

def utf8Items : List (PyKey × PyVal) → Bool
  | [] => true
  | (k, x) :: rest => k.utf8 && x.utf8 && utf8Items rest

def utf8Data : Option PyVal → Bool
  | none => true
  | some x => x.utf8

end

mutual

/-- `asdict`, on the value of a field. It goes through lists and dictionaries, and copies what is in
them. -/
def PyVal.asdict : PyVal → Option PyVal
  | .list xs => (asdictList xs).map .list
  | .dict items => (asdictItems items).map .dict
  | .object _ asdicted => asdicted
  | v => some v

def asdictList : List PyVal → Option (List PyVal)
  | [] => some []
  | x :: xs => do some ((← x.asdict) :: (← asdictList xs))

def asdictItems : List (PyKey × PyVal) → Option (List (PyKey × PyVal))
  | [] => some []
  | (k, x) :: rest => do some ((k, ← x.asdict) :: (← asdictItems rest))

end

mutual

/-- Nothing but plain data, such as `json.loads` gives. -/
def PyVal.plain : PyVal → Bool
  | .list xs => plainList xs
  | .dict items => plainItems items
  | .object _ _ => false
  | _ => true

def plainList : List PyVal → Bool
  | [] => true
  | x :: xs => x.plain && plainList xs

def plainItems : List (PyKey × PyVal) → Bool
  | [] => true
  | (_, x) :: rest => x.plain && plainItems rest

end

mutual

/-- `asdict` leaves plain data as it is. -/
theorem PyVal.plain_asdict (v : PyVal) (h : v.plain = true) : v.asdict = some v := by
  cases v with
  | list xs => simp [PyVal.asdict, plainList_asdict xs (by simpa [PyVal.plain] using h)]
  | dict items => simp [PyVal.asdict, plainItems_asdict items (by simpa [PyVal.plain] using h)]
  | object dumped asdicted => simp [PyVal.plain] at h
  | _ => rfl

theorem plainList_asdict (xs : List PyVal) (h : plainList xs = true) : asdictList xs = some xs := by
  cases xs with
  | nil => rfl
  | cons x xs =>
    simp only [plainList, Bool.and_eq_true] at h
    simp [asdictList, PyVal.plain_asdict x h.1, plainList_asdict xs h.2]

theorem plainItems_asdict (items : List (PyKey × PyVal)) (h : plainItems items = true) :
    asdictItems items = some items := by
  cases items with
  | nil => rfl
  | cons kx rest =>
    obtain ⟨k, x⟩ := kx
    simp only [plainItems, Bool.and_eq_true] at h
    simp [asdictItems, PyVal.plain_asdict x h.1, plainItems_asdict rest h.2]

end

/-- `path.write_text(json.dumps(asdict(request), ensure_ascii=False), encoding="utf-8")` does not
raise, but for the file system. -/
def PyVal.storable (v : PyVal) : Bool :=
  match v.asdict with
  | some w => w.dumpable && w.utf8
  | .none => false

theorem PyVal.storable_cases {v : PyVal} (h : v.storable = true) :
    ∃ w, v.asdict = some w ∧ w.dumpable = true ∧ w.utf8 = true := by
  unfold PyVal.storable at h
  split at h
  · rename_i w hw
    exact ⟨w, hw, Bool.and_eq_true_iff.mp h⟩
  · cases h

theorem PyVal.storable_plain {v : PyVal} (h : v.storable = true) (hp : v.plain = true) :
    v.dumpable = true := by
  obtain ⟨w, hw, hd, -⟩ := PyVal.storable_cases h
  rw [PyVal.plain_asdict v hp] at hw
  cases hw
  exact hd

/-! ## Requests and files -/

/-- `asdict(request)`, as the request that is loaded from it. -/
def CallbackRequest.asdict (r : CallbackRequest) : Option CallbackRequest :=
  r.msg.asdict.map fun msg => { r with msg := msg }

/-- A callback file: a request as `asdict` gave it, or anything `_load_request_from_file` rejects.
What is no UTF-8 text it does not reject: the `UnicodeDecodeError` leaves it, and `start`. -/
inductive StoredFile where
  | whole (request : CallbackRequest)
  | broken
  | undecodable

/-- `path.read_text(encoding="utf-8")` gives a text, or an `OSError`. -/
def StoredFile.decodes : Option StoredFile → Bool
  | some .undecodable => false
  | _ => true

structure Store where
  request : Nat → CallbackRequest
  files : CallbackPath → Option StoredFile
  nextUuid : Nat
  home : Nat → Option CallbackPath

namespace Store

def noRequest : CallbackRequest := { logId := 0, timestamp := 0, code := 0, msg := .none }

def init (files : CallbackPath → Option StoredFile) (nextUuid : Nat) : Store :=
  { request := fun _ => noRequest, files := files, nextUuid := nextUuid, home := fun _ => none }

def setFile (st : Store) (p : CallbackPath) (f : Option StoredFile) : Store :=
  { st with files := Function.update st.files p f }

def setRequest (st : Store) (i : Nat) (r : CallbackRequest) : Store :=
  { st with request := Function.update st.request i r }

/-- A request object is created, or loaded from its file. -/
def add (st : Store) (i : Nat) (r : CallbackRequest) : Store :=
  { st.setRequest i r with home := Function.update st.home i r.persistedPath }

/-- `request.attempts += 1`. -/
def attempt (st : Store) (i : Nat) : Store :=
  st.setRequest i { st.request i with attempts := (st.request i).attempts + 1 }

/-- The first lines of `_persist_request`: a request without a path gets one. -/
def assignPath (st : Store) (i : Nat) : Store :=
  match (st.request i).persistedPath with
  | some _ => st
  | none =>
    let p : CallbackPath := ⟨(st.request i).logId, (st.request i).timestamp, st.nextUuid⟩
    { st.setRequest i { st.request i with persistedPath := some p } with
      nextUuid := st.nextUuid + 1
      home := Function.update st.home i (some p) }

/-- The text of request `i` is written to `p`. Text that cannot be encoded leaves the file cut
short, and raises as `asdict` and `json.dumps` do; an `OSError` is caught. The flag tells whether the
call has returned. -/
def writeText (st : Store) (i : Nat) (p : CallbackPath) (writes : Nat → Bool) : Store × Bool :=
  match (st.request i).asdict with
  | some r =>
    if r.msg.dumpable then
      if writes i then
        if r.msg.utf8 then (st.setFile p (some (.whole r)), true)
        else (st.setFile p (some .broken), false)
      else (st, true)
    else (st, false)
  | none => (st, false)

/-- `_persist_request`. -/
def persist (st : Store) (i : Nat) (writes : Nat → Bool) : Store × Bool :=
  let st₁ := st.assignPath i
  match (st₁.request i).persistedPath with
  | some p => st₁.writeText i p writes
  | none => (st₁, true)

/-- `_delete_persisted_request`. -/
def delete (st : Store) (i : Nat) (unlinks : Nat → Bool) : Store :=
  match (st.request i).persistedPath with
  | none => st
  | some p =>
    (if unlinks i then st.setFile p none else st).setRequest i
      { st.request i with persistedPath := none }

/-- A file of the request holds all of it, as `asdict` makes it. -/
def Stored (st : Store) (i : Nat) : Prop :=
  ∃ p r, (st.request i).persistedPath = some p ∧ st.files p = some (.whole r) ∧
    (st.request i).asdict = some { r with persistedPath := some p }

/-- No file that was ever the request's is left. -/
def Gone (st : Store) (i : Nat) : Prop := ∀ p, st.home i = some p → st.files p = none

/-! ## The store keeps the files of its requests apart -/

structure Ok (st : Store) : Prop where
  home : ∀ i p, (st.request i).persistedPath = some p → st.home i = some p
  apart : ∀ i j p, st.home i = some p → st.home j = some p → i = j
  used : ∀ i p, st.home i = some p → p.uuid < st.nextUuid

variable {st st' : Store} {i j : Nat} {p : CallbackPath}

theorem init_ok (files : CallbackPath → Option StoredFile) (n : Nat) : Ok (init files n) where
  home i p h := by cases h
  apart i j p h := by cases h
  used i p h := by cases h

/-- `st'` differs from `st` in the request `i`, its home and its file only. -/
structure Only (st : Store) (i : Nat) (st' : Store) : Prop where
  request : ∀ j, j ≠ i → st'.request j = st.request j
  home : ∀ j, j ≠ i → st'.home j = st.home j
  files : ∀ p, st'.home i ≠ some p → st'.files p = st.files p

theorem Only.stored (h : Only st i st') (hok : st'.Ok) (hj : j ≠ i) (hs : st.Stored j) :
    st'.Stored j := by
  obtain ⟨p, r, hp, hf, hr⟩ := hs
  rw [← h.request j hj] at hp hr
  refine ⟨p, r, hp, ?_, hr⟩
  rw [h.files p fun hi => hj (hok.apart j i p (hok.home j p hp) hi)]
  exact hf

theorem Only.gone (h : Only st i st') (hok : st'.Ok) (hj : j ≠ i) (hg : st.Gone j) :
    st'.Gone j := by
  intro p hp
  rw [h.files p fun hi => hj (hok.apart j i p hp hi)]
  exact hg p (by rw [← h.home j hj]; exact hp)

theorem setFile_ok (h : st.Ok) (p : CallbackPath) (f : Option StoredFile) : (st.setFile p f).Ok :=
  ⟨h.home, h.apart, h.used⟩

theorem attempt_ok (h : st.Ok) (i : Nat) : (st.attempt i).Ok where
  home j p hp := by
    by_cases hj : j = i
    · subst hj; exact h.home j p (by simpa [attempt, setRequest] using hp)
    · exact h.home j p (by simpa [attempt, setRequest, hj] using hp)
  apart := h.apart
  used := h.used

theorem attempt_only (st : Store) (i : Nat) : Only st i (st.attempt i) where
  request j hj := by simp [attempt, setRequest, hj]
  home _ _ := rfl
  files _ _ := rfl

theorem assignPath_ok (h : st.Ok) (i : Nat) : (st.assignPath i).Ok := by
  unfold assignPath
  split
  · exact h
  · rename_i hn
    -- the new path is nobody's: its uuid is fresh
    have hfresh : ∀ j p, st.home j = some p → p.uuid ≠ st.nextUuid := fun j p hp =>
      Nat.ne_of_lt (h.used j p hp)
    refine ⟨fun j p hp => ?_, fun j k p hj hk => ?_, fun j p hp => ?_⟩
    · by_cases hj : j = i
      · subst hj; simpa [setRequest] using hp
      · simp only [setRequest, Function.update_of_ne hj] at hp ⊢
        exact h.home j p hp
    · by_cases hj' : j = i
      · by_cases hk' : k = i
        · rw [hj', hk']
        · simp only [hj', Function.update_self, Function.update_of_ne hk'] at hj hk
          cases hj
          exact absurd rfl (hfresh k _ hk)
      · by_cases hk' : k = i
        · simp only [hk', Function.update_self, Function.update_of_ne hj'] at hj hk
          cases hk
          exact absurd rfl (hfresh j _ hj)
        · simp only [Function.update_of_ne hj', Function.update_of_ne hk'] at hj hk
          exact h.apart j k p hj hk
    · by_cases hj : j = i
      · simp only [hj, Function.update_self] at hp
        cases hp
        exact Nat.lt_succ_self _
      · simp only [Function.update_of_ne hj] at hp
        exact Nat.lt_succ_of_lt (h.used j p hp)

theorem assignPath_only (st : Store) (i : Nat) : Only st i (st.assignPath i) := by
  unfold assignPath
  split
  · exact ⟨fun _ _ => rfl, fun _ _ => rfl, fun _ _ => rfl⟩
  · exact ⟨fun j hj => by simp [setRequest, hj], fun j hj => by simp [hj], fun _ _ => rfl⟩

/-- The request is the same message, with a path. -/
theorem assignPath_request (st : Store) (i : Nat) :
    ∃ p, ((st.assignPath i).request i) = { st.request i with persistedPath := some p } := by
  unfold assignPath
  split
  · rename_i p hp; exact ⟨p, by rw [← hp]⟩
  · exact ⟨_, by simp [setRequest]; rfl⟩

/-- What is written, if anything is. -/
theorem writeText_cases (st : Store) (i : Nat) (p : CallbackPath) (writes : Nat → Bool) :
    (st.writeText i p writes).1 = st ∨ ∃ f, (st.writeText i p writes).1 = st.setFile p (some f) := by
  unfold writeText
  split
  · split
    · split
      · split
        · exact .inr ⟨_, rfl⟩
        · exact .inr ⟨_, rfl⟩
      · exact .inl rfl
    · exact .inl rfl
  · exact .inl rfl

theorem writeText_ok (h : st.Ok) (i : Nat) (p : CallbackPath) (writes : Nat → Bool) :
    (st.writeText i p writes).1.Ok := by
  rcases writeText_cases st i p writes with he | ⟨f, he⟩
  · rw [he]
    exact h
  · rw [he]
    exact setFile_ok h ..

theorem persist_ok (h : st.Ok) (i : Nat) (writes : Nat → Bool) : (st.persist i writes).1.Ok := by
  have h₁ := assignPath_ok h i
  simp only [persist]
  split
  · exact writeText_ok h₁ ..
  · exact h₁

theorem writeText_only (h : (st.request i).persistedPath = some p) (hok : st.Ok)
    (writes : Nat → Bool) : Only st i (st.writeText i p writes).1 := by
  rcases writeText_cases st i p writes with he | ⟨f, he⟩
  · rw [he]
    exact ⟨fun _ _ => rfl, fun _ _ => rfl, fun _ _ => rfl⟩
  · rw [he]
    refine ⟨fun _ _ => rfl, fun _ _ => rfl, fun q hq => ?_⟩
    refine Function.update_of_ne (fun hqp => hq ?_) _ _
    rw [hqp]
    exact hok.home i p h

theorem Only.trans {st'' : Store} (h₁ : Only st i st') (h₂ : Only st' i st'')
    (hh : st''.home i = st'.home i) : Only st i st'' where
  request j hj := (h₂.request j hj).trans (h₁.request j hj)
  home j hj := (h₂.home j hj).trans (h₁.home j hj)
  files p hp := (h₂.files p hp).trans (h₁.files p (by rw [← hh]; exact hp))

theorem writeText_same (st : Store) (i : Nat) (p : CallbackPath) (writes : Nat → Bool) :
    (st.writeText i p writes).1.request = st.request ∧
      (st.writeText i p writes).1.home = st.home ∧
      (st.writeText i p writes).1.nextUuid = st.nextUuid := by
  rcases writeText_cases st i p writes with he | ⟨f, he⟩
  · rw [he]
    exact ⟨rfl, rfl, rfl⟩
  · rw [he]
    exact ⟨rfl, rfl, rfl⟩

/-- What `_persist_request` does, once the path is there. -/
theorem persist_eq (st : Store) (i : Nat) (writes : Nat → Bool) :
    ∃ p, (st.assignPath i).request i = { st.request i with persistedPath := some p } ∧
      st.persist i writes = (st.assignPath i).writeText i p writes := by
  obtain ⟨p, hp⟩ := assignPath_request st i
  refine ⟨p, hp, ?_⟩
  have hpath : ((st.assignPath i).request i).persistedPath = some p := by rw [hp]
  simp only [persist, hpath]

theorem persist_only (h : st.Ok) (i : Nat) (writes : Nat → Bool) :
    Only st i (st.persist i writes).1 := by
  obtain ⟨p, hp, he⟩ := persist_eq st i writes
  rw [he]
  refine (assignPath_only st i).trans (writeText_only (by rw [hp]) (assignPath_ok h i) writes) ?_
  rw [(writeText_same ..).2.1]

/-- The request stays the same message. -/
theorem persist_request (st : Store) (i : Nat) (writes : Nat → Bool) :
    ∃ p, (st.persist i writes).1.request i = { st.request i with persistedPath := some p } := by
  obtain ⟨p, hp, he⟩ := persist_eq st i writes
  exact ⟨p, by rw [he, (writeText_same ..).1, hp]⟩

/-- A path changes nothing of what `asdict` makes of the message. -/
theorem asdict_path {r : CallbackRequest} {w : PyVal} (h : r.msg.asdict = some w)
    (path : Option CallbackPath) : CallbackRequest.asdict { r with persistedPath := path } =
      some { r with msg := w, persistedPath := path } := by
  simp [CallbackRequest.asdict, h]

/-- A request that can be written is stored, and the call returns. -/
theorem persist_stored {writes : Nat → Bool} (hs : (st.request i).msg.storable = true)
    (hw : writes i = true) : (st.persist i writes).1.Stored i ∧ (st.persist i writes).2 = true := by
  obtain ⟨p, hp, he⟩ := persist_eq st i writes
  obtain ⟨w, ha, hd, hu⟩ := PyVal.storable_cases hs
  have hdict : ((st.assignPath i).request i).asdict =
      some { st.request i with msg := w, persistedPath := some p } := by
    rw [hp]
    exact asdict_path ha _
  rw [he]
  simp only [writeText, hdict, hd, hu, hw, if_true]
  refine ⟨⟨p, { st.request i with msg := w, persistedPath := some p }, ?_, ?_, ?_⟩, trivial⟩
  · simp only [setFile, hp]
  · simp only [setFile, Function.update_self]
  · exact hdict

/-- `_persist_request` raises exactly when its text cannot be made, or cannot be encoded. -/
theorem persist_raises (st : Store) (i : Nat) (writes : Nat → Bool) :
    (st.persist i writes).2 = false ↔
      ∀ w, (st.request i).msg.asdict = some w →
        w.dumpable = false ∨ writes i = true ∧ w.utf8 = false := by
  obtain ⟨p, hp, he⟩ := persist_eq st i writes
  rw [he, writeText, hp]
  cases ha : (st.request i).msg.asdict with
  | none => simp [CallbackRequest.asdict, ha]
  | some w =>
    rw [asdict_path ha]
    cases hd : w.dumpable <;> cases hw : writes i <;> cases hu : w.utf8 <;> simp [hd, hu]

/-! ## New requests -/

theorem add_only (st : Store) (i : Nat) (r : CallbackRequest) : Only st i (st.add i r) where
  request j hj := by simp [add, setRequest, hj]
  home j hj := by simp [add, hj]
  files _ _ := rfl

/-- A loaded request keeps the path of its file, which is nobody else's. -/
theorem add_ok (h : st.Ok) (hi : st.home i = none) {r : CallbackRequest}
    (hr : ∀ p, r.persistedPath = some p → (∀ j, st.home j ≠ some p) ∧ p.uuid < st.nextUuid) :
    (st.add i r).Ok := by
  have hself : (st.add i r).home i = r.persistedPath := by simp [add]
  have hother : ∀ j, j ≠ i → (st.add i r).home j = st.home j := fun j hj => by simp [add, hj]
  refine ⟨fun j p hp => ?_, fun j k p hj hk => ?_, fun j p hp => ?_⟩
  · by_cases hj : j = i
    · subst hj
      rw [hself]
      simpa [add, setRequest] using hp
    · rw [hother j hj]
      exact h.home j p (by simpa [add, setRequest, hj] using hp)
  · by_cases hj' : j = i
    · by_cases hk' : k = i
      · rw [hj', hk']
      · rw [hj', hself] at hj
        rw [hother k hk'] at hk
        exact absurd hk ((hr p hj).1 k)
    · rw [hother j hj'] at hj
      by_cases hk' : k = i
      · rw [hk', hself] at hk
        exact absurd hj ((hr p hk).1 j)
      · rw [hother k hk'] at hk
        exact h.apart j k p hj hk
  · by_cases hj : j = i
    · rw [hj, hself] at hp
      exact (hr p hp).2
    · rw [hother j hj] at hp
      exact h.used j p hp

/-! ## Deleting -/

/-- The file of a request is gone once the request has lost its path. -/
def Tidy (st : Store) : Prop :=
  ∀ i p, st.home i = some p → (st.request i).persistedPath = some p ∨ st.files p = none

theorem Only.tidy (h : Only st i st') (hok : st'.Ok) (ht : st.Tidy)
    (hi : ∀ p, st'.home i = some p →
      (st'.request i).persistedPath = some p ∨ st'.files p = none) : st'.Tidy := by
  intro j p hp
  by_cases hj : j = i
  · subst hj; exact hi p hp
  · rw [h.files p fun he => hj (hok.apart j i p hp he), h.request j hj]
    exact ht j p (by rw [← h.home j hj]; exact hp)

theorem delete_ok (h : st.Ok) (i : Nat) (unlinks : Nat → Bool) : (st.delete i unlinks).Ok := by
  have hset : ∀ st₁ : Store, st₁.Ok → (st₁.setRequest i
      { st₁.request i with persistedPath := none }).Ok := by
    intro st₁ h₁
    refine ⟨fun j p hp => ?_, h₁.apart, h₁.used⟩
    by_cases hj : j = i
    · subst hj; simp [setRequest] at hp
    · exact h₁.home j p (by simpa [setRequest, hj] using hp)
  unfold delete
  split
  · exact h
  · split
    · exact hset (st.setFile _ none) (setFile_ok h _ _)
    · exact hset st h

theorem delete_only (h : st.Ok) (i : Nat) (unlinks : Nat → Bool) :
    Only st i (st.delete i unlinks) := by
  unfold delete
  split
  · exact ⟨fun _ _ => rfl, fun _ _ => rfl, fun _ _ => rfl⟩
  · rename_i p hp
    split
    · refine ⟨fun j hj => by simp [setRequest, setFile, hj], fun _ _ => rfl, fun q hq => ?_⟩
      refine Function.update_of_ne (fun he => hq ?_) _ _
      rw [he]
      exact h.home i p hp
    · exact ⟨fun j hj => by simp [setRequest, hj], fun _ _ => rfl, fun _ _ => rfl⟩

theorem delete_home (st : Store) (i : Nat) (unlinks : Nat → Bool) :
    (st.delete i unlinks).home = st.home := by
  unfold delete
  split
  · rfl
  · split <;> rfl

theorem delete_request (st : Store) (i : Nat) (unlinks : Nat → Bool) :
    (st.delete i unlinks).request i = { st.request i with persistedPath := none } := by
  unfold delete
  split
  · rename_i hp; rw [← hp]
  · split <;> simp [setRequest]

/-- A delivered request leaves no file. -/
theorem delete_gone (h : st.Ok) (ht : st.Tidy) {unlinks : Nat → Bool} (hu : unlinks i = true) :
    (st.delete i unlinks).Gone i := by
  intro p hp
  rw [delete_home] at hp
  unfold delete
  split
  · rename_i hn
    rcases ht i p hp with hi | hf
    · rw [hn] at hi; cases hi
    · exact hf
  · rename_i q hq
    have he : q = p := Option.some.inj ((h.home i q hq).symm.trans hp)
    simp [hu, setFile, setRequest, he]

end Store
end Pyxxl
