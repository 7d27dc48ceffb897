import Pyxxl.Lib.JsonText
import Pyxxl.Executor.Calls

/-!
# Pyxxl.Protocol.Requests

What the routes of `pyxxl/protocol/server.py` read off the body of a request.

* `RunPayload`: a `RunData` as `from_dict` makes it of the body, with values that nobody checks.
* `RunPayload.data`: the values as the executor takes them, where they have the types of their fields.
* `from_dict_sent`: whatever else the admin puts in the body, and in whatever order, the payload comes
  back.
-/

namespace Pyxxl

/-- What the routes can raise before they call the executor. -/
inductive RequestError where
  | unicodeDecodeError
  | json (e : Json.Error)
  | keyError
  | typeError
  | attributeError
  deriving DecidableEq, Repr

structure RunPayload where
  jobId : Json
  logId : Json
  executorHandler : Json
  executorBlockStrategy : Json
  executorParams : Json := .null
  executorTimeout : Json := .null
  logDateTime : Json := .null
  glueType : Json := .null
  glueSource : Json := .null
  glueUpdatetime : Json := .null
  broadcastIndex : Json := .null
  broadcastTotal : Json := .null

namespace RunPayload

/-- `{field.name for field in fields(cls)}`. -/
def classFields : List PyStr :=
  [py "jobId", py "logId", py "executorHandler", py "executorBlockStrategy", py "executorParams",
    py "executorTimeout", py "logDateTime", py "glueType", py "glueSource", py "glueUpdatetime",
    py "broadcastIndex", py "broadcastTotal"]

/-- A field with the default `None`. -/
def orNone (kwargs : List (PyStr × Json)) (k : String) : Json :=
  (Json.get? kwargs (py k)).getD .null

/-- `cls(**kwargs)`: without one of the four fields that have no default it raises. -/
def make (kwargs : List (PyStr × Json)) : Except RequestError RunPayload :=
  match Json.get? kwargs (py "jobId"), Json.get? kwargs (py "logId"),
    Json.get? kwargs (py "executorHandler"), Json.get? kwargs (py "executorBlockStrategy") with
  | some jobId, some logId, some executorHandler, some executorBlockStrategy =>
    .ok {
      jobId := jobId
      logId := logId
      executorHandler := executorHandler
      executorBlockStrategy := executorBlockStrategy
      executorParams := orNone kwargs "executorParams"
      executorTimeout := orNone kwargs "executorTimeout"
      logDateTime := orNone kwargs "logDateTime"
      glueType := orNone kwargs "glueType"
      glueSource := orNone kwargs "glueSource"
      glueUpdatetime := orNone kwargs "glueUpdatetime"
      broadcastIndex := orNone kwargs "broadcastIndex"
      broadcastTotal := orNone kwargs "broadcastTotal" }
  | _, _, _, _ => .error .typeError

def fromDict : Json → Except RequestError RunPayload
  | .obj data => make (data.filter fun m => decide (m.1 ∈ classFields))
  | _ => .error .attributeError

/-- `dataclasses.asdict`. -/
def asdict (p : RunPayload) : List (PyStr × Json) :=
  [(py "jobId", p.jobId), (py "logId", p.logId), (py "executorHandler", p.executorHandler),
    (py "executorBlockStrategy", p.executorBlockStrategy), (py "executorParams", p.executorParams),
    (py "executorTimeout", p.executorTimeout), (py "logDateTime", p.logDateTime),
    (py "glueType", p.glueType), (py "glueSource", p.glueSource),
    (py "glueUpdatetime", p.glueUpdatetime), (py "broadcastIndex", p.broadcastIndex),
    (py "broadcastTotal", p.broadcastTotal)]

/-- The string as a Lean one, where it has no unpaired surrogates. -/
def string? (t : PyStr) : Option String :=
  if py (String.ofList (t.map Char.ofNat)) = t then some (String.ofList (t.map Char.ofNat)) else none

/-- `None` or an integer. -/
def optionalInt : Json → Option (Option Int)
  | .null => some none
  | .int z => some (some z)
  | _ => none

/-- The fields the executor reads, with the types the dataclass declares. -/
def data (p : RunPayload) : Option RunData :=
  match p.jobId, p.logId, p.executorHandler, p.executorBlockStrategy with
  | .int jobId, .int logId, .str executorHandler, .str executorBlockStrategy =>
    match string? executorHandler, string? executorBlockStrategy, optionalInt p.logDateTime with
    | some executorHandler, some executorBlockStrategy, some logDateTime =>
      some ⟨jobId, logId, executorHandler, executorBlockStrategy, logDateTime⟩
    | _, _, _ => none
  | _, _, _, _ => none

/-! ## Whatever else the body says -/

/-- Members of other names stand for nothing. -/
theorem get?_filter {ms : List (PyStr × Json)} {k : PyStr} (hk : k ∈ classFields) :
    Json.get? (ms.filter fun m => decide (m.1 ∈ classFields)) k = Json.get? ms k := by
  induction ms with
  | nil => rfl
  | cons m ms ih =>
    unfold Json.get? at ih ⊢
    by_cases hm : m.1 ∈ classFields
    · rw [List.filter_cons_of_pos (by simpa using hm)]
      simp only [List.find?_cons]
      split
      · rfl
      · exact ih
    · have hne : (m.1 == k) = false := by
        simp only [beq_eq_false_iff_ne, ne_eq]
        intro he
        exact hm (he ▸ hk)
      rw [List.filter_cons_of_neg (by simpa using hm), List.find?_cons, hne]
      exact ih

theorem make_congr {ms ms' : List (PyStr × Json)}
    (h : ∀ k ∈ classFields, Json.get? ms k = Json.get? ms' k) : make ms = make ms' := by
  have hfield : ∀ k, py k ∈ classFields → Json.get? ms (py k) = Json.get? ms' (py k) :=
    fun k hk => h _ hk
  unfold make orNone
  rw [hfield "jobId" (by decide), hfield "logId" (by decide), hfield "executorHandler" (by decide),
    hfield "executorBlockStrategy" (by decide), hfield "executorParams" (by decide),
    hfield "executorTimeout" (by decide), hfield "logDateTime" (by decide),
    hfield "glueType" (by decide), hfield "glueSource" (by decide),
    hfield "glueUpdatetime" (by decide), hfield "broadcastIndex" (by decide),
    hfield "broadcastTotal" (by decide)]

theorem fromDict_obj (ms : List (PyStr × Json)) : fromDict (.obj ms) = make ms :=
  make_congr fun _ hk => get?_filter hk

/-- A member of a dictionary is what its key stands for. -/
theorem get?_of_mem {ms : List (PyStr × Json)} (hd : (ms.map Prod.fst).Nodup) {m : PyStr × Json}
    (hm : m ∈ ms) : Json.get? ms m.1 = some m.2 := by
  induction ms with
  | nil => cases hm
  | cons c ms ih =>
    obtain ⟨hnot, hrest⟩ := List.nodup_cons.mp hd
    rcases List.mem_cons.mp hm with rfl | hmem
    · simp [Json.get?]
    · have hne : (c.1 == m.1) = false := by
        simp only [beq_eq_false_iff_ne, ne_eq]
        intro he
        exact hnot (he ▸ List.mem_map_of_mem hmem)
      have hget := ih hrest hmem
      simp only [Json.get?, List.find?_cons, hne] at hget ⊢
      exact hget

theorem get?_eq_none {ms : List (PyStr × Json)} {k : PyStr} :
    Json.get? ms k = none ↔ k ∉ ms.map Prod.fst := by
  simp only [Json.get?, Option.map_eq_none_iff, List.find?_eq_none, beq_iff_eq, List.mem_map,
    not_exists, not_and]

/-- The object says what the payload says: it has the four required members, and each of the others
or nothing in its place, where it is null. It may say more, in any order. -/
structure Sends (ms : List (PyStr × Json)) (p : RunPayload) : Prop where
  distinct : (ms.map Prod.fst).Nodup
  required : ∀ m ∈ p.asdict.take 4, m ∈ ms
  optional : ∀ m ∈ p.asdict.drop 4, m ∈ ms ∨ m.1 ∉ ms.map Prod.fst ∧ m.2 = .null

theorem Sends.orNone {ms : List (PyStr × Json)} {p : RunPayload} (h : Sends ms p) {k : String}
    {v : Json} (hm : (py k, v) ∈ p.asdict.drop 4) : orNone ms k = v := by
  unfold RunPayload.orNone
  rcases h.optional _ hm with hmem | ⟨hnot, hv⟩
  · rw [get?_of_mem h.distinct hmem]
    rfl
  · rw [get?_eq_none.mpr hnot]
    exact hv.symm

theorem Sends.make {ms : List (PyStr × Json)} {p : RunPayload} (h : Sends ms p) :
    RunPayload.make ms = .ok p := by
  have hreq : ∀ {k : PyStr} {v : Json}, (k, v) ∈ p.asdict.take 4 → Json.get? ms k = some v :=
    fun hm => get?_of_mem h.distinct (h.required _ hm)
  have h1 : Json.get? ms (py "jobId") = some p.jobId := hreq (by simp [asdict])
  have h2 : Json.get? ms (py "logId") = some p.logId := hreq (by simp [asdict])
  have h3 : Json.get? ms (py "executorHandler") = some p.executorHandler := hreq (by simp [asdict])
  have h4 : Json.get? ms (py "executorBlockStrategy") = some p.executorBlockStrategy :=
    hreq (by simp [asdict])
  simp only [RunPayload.make, h1, h2, h3, h4,
    h.orNone (k := "executorParams") (v := p.executorParams) (by simp [asdict]),
    h.orNone (k := "executorTimeout") (v := p.executorTimeout) (by simp [asdict]),
    h.orNone (k := "logDateTime") (v := p.logDateTime) (by simp [asdict]),
    h.orNone (k := "glueType") (v := p.glueType) (by simp [asdict]),
    h.orNone (k := "glueSource") (v := p.glueSource) (by simp [asdict]),
    h.orNone (k := "glueUpdatetime") (v := p.glueUpdatetime) (by simp [asdict]),
    h.orNone (k := "broadcastIndex") (v := p.broadcastIndex) (by simp [asdict]),
    h.orNone (k := "broadcastTotal") (v := p.broadcastTotal) (by simp [asdict])]

/-- Without one of the required members the body is refused. -/
theorem make_error {ms : List (PyStr × Json)} {k : PyStr} (hk : k ∈ classFields.take 4)
    (hm : k ∉ ms.map Prod.fst) : make ms = .error .typeError := by
  have hnone := get?_eq_none.mpr hm
  simp only [classFields, List.take_succ_cons, List.take_zero, List.mem_cons, List.not_mem_nil,
    or_false] at hk
  unfold make
  rcases hk with rfl | rfl | rfl | rfl
  · rw [hnone]
  · rw [hnone]
    cases Json.get? ms (py "jobId") <;> rfl
  · rw [hnone]
    cases Json.get? ms (py "jobId") <;> cases Json.get? ms (py "logId") <;> rfl
  · rw [hnone]
    cases Json.get? ms (py "jobId") <;> cases Json.get? ms (py "logId") <;>
      cases Json.get? ms (py "executorHandler") <;> rfl

end RunPayload

/-! ## Bodies -/

/-- `await request.json()` once the body has arrived; `none` is a body that is no text in its
charset. -/
def requestJson (l : Json.Limits) : Option PyStr → Except RequestError Json
  | none => .error .unicodeDecodeError
  | some text =>
    match Json.loads l text with
    | .ok v => .ok v
    | .error e => .error (.json e)

/-- `data["jobId"]`. -/
def requestJobId : Json → Except RequestError Json
  | .obj data =>
    match Json.get? data (py "jobId") with
    | some v => .ok v
    | none => .error .keyError
  | _ => .error .typeError

def readRunData (l : Json.Limits) (body : Option PyStr) : Except RequestError RunPayload := do
  let data ← requestJson l body
  RunPayload.fromDict data

/-- A body written by `json.dumps` with `ensure_ascii=False`, within the limits of `json.loads` and
without floats, that says what the payload says, and whatever else, is read as the payload, in
whatever order it says it; a body that leaves a required field out is refused. -/
theorem from_dict_sent (l : Json.Limits) (ms : List (PyStr × Json))
    (hf : Json.Fits l l.nesting (.obj ms)) :
    (∀ p, RunPayload.Sends ms p → readRunData l (some (Json.dump (.obj ms))) = .ok p) ∧
    ((∃ k ∈ RunPayload.classFields.take 4, k ∉ ms.map Prod.fst) →
      readRunData l (some (Json.dump (.obj ms))) = .error .typeError) := by
  have hread : readRunData l (some (Json.dump (.obj ms))) = RunPayload.make ms := by
    rw [← RunPayload.fromDict_obj]
    simp only [readRunData, requestJson, Json.loads_dump hf]
    rfl
  rw [hread]
  refine ⟨fun p h => h.make, fun h => ?_⟩
  obtain ⟨k, hk, hm⟩ := h
  exact RunPayload.make_error hk hm

/-- A body in an order of its own, with a member that no field has. -/
def sentMembers : List (PyStr × Json) :=
  [(py "logId", .int 5), (py "glueType", .str (py "BEAN")), (py "jobId", .int 1),
    (py "traceId", .arr [.null]), (py "executorBlockStrategy", .str []),
    (py "executorHandler", .str (py "demo"))]

def sentPayload : RunPayload where
  jobId := .int 1
  logId := .int 5
  executorHandler := .str (py "demo")
  executorBlockStrategy := .str []
  glueType := .str (py "BEAN")

theorem from_dict_sent_members :
    readRunData ⟨990, 4300⟩ (some (Json.dump (.obj sentMembers))) = .ok sentPayload := by
  refine (from_dict_sent ⟨990, 4300⟩ sentMembers (.obj (by decide) fun m hm => ?_)).1 sentPayload
    ⟨by decide, fun m hm => ?_, fun m hm => ?_⟩
  · simp only [sentMembers, List.mem_cons, List.not_mem_nil, or_false] at hm
    rcases hm with rfl | rfl | rfl | rfl | rfl | rfl
    · exact .int (by decide)
    · exact .str _
    · exact .int (by decide)
    · exact .arr fun x hx => by
        rw [List.mem_singleton.mp hx]
        exact .null
    · exact .str _
    · exact .str _
  · simp only [RunPayload.asdict, sentPayload, List.take_succ_cons, List.take_zero, List.mem_cons,
      List.not_mem_nil, or_false] at hm
    rcases hm with rfl | rfl | rfl | rfl <;> simp [sentMembers]
  · simp only [RunPayload.asdict, sentPayload, List.drop_succ_cons, List.drop_zero, List.mem_cons,
      List.not_mem_nil, or_false] at hm
    rcases hm with rfl | rfl | rfl | rfl | rfl | rfl | rfl | rfl
    · exact .inr ⟨by decide, rfl⟩
    · exact .inr ⟨by decide, rfl⟩
    · exact .inr ⟨by decide, rfl⟩
    · exact .inl (by simp [sentMembers])
    · exact .inr ⟨by decide, rfl⟩
    · exact .inr ⟨by decide, rfl⟩
    · exact .inr ⟨by decide, rfl⟩
    · exact .inr ⟨by decide, rfl⟩

end Pyxxl
