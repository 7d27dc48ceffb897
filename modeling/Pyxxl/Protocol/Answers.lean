import Pyxxl.Protocol.AdminClient

/-!
# Pyxxl.Protocol.Answers

What an answer of an admin is, by its status, its body and the keys of the JSON object in it:
`Accepted`, `Refused`, `Unreachable` or `Unusable`. `_post_once` returns, or raises one of the two
errors that `_post` goes on after, or another one, accordingly (`postOnce_comes`).
-/

namespace Pyxxl
namespace XXL

variable {a : Answer} {r : HttpResponse} {items : List (PyKey × PyVal)} {code msg : PyVal}
  {e : HttpError}

/-- aiohttp raises `e`, before there is a response or while its body is read. -/
inductive Raises (e : HttpError) : Answer → Prop where
  | post : Raises e (.error e)
  | json {r : HttpResponse} (hs : r.status = 200) (hj : r.json = .error e) : Raises e (.ok r)
  | text {r : HttpResponse} (hs : r.status ≠ 200) (ht : r.text = .error e) : Raises e (.ok r)

/-- The members of a JSON object that `Response(**data)` takes. -/
structure Keywords (items : List (PyKey × PyVal)) (code msg : PyVal) : Prop where
  keys : ∀ kv ∈ items, isStr kv.1 = true
  self : item items "self" = none
  code : item items "code" = some code
  msg : msg = (item items "msg").getD .none

def Is200 (code : PyVal) : Prop := code = .int 200 ∨ code = .float (py "200.0")

/-- Status 200, with an object whose `code` is 200. -/
inductive Accepted : Answer → Response → Prop where
  | mk {r : HttpResponse} {items : List (PyKey × PyVal)} {code msg : PyVal} (hs : r.status = 200)
      (hj : r.json = .ok (.dict items)) (hk : Keywords items code msg) (hc : Is200 code) :
      Accepted (.ok r) ⟨code, msg⟩

/-- Another status, or another `code`, with the message of the error. -/
inductive Refused : Answer → PyVal → Prop where
  | status {r : HttpResponse} {text : PyStr} (hs : r.status ≠ 200) (ht : r.text = .ok text) :
      Refused (.ok r) (.str text)
  | code {r : HttpResponse} {items : List (PyKey × PyVal)} {code msg : PyVal} (hs : r.status = 200)
      (hj : r.json = .ok (.dict items)) (hk : Keywords items code msg) (hc : ¬Is200 code) :
      Refused (.ok r) (if truthy msg then msg else .str [])

/-- A connection error or a timeout. -/
def Unreachable (a : Answer) (text : PyStr) : Prop :=
  Raises (.connection text) a ∨ Raises (.timeout text) a

/-- Status 200, with JSON data that `Response(**data)` does not take. -/
inductive Misfit : Answer → Prop where
  | noObject {r : HttpResponse} {data : PyVal} (hs : r.status = 200) (hj : r.json = .ok data)
      (hd : ∀ items, data ≠ .dict items) : Misfit (.ok r)
  | key {r : HttpResponse} {items : List (PyKey × PyVal)} {kv : PyKey × PyVal}
      (hs : r.status = 200) (hj : r.json = .ok (.dict items)) (hm : kv ∈ items)
      (hk : isStr kv.1 = false) : Misfit (.ok r)
  | self {r : HttpResponse} {items : List (PyKey × PyVal)} (hs : r.status = 200)
      (hj : r.json = .ok (.dict items)) (h : item items "self" ≠ none) : Misfit (.ok r)
  | noCode {r : HttpResponse} {items : List (PyKey × PyVal)} (hs : r.status = 200)
      (hj : r.json = .ok (.dict items)) (h : item items "code" = none) : Misfit (.ok r)

/-- Another error of aiohttp, a body that cannot be read, or JSON data that is no `Response`. -/
inductive Unusable (a : Answer) : Prop where
  | client {text : PyStr} (h : Raises (.client text) a)
  | other {text : PyStr} (h : Raises (.other text) a)
  | misfit (h : Misfit a)

def Answered (a : Answer) : Prop := ∃ response, Accepted a response

/-- The text of an answer that `_post` goes on after. -/
def Fails (str : PyVal → PyStr) (a : Answer) (text : PyStr) : Prop :=
  Unreachable a text ∨ ∃ message, Refused a message ∧ text = formatted str message

/-! ## `_post_once` -/

/-- `_post_once` comes to this because of what the answer is. -/
def Comes (a : Answer) : Except PostError Response → Prop
  | .ok response => Accepted a response
  | .error (.xxl message) => Refused a message
  | .error (.http e) => Raises e a
  | .error .typeError => Misfit a

theorem ok_iff (response : Response) : response.ok = true ↔ Is200 response.code := by
  obtain ⟨code, msg⟩ := response
  simp only [Response.ok, Is200]
  cases code <;> simp

theorem keys_iff : (items.all fun kv => isStr kv.1) = true ↔ ∀ kv ∈ items, isStr kv.1 = true :=
  List.all_eq_true

theorem makeResponse_keywords (hk : Keywords items code msg) :
    makeResponse (.dict items) = .ok ⟨code, msg⟩ := by
  simp only [makeResponse, keys_iff.mpr hk.keys, if_true, hk.self, hk.code, hk.msg]

/-- What `Response(**data)` makes of JSON data. -/
theorem makeResponse_cases (data : PyVal) :
    (∃ items code msg, data = .dict items ∧ Keywords items code msg ∧
      makeResponse data = .ok ⟨code, msg⟩) ∨
    makeResponse data = .error .typeError ∧
      ((∀ items, data ≠ .dict items) ∨ ∃ items, data = .dict items ∧
        ((∃ kv ∈ items, isStr kv.1 = false) ∨ item items "self" ≠ none ∨
          item items "code" = none)) := by
  cases data with
  | dict items =>
    by_cases hkeys : ∀ kv ∈ items, isStr kv.1 = true
    · cases hself : item items "self" with
      | some v =>
        refine .inr ⟨?_, .inr ⟨items, rfl, .inr (.inl (by simp [hself]))⟩⟩
        simp [makeResponse, keys_iff.mpr hkeys, hself]
      | none =>
        cases hcode : item items "code" with
        | none =>
          refine .inr ⟨?_, .inr ⟨items, rfl, .inr (.inr hcode)⟩⟩
          simp [makeResponse, keys_iff.mpr hkeys, hself, hcode]
        | some code =>
          have hk : Keywords items code ((item items "msg").getD .none) :=
            ⟨hkeys, hself, hcode, rfl⟩
          exact .inl ⟨items, code, _, rfl, hk, makeResponse_keywords hk⟩
    · have hall : (items.all fun kv => isStr kv.1) = false := by
        rw [Bool.eq_false_iff]
        exact fun h => hkeys (keys_iff.mp h)
      push Not at hkeys
      obtain ⟨kv, hm, hk⟩ := hkeys
      refine .inr ⟨?_, .inr ⟨items, rfl, .inl ⟨kv, hm, by simpa using hk⟩⟩⟩
      simp [makeResponse, hall]
  | _ => exact .inr ⟨rfl, .inl fun items h => by cases h⟩

theorem postOnce_comes (a : Answer) : Comes a (postOnce a) := by
  cases a with
  | error e => exact Raises.post
  | ok r =>
    simp only [postOnce]
    by_cases hs : r.status = 200
    · rw [if_pos hs]
      cases hj : r.json with
      | error e => exact Raises.json hs hj
      | ok data =>
        rcases makeResponse_cases data with ⟨items, code, msg, rfl, hk, hm⟩ | ⟨hm, hdata⟩
        · simp only [hm]
          split
          · rename_i hok
            exact .mk hs hj hk ((ok_iff _).mp hok)
          · rename_i hok
            exact Refused.code hs hj hk fun hc => hok ((ok_iff ⟨code, msg⟩).mpr hc)
        · simp only [hm]
          rcases hdata with hno | ⟨items, rfl, ⟨kv, hmem, hkv⟩ | hself | hcode⟩
          · exact Misfit.noObject hs hj hno
          · exact Misfit.key hs hj hmem hkv
          · exact Misfit.self hs hj hself
          · exact Misfit.noCode hs hj hcode
    · rw [if_neg hs]
      cases ht : r.text with
      | error e => exact Raises.text hs ht
      | ok text => exact Refused.status hs ht

theorem Accepted.postOnce {response : Response} (h : Accepted a response) :
    postOnce a = .ok response := by
  cases h with
  | @mk r items code msg hs hj hk hc =>
    have hok : Response.ok ⟨code, msg⟩ = true := (ok_iff ⟨code, msg⟩).mpr hc
    simp only [XXL.postOnce, hs, if_true, hj, makeResponse_keywords hk, hok]

theorem Refused.postOnce {message : PyVal} (h : Refused a message) :
    postOnce a = .error (.xxl message) := by
  cases h with
  | status hs ht => simp only [XXL.postOnce, hs, if_false, ht]
  | @code r items code msg hs hj hk hc =>
    have hok : Response.ok ⟨code, msg⟩ = false := by
      rw [Bool.eq_false_iff]
      exact fun h => hc ((ok_iff ⟨code, msg⟩).mp h)
    simp [XXL.postOnce, hs, hj, makeResponse_keywords hk, hok]

theorem Raises.postOnce (h : Raises e a) : postOnce a = .error (.http e) := by
  cases h with
  | post => rfl
  | json hs hj => simp only [XXL.postOnce, hs, if_true, hj]
  | text hs ht => simp only [XXL.postOnce, hs, if_false, ht]

theorem Misfit.postOnce (h : Misfit a) : postOnce a = .error .typeError := by
  have hmake : ∀ {r : HttpResponse} {data : PyVal}, r.status = 200 → r.json = .ok data →
      makeResponse data = .error .typeError → XXL.postOnce (.ok r) = .error .typeError := by
    intro r data hs hj hm
    simp only [XXL.postOnce, hs, if_true, hj, hm]
  cases h with
  | @noObject r data hs hj hd =>
    refine hmake hs hj ?_
    cases data with
    | dict items => exact absurd rfl (hd items)
    | _ => rfl
  | @key r items kv hs hj hm hk =>
    refine hmake hs hj ?_
    rcases makeResponse_cases (.dict items) with ⟨items', code, msg, he, hkw, -⟩ | ⟨h, -⟩
    · cases he
      rw [hkw.keys kv hm] at hk
      cases hk
    · exact h
  | @self r items hs hj h =>
    refine hmake hs hj ?_
    rcases makeResponse_cases (.dict items) with ⟨items', code, msg, he, hkw, -⟩ | ⟨hm, -⟩
    · cases he
      exact absurd hkw.self h
    · exact hm
  | @noCode r items hs hj h =>
    refine hmake hs hj ?_
    rcases makeResponse_cases (.dict items) with ⟨items', code, msg, he, hkw, -⟩ | ⟨hm, -⟩
    · cases he
      rw [hkw.code] at h
      cases h
    · exact hm

end XXL
end Pyxxl
