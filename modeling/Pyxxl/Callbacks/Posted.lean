import Pyxxl.Callbacks.Passed
import Pyxxl.Protocol.Failover

/-!
# Pyxxl.Callbacks.Posted

A `CallbackManager` and the HTTP requests of `XXL.callback` (`pyxxl/protocol/admin_client.py`),
which its worker calls: what the worker makes of a call is what the admins have answered.

* `posts` is the record of the HTTP requests, each with whether the code has read an answer that
  acknowledges it; no code reads it. Those of a call are added when it ends. A call that is
  interrupted has read no such answer.
* the `msg` of a request is the object that the handler has returned. Whoever holds it may change it,
  and `json.dumps` reads it anew for each HTTP request.
* `Answers`: what a call has read; `Told`: what holds of the record.
* `acknowledged_once`: a request is posted until it is acknowledged, and never after that.
-/

namespace Pyxxl

open Transition
open CallbackManager (Numbered Advances)

/-! ## `XXL.callback` -/

/-- The `payload` of `callback`. -/
def CallbackRequest.payload (r : CallbackRequest) : PyVal :=
  .list [.dict [
    (.str (py "logId"), .int r.logId),
    (.str (py "logDateTim"), .int r.timestamp),
    (.str (py "handleCode"), .int r.code),
    (.str (py "handleMsg"), r.msg),
    (.str (py "executeResult"), .dict [(.str (py "code"), .int r.code), (.str (py "msg"), r.msg)])]]

/-- What leaves `callback`; `dumps` is an error of `json.dumps`, before the first request. -/
inductive CallbackError where
  | post (e : PostError)
  | dumps

namespace XXL

def callback (c : XXL) (r : CallbackRequest) (answers : Nat → Nat → Answer) :
    List Sent × Except CallbackError Unit :=
  if r.payload.dumpable = true ∨ c.attempts none ≤ 0 then
    match c.post none answers with
    | (sent, .ok _) => (sent, .ok ())
    | (sent, .error e) => (sent, .error (.post e))
  else ([], .error .dumps)

/-- Whether a request has been answered. -/
def acknowledges (answers : Nat → Nat → Answer) : Sent → Option Bool
  | .post times address => some (answered (answers times address))
  | .sleep => none

/-- One `true` at the end of a call that has returned, and none else. -/
def Answers (answers : Nat → Nat → Answer) (sent : List Sent) (returned : Bool) : Prop :=
  ∃ n, sent.filterMap (acknowledges answers) =
    List.replicate n false ++ if returned = true then [true] else []

variable {answers : Nat → Nat → Answer} {times : Nat}

theorem acknowledges_round {n : Nat} (h : ∀ k < n, answered (answers times (0 + k)) = false) :
    ((List.range' 0 n).map (Sent.post times)).filterMap (acknowledges answers) =
      List.replicate n false := by
  rw [List.filterMap_map]
  induction n with
  | zero => rfl
  | succ n ih =>
    have hn := h n (Nat.lt_succ_self n)
    rw [List.range'_1_concat, List.filterMap_append, ih fun k hk => h k (Nat.lt_succ_of_lt hk),
      List.replicate_succ']
    rw [Nat.zero_add] at hn ⊢
    simp [acknowledges, hn]

theorem not_answered {a : Answer} (h : ¬Stops a) : answered a = false := by
  cases ha : answered a with
  | false => rfl
  | true => exact absurd (.inl ha) h

theorem Answers.append {sent sent' : List Sent} {returned : Bool}
    (h : Answers answers sent false) (h' : Answers answers sent' returned) :
    Answers answers (sent ++ .sleep :: sent') returned := by
  obtain ⟨n, hn⟩ := h
  obtain ⟨k, hk⟩ := h'
  refine ⟨n + k, ?_⟩
  have hsleep : (Sent.sleep :: sent').filterMap (acknowledges answers) =
      sent'.filterMap (acknowledges answers) := rfl
  rw [List.filterMap_append, hsleep, hn, hk, if_neg Bool.false_ne_true, List.append_nil,
    ← List.append_assoc, List.replicate_append_replicate]

def returns {α ε : Type} : Except ε α → Bool
  | .ok _ => true
  | .error _ => false

theorem postRounds_answers (str : PyVal → PyStr) (urls : List PyStr) (answers : Nat → Nat → Answer)
    (left times : Nat) (lastError : Option PyStr) :
    Answers answers (postRounds str urls answers left times lastError).1
      (returns (postRounds str urls answers left times lastError).2) := by
  induction left generalizing times lastError with
  | zero => exact ⟨0, rfl⟩
  | succ left ih =>
    simp only [postRounds]
    have hends := tryAddresses_ends str urls times (i := 0) (answers times) ⟨false, lastError⟩
    split
    · rename_i sent r hres
      rw [hres] at hends
      obtain ⟨m, -, hbefore, ha, hsent⟩ := hends
      refine ⟨m, ?_⟩
      rw [hsent, List.range'_1_concat, List.map_append, List.filterMap_append,
        acknowledges_round fun k hk => not_answered (hbefore k hk)]
      simpa [acknowledges, returns] using ha
    · rename_i sent e hres
      rw [hres] at hends
      obtain ⟨m, -, hbefore, he, -, hsent⟩ := hends
      refine ⟨m + 1, ?_⟩
      rw [hsent, acknowledges_round fun k hk => ?_]
      · simp [returns]
      · rcases Nat.lt_succ_iff_lt_or_eq.mp hk with hk | rfl
        · exact not_answered (hbefore k hk)
        · exact not_answered_of_escapes he
    · rename_i sent round hres
      rw [hres] at hends
      obtain ⟨hbefore, hsent, -⟩ := hends
      have hround : Answers answers sent false := by
        refine ⟨urls.length, ?_⟩
        rw [hsent, acknowledges_round fun k hk => not_answered (hbefore k hk)]
        simp
      split
      · exact hround.append (ih _ round.lastError)
      · exact hround

/-- A call returns with an answer to its last request, and else with none. -/
theorem callback_answers (c : XXL) (r : CallbackRequest) (answers : Nat → Nat → Answer) :
    Answers answers (c.callback r answers).1 (returns (c.callback r answers).2) := by
  unfold callback
  split
  · have h := postRounds_answers c.str c.adminUrls answers (c.attempts none).toNat 1 none
    rw [post]
    split
    · rename_i sent x hx
      rw [hx] at h
      exact h
    · rename_i sent e hx
      rw [hx] at h
      exact h
  · exact ⟨0, rfl⟩

end XXL

/-! ## The worker and its client -/

structure Post where
  request : Nat
  times : Nat
  address : Nat
  acknowledged : Bool

structure CallbackPosts where
  manager : CallbackManager
  xxlClient : XXL
  posts : List Post

namespace CallbackPosts

def init (files : CallbackPath → Option StoredFile) (nextUuid : Nat) (xxlClient : XXL) :
    CallbackPosts where
  manager := .init files nextUuid
  xxlClient := xxlClient
  posts := []

inductive Event where
  /-- An event in which no call of `callback` ends. -/
  | manager (e : CallbackManager.Event)
  /-- The result that request `i` carries is changed. -/
  | changes (i : Nat) (msg : PyVal)
  /-- A call of `callback`, from its first request to what the worker makes of its end. -/
  | callback (answers : Nat → Nat → Answer) (files : Nat → Bool)
  /-- A call of `callback` that ends with `n` requests sent: it is `cancelled`, or `json.dumps`
  refuses what has become of the result. -/
  | interrupted (cancelled : Bool) (answers : Nat → Nat → Answer) (n : Nat) (files : Nat → Bool)

/-- A call of `callback` ends in the event. -/
def endsCall (s : CallbackManager) : CallbackManager.Event → Bool
  | .workerDelivers _ | .workerFails _ => true
  | .workerEnds _ => s.held.isSome
  | _ => false

def posted (i : Nat) (answers : Nat → Nat → Answer) : XXL.Sent → Option Post
  | .post times address => some ⟨i, times, address, XXL.answered (answers times address)⟩
  | .sleep => none

/-- Its answer is not read any more. -/
def Post.unread (p : Post) : Post := { p with acknowledged := false }

/-- The manager comes to `s`, and these requests were sent meanwhile. -/
def record (m : CallbackPosts) (posts : List Post) (s : CallbackManager) : CallbackPosts :=
  { m with manager := s, posts := m.posts ++ posts }

def setMsg (s : CallbackManager) (i : Nat) (msg : PyVal) : CallbackManager :=
  { s with store := s.store.setRequest i { s.request i with msg := msg } }

def step (m : CallbackPosts) : Event → Option CallbackPosts
  | .manager e => if endsCall m.manager e then none else (m.manager.step e).map (m.record [])
  | .changes i msg => some (m.record [] (setMsg m.manager i msg))
  | .callback answers files =>
    match m.manager.held with
    | none => none
    | some i =>
      match m.xxlClient.callback (m.manager.request i) answers with
      | (sent, .ok _) =>
        (m.manager.step (.workerDelivers files)).map (m.record (sent.filterMap (posted i answers)))
      | (sent, .error _) =>
        (m.manager.step (.workerFails files)).map (m.record (sent.filterMap (posted i answers)))
  | .interrupted cancelled answers n files =>
    match m.manager.held with
    | none => none
    | some i =>
      let sent := (m.xxlClient.post none answers).1
      (m.manager.step (if cancelled then .workerEnds files else .workerFails files)).map
        (m.record (((sent.filterMap (posted i answers)).take n).map Post.unread))

def Reachable (m : CallbackPosts) : Prop :=
  ∃ files nextUuid xxlClient, Steps step Any (init files nextUuid xxlClient) m

/-- What was sent of a request, in order. -/
def postsOf (m : CallbackPosts) (i : Nat) : List Post := m.posts.filter (·.request = i)

variable {m m' : CallbackPosts} {s : CallbackManager} {i : Nat} {posts : List Post}

/-! ### What a call sends -/

/-- Requests of a call for `i`, of which the last is answered if the call has delivered it. -/
structure Called (i : Nat) (posts : List Post) (delivered : List Nat) : Prop where
  request : ∀ p ∈ posts, p.request = i
  flags : ∃ n, posts.map Post.acknowledged =
    List.replicate n false ++ if i ∈ delivered then [true] else []

theorem map_posted (i : Nat) (answers : Nat → Nat → Answer) (sent : List XXL.Sent) :
    (sent.filterMap (posted i answers)).map Post.acknowledged =
      sent.filterMap (XXL.acknowledges answers) := by
  rw [List.map_filterMap]
  congr 1
  funext x
  cases x <;> rfl

theorem mem_posted {answers : Nat → Nat → Answer} {sent : List XXL.Sent} {p : Post}
    (hp : p ∈ sent.filterMap (posted i answers)) : p.request = i := by
  obtain ⟨x, -, hx⟩ := List.mem_filterMap.mp hp
  cases x with
  | post times address => cases hx; rfl
  | sleep => cases hx

theorem called_callback {c : XXL} {r : CallbackRequest} {answers : Nat → Nat → Answer}
    {sent : List XXL.Sent} {res : Except CallbackError Unit} {delivered : List Nat}
    (h : c.callback r answers = (sent, res)) (hd : i ∈ delivered ↔ XXL.returns res = true) :
    Called i (sent.filterMap (posted i answers)) delivered where
  request p hp := mem_posted hp
  flags := by
    obtain ⟨n, hn⟩ := XXL.callback_answers c r answers
    rw [h] at hn
    refine ⟨n, ?_⟩
    rw [map_posted, hn]
    simp only [hd]

theorem called_unread {sent : List Post} (n : Nat) (h : ∀ p ∈ sent, p.request = i) :
    Called i ((sent.take n).map Post.unread) [] where
  request p hp := by
    obtain ⟨q, hq, rfl⟩ := List.mem_map.mp hp
    exact h q (List.mem_of_mem_take hq)
  flags := by
    refine ⟨(sent.take n).length, ?_⟩
    rw [List.map_map, if_neg (List.not_mem_nil), List.append_nil]
    exact List.eq_replicate_iff.mpr ⟨by simp, fun b hb => by
      obtain ⟨p, -, rfl⟩ := List.mem_map.mp hb
      rfl⟩

/-! ### What was sent -/

structure Told (m : CallbackPosts) : Prop where
  numbered : Numbered m.manager
  known : ∀ p ∈ m.posts, p.request < m.manager.nextRequest
  flags : ∀ i, ∃ n, (m.postsOf i).map Post.acknowledged =
    List.replicate n false ++ if i ∈ m.manager.delivered then [true] else []

theorem told_init (files : CallbackPath → Option StoredFile) (nextUuid : Nat) (xxlClient : XXL) :
    Told (init files nextUuid xxlClient) where
  numbered := CallbackManager.numbered_init files nextUuid
  known p hp := by cases hp
  flags i := ⟨0, rfl⟩

theorem postsOf_record (m : CallbackPosts) (posts : List Post) (s : CallbackManager) (i : Nat) :
    (m.record posts s).postsOf i = m.postsOf i ++ posts.filter (·.request = i) :=
  List.filter_append ..

/-- A call for `i` has ended. -/
theorem Told.call (h : Told m) {new : List Nat} (ha : Advances (fun _ => True) m.manager s new)
    (hi : m.manager.held = some i) (hnew : ∀ j ∈ new, j = i) (hc : Called i posts new) :
    Told (m.record posts s) where
  numbered := ha.numbered
  known p hp := by
    refine Nat.lt_of_lt_of_le ?_ ha.next
    rcases List.mem_append.mp hp with hp | hp
    · exact h.known p hp
    · rw [hc.request p hp]
      exact (h.numbered.held hi).1
  flags j := by
    have hdel : j ∈ (m.record posts s).manager.delivered ↔ j ∈ m.manager.delivered ∨ j ∈ new := by
      show j ∈ s.delivered ↔ _
      rw [ha.delivered, List.mem_append]
    obtain ⟨n, hn⟩ := h.flags j
    rw [postsOf_record, List.map_append, hn]
    by_cases hj : j = i
    · -- `i` is with the worker, and so was not answered before
      subst hj
      have hnot := (h.numbered.held hi).2
      obtain ⟨k, hk⟩ := hc.flags
      refine ⟨n + k, ?_⟩
      rw [List.filter_eq_self.mpr fun p hp => by simpa using hc.request p hp, hk, if_neg hnot,
        List.append_nil, ← List.append_assoc, List.replicate_append_replicate]
      simp only [hdel, hnot, false_or]
    · have hout : posts.filter (·.request = j) = [] :=
        List.filter_eq_nil_iff.mpr fun p hp => by
          have hr := hc.request p hp
          simp only [decide_eq_true_eq]
          omega
      refine ⟨n, ?_⟩
      have hjn : j ∉ new := fun hm => hj (hnew j hm)
      rw [hout, List.map_nil, List.append_nil]
      simp only [hdel, hjn, or_false]

/-- No call has ended. -/
theorem Told.rest (h : Told m) (hn : Numbered s) (hnext : m.manager.nextRequest ≤ s.nextRequest)
    (hd : s.delivered = m.manager.delivered) : Told (m.record [] s) where
  numbered := hn
  known p hp := by
    rw [record, List.append_nil] at hp
    exact Nat.lt_of_lt_of_le (h.known p hp) hnext
  flags i := by
    have hdel : (m.record [] s).manager.delivered = m.manager.delivered := hd
    rw [postsOf_record, List.filter_nil, List.append_nil, hdel]
    exact h.flags i

theorem completed_nil {s : CallbackManager} {e : CallbackManager.Event}
    (h : endsCall s e ≠ true) : s.completed e = [] := by
  cases e with
  | workerDelivers unlinks => exact absurd rfl h
  | _ => rfl

/-- Nothing depends here on what the messages are. -/
theorem moved {s s' : CallbackManager} {e : CallbackManager.Event} (h : Numbered s)
    (hs : s.step e = some s') : Advances (fun _ => True) s s' (s.completed e) := by
  refine h.step ?_ hs
  cases e with
  | start paths => exact fun _ _ _ _ => trivial
  | _ => trivial

theorem Told.step {e : Event} (h : Told m) (hs : m.step e = some m') : Told m' := by
  cases e with
  | manager e =>
    simp only [CallbackPosts.step] at hs
    split at hs
    · cases hs
    · rename_i hends
      obtain ⟨s, hstep, rfl⟩ := Option.map_eq_some_iff.mp hs
      have ha := moved h.numbered hstep
      refine h.rest ha.numbered ha.next ?_
      rw [ha.delivered, completed_nil hends, List.append_nil]
  | changes i msg =>
    cases hs
    exact h.rest ⟨h.numbered.once, h.numbered.fresh⟩ (Nat.le_refl _) rfl
  | callback answers files =>
    simp only [CallbackPosts.step] at hs
    split at hs
    · cases hs
    · rename_i i hi
      split at hs
      · rename_i sent u hres
        obtain ⟨s, hstep, rfl⟩ := Option.map_eq_some_iff.mp hs
        have ha := moved h.numbered hstep
        rw [CallbackManager.completed, hi] at ha
        refine h.call ha hi (fun j hj => List.mem_singleton.mp hj) (called_callback hres ?_)
        simp [XXL.returns]
      · rename_i sent err hres
        obtain ⟨s, hstep, rfl⟩ := Option.map_eq_some_iff.mp hs
        refine h.call (moved h.numbered hstep) hi (fun j hj => by cases hj)
          (called_callback hres ?_)
        simp [XXL.returns, CallbackManager.completed]
  | interrupted cancelled answers n files =>
    simp only [CallbackPosts.step] at hs
    split at hs
    · cases hs
    · rename_i i hi
      obtain ⟨s, hstep, rfl⟩ := Option.map_eq_some_iff.mp hs
      have hnone : m.manager.completed (if cancelled then .workerEnds files else .workerFails files)
          = [] := by
        cases cancelled <;> rfl
      have ha := moved h.numbered hstep
      rw [hnone] at ha
      exact h.call ha hi (fun j hj => by cases hj) (called_unread n fun p hp => mem_posted hp)

theorem told_of_reachable (h : Reachable m) : Told m := by
  obtain ⟨files, nextUuid, xxlClient, hs⟩ := h
  induction hs with
  | refl => exact told_init files nextUuid xxlClient
  | tail _ _ hstep ih => exact ih.step hstep

/-- In every run, whatever the admins answer, whoever calls `stop`, whatever becomes of the files and
of the results that the requests carry: of what is posted for a request at most the last is
acknowledged, which it is if and only if the request counts as delivered. -/
theorem acknowledged_once (h : Reachable m) (i : Nat) :
    ∃ n, (m.postsOf i).map Post.acknowledged =
      List.replicate n false ++ if i ∈ m.manager.delivered then [true] else [] :=
  (told_of_reachable h).flags i

/-- At the first call no admin answers, at the second one does in the second round. Meanwhile the
result has become another. -/
def retriedRun : List Event :=
  [.manager (.start []), .manager (CallbackManager.report 1), .manager .workerTakes,
    .callback (fun _ _ => .error (.timeout (py "no answer"))) CallbackManager.always,
    .changes 0 (.int 1), .manager (.retryFires 0), .manager .workerTakes,
    .callback XXL.flaky CallbackManager.always]

def twoRounds : XXL := { XXL.twoAdmins with retryTimes := 2 }

def atFirst : CallbackPosts := init (fun _ => none) 0 twoRounds

def retried : CallbackPosts := (run step atFirst retriedRun).get (by decide +kernel)

theorem reachable_retried : Reachable retried :=
  ⟨fun _ => none, 0, twoRounds, .of_run (fun _ _ _ => trivial) (Option.some_get _).symm⟩

theorem acknowledged_once_retried :
    (retried.postsOf 0).map Post.acknowledged = List.replicate 6 false ++ [true] ∧
    ∃ n, (retried.postsOf 0).map Post.acknowledged =
      List.replicate n false ++ if 0 ∈ retried.manager.delivered then [true] else [] :=
  ⟨by decide +kernel, acknowledged_once reachable_retried 0⟩

end CallbackPosts
end Pyxxl
