import Mathlib.Data.List.Range
import Pyxxl.Protocol.Answers

/-!
# Pyxxl.Protocol.Registry

Which answers of the admins `XXL.registry` survives, and with it the loop of `_register_task`.

* an answer `escapes` when `_post_once` raises what neither `_post` nor `registry` catches: it is
  one that is `Unusable` (`escapes_iff`).
* `Ends`: what a round over the addresses comes to, up to the first answer that ends it.
* `registry_survives`: exactly if each unusable answer comes after the call is over.
-/

namespace Pyxxl
namespace XXL

variable {str : PyVal → PyStr} {urls : List PyStr} {times left i : Nat} {c : XXL}

/-! ## What an answer does -/

def answered (a : Answer) : Bool :=
  match postOnce a with
  | .ok _ => true
  | .error _ => false

def retryable (a : Answer) : Bool :=
  match postOnce a with
  | .error (.http (.connection _)) | .error (.http (.timeout _)) => true
  | _ => false

/-- `_post` does not catch what the answer makes `_post_once` raise. -/
def escapes (a : Answer) : Bool :=
  match postOnce a with
  | .error (.http (.client _)) | .error (.http (.other _)) | .error .typeError => true
  | _ => false

theorem answered_iff {a : Answer} : answered a = true ↔ Answered a := by
  constructor
  · intro h
    have hcomes := postOnce_comes a
    rw [answered] at h
    cases hp : postOnce a with
    | ok response =>
      rw [hp] at hcomes
      exact ⟨response, hcomes⟩
    | error e =>
      rw [hp] at h
      cases h
  · rintro ⟨response, h⟩
    rw [answered, h.postOnce]

theorem not_answered_iff {a : Answer} : answered a = false ↔ ¬Answered a := by
  rw [← answered_iff, Bool.not_eq_true]

theorem retryable_iff {a : Answer} : retryable a = true ↔ ∃ text, Unreachable a text := by
  constructor
  · intro h
    have hcomes := postOnce_comes a
    rw [retryable] at h
    split at h
    · rename_i text hp
      rw [hp] at hcomes
      exact ⟨text, .inl hcomes⟩
    · rename_i text hp
      rw [hp] at hcomes
      exact ⟨text, .inr hcomes⟩
    · cases h
  · rintro ⟨text, h | h⟩
    · rw [retryable, h.postOnce]
    · rw [retryable, h.postOnce]

theorem escapes_iff {a : Answer} : escapes a = true ↔ Unusable a := by
  constructor
  · intro h
    have hcomes := postOnce_comes a
    rw [escapes] at h
    split at h
    · rename_i text hp
      rw [hp] at hcomes
      exact .client hcomes
    · rename_i text hp
      rw [hp] at hcomes
      exact .other hcomes
    · rename_i hp
      rw [hp] at hcomes
      exact .misfit hcomes
    · cases h
  · rintro (h | h | h)
    · rw [escapes, h.postOnce]
    · rw [escapes, h.postOnce]
    · rw [escapes, h.postOnce]

/-- The answer ends the round. -/
def Stops (a : Answer) : Prop := answered a = true ∨ escapes a = true

theorem not_answered_of_escapes {a : Answer} (h : escapes a = true) : answered a = false := by
  unfold escapes at h
  unfold answered
  cases hp : postOnce a with
  | ok r => rw [hp] at h; cases h
  | error e => rfl

/-! ## One round -/

/-- The round over `n` addresses from number `i` on, with what it has sent. -/
def Ends (times : Nat) (answer : Nat → Answer) (round : Round) (i n : Nat) :
    List Sent × RoundEnd → Prop
  | (sent, .ended r) =>
    (∀ k < n, ¬Stops (answer (i + k))) ∧ sent = (List.range' i n).map (.post times) ∧
      (r.hadRetryableError = true ↔
        round.hadRetryableError = true ∨ ∃ k < n, retryable (answer (i + k)) = true)
  | (sent, .returned _) =>
    ∃ m < n, (∀ k < m, ¬Stops (answer (i + k))) ∧ answered (answer (i + m)) = true ∧
      sent = (List.range' i (m + 1)).map (.post times)
  | (sent, .raised e) =>
    ∃ m < n, (∀ k < m, ¬Stops (answer (i + k))) ∧ escapes (answer (i + m)) = true ∧
      postOnce (answer (i + m)) = .error e ∧ sent = (List.range' i (m + 1)).map (.post times)

/-- An address that does not end the round, before the others. -/
theorem Ends.cons {answer : Nat → Answer} {round round' : Round} {n : Nat}
    {res : List Sent × RoundEnd} (hs : ¬Stops (answer i))
    (hr : round'.hadRetryableError = true ↔
      round.hadRetryableError = true ∨ retryable (answer i) = true)
    (h : Ends times answer round' (i + 1) n res) :
    Ends times answer round i (n + 1) (.post times i :: res.1, res.2) := by
  have hshift : ∀ k, answer (i + 1 + k) = answer (i + (k + 1)) := fun k => by
    congr 1
    omega
  have hbefore : ∀ m, (∀ k < m, ¬Stops (answer (i + 1 + k))) →
      ∀ k < m + 1, ¬Stops (answer (i + k)) := by
    intro m hm k hk
    cases k with
    | zero => exact hs
    | succ k => rw [← hshift]; exact hm k (Nat.lt_of_succ_lt_succ hk)
  obtain ⟨sent, res⟩ := res
  cases res with
  | ended r =>
    obtain ⟨hall, hsent, hiff⟩ := h
    refine ⟨hbefore n hall, ?_, ?_⟩
    · rw [hsent]
      rfl
    · rw [hiff, hr, or_assoc]
      refine or_congr_right ⟨?_, ?_⟩
      · rintro (h0 | ⟨k, hk, hrk⟩)
        · exact ⟨0, Nat.succ_pos n, h0⟩
        · exact ⟨k + 1, Nat.succ_lt_succ hk, by rw [← hshift]; exact hrk⟩
      · rintro ⟨k, hk, hrk⟩
        cases k with
        | zero => exact .inl hrk
        | succ k => exact .inr ⟨k, Nat.lt_of_succ_lt_succ hk, by rw [hshift]; exact hrk⟩
  | returned r =>
    obtain ⟨m, hm, hall, ha, hsent⟩ := h
    refine ⟨m + 1, Nat.succ_lt_succ hm, hbefore m hall, by rw [← hshift]; exact ha, ?_⟩
    rw [hsent]
    rfl
  | raised e =>
    obtain ⟨m, hm, hall, ha, hp, hsent⟩ := h
    refine ⟨m + 1, Nat.succ_lt_succ hm, hbefore m hall, by rw [← hshift]; exact ha,
      by rw [← hshift]; exact hp, ?_⟩
    rw [hsent]
    rfl

theorem tryAddresses_ends (str : PyVal → PyStr) (urls : List PyStr) (times : Nat)
    (answer : Nat → Answer) (round : Round) :
    Ends times answer round i urls.length (tryAddresses str times answer urls i round) := by
  induction urls generalizing i round with
  | nil => exact ⟨fun k hk => absurd hk (Nat.not_lt_zero k), rfl, by simp⟩
  | cons url rest ih =>
    simp only [tryAddresses]
    cases hp : postOnce (answer i) with
    | ok r => exact ⟨0, Nat.succ_pos _, by simp, by simp [answered, hp], by simp⟩
    | error e =>
      have hno : answered (answer i) = false := by simp [answered, hp]
      have hends : escapes (answer i) = true →
          Ends times answer round i (rest.length + 1) ([.post times i], .raised e) := fun he =>
        ⟨0, Nat.succ_pos _, by simp, by simpa using he, by simpa using hp, by simp⟩
      cases e with
      | http e =>
        cases e with
        | connection text =>
          have hr : retryable (answer i) = true := by simp [retryable, hp]
          exact (ih ⟨true, some (errorText url text)⟩).cons (by simp [Stops, answered, escapes, hp])
            (by simp [hr])
        | timeout text =>
          have hr : retryable (answer i) = true := by simp [retryable, hp]
          exact (ih ⟨true, some (errorText url text)⟩).cons (by simp [Stops, answered, escapes, hp])
            (by simp [hr])
        | client text => exact hends (by simp [escapes, hp])
        | other text => exact hends (by simp [escapes, hp])
      | xxl message =>
        have hr : retryable (answer i) = false := by simp [retryable, hp]
        exact (ih { round with lastError := some (errorText url (formatted str message)) }).cons
          (by simp [Stops, answered, escapes, hp]) (by simp [hr])
      | typeError => exact hends (by simp [escapes, hp])

/-! ## The rounds -/

/-- Another round follows one with these answers, if there is one left. -/
def GoesOn (n : Nat) (answer : Nat → Answer) : Prop :=
  (∀ k < n, ¬Answered (answer k)) ∧ ∃ k < n, ∃ text, Unreachable (answer k) text

/-- An unusable answer comes after one that ends the round. -/
def RoundAbsorbed (n : Nat) (answer : Nat → Answer) : Prop :=
  ∀ k < n, Unusable (answer k) → ∃ m < k, Answered (answer m)

/-- No unusable answer comes before the call is over. -/
def Absorbed (n left times : Nat) (answers : Nat → Nat → Answer) : Prop :=
  ∀ r < left, (∀ q < r, GoesOn n (answers (times + q))) → RoundAbsorbed n (answers (times + r))

theorem absorbed_succ {n : Nat} {answers : Nat → Nat → Answer} :
    Absorbed n (left + 1) times answers ↔ RoundAbsorbed n (answers times) ∧
      (GoesOn n (answers times) → Absorbed n left (times + 1) answers) := by
  have hshift : ∀ q, answers (times + 1 + q) = answers (times + (q + 1)) := fun q => by
    congr 1
    omega
  constructor
  · refine fun h => ⟨h 0 (Nat.succ_pos _) fun q hq => absurd hq (Nat.not_lt_zero q), ?_⟩
    intro hg r hr hq
    rw [hshift]
    refine h (r + 1) (Nat.succ_lt_succ hr) fun q hlt => ?_
    cases q with
    | zero => exact hg
    | succ q =>
      rw [← hshift]
      exact hq q (Nat.lt_of_succ_lt_succ hlt)
  · rintro ⟨h0, h⟩ r hr hq
    cases r with
    | zero => exact h0
    | succ r =>
      rw [← hshift]
      refine h (hq 0 (Nat.succ_pos _)) r (Nat.lt_of_succ_lt_succ hr) fun q hlt => ?_
      rw [hshift]
      exact hq (q + 1) (Nat.succ_lt_succ hlt)

/-- What `registry` catches, or a return. -/
def Caught : Except PostError Response → Prop
  | .ok _ | .error (.xxl _) => True
  | .error _ => False

theorem not_caught_of_escapes {a : Answer} {e : PostError} (h : escapes a = true)
    (hp : postOnce a = .error e) : ¬Caught (.error e) := by
  rw [escapes, hp] at h
  cases e with
  | http e => exact id
  | xxl m => cases h
  | typeError => exact id

theorem postRounds_caught (str : PyVal → PyStr) (urls : List PyStr) (answers : Nat → Nat → Answer)
    (lastError : Option PyStr) :
    Caught (postRounds str urls answers left times lastError).2 ↔
      Absorbed urls.length left times answers := by
  induction left generalizing times lastError with
  | zero => exact ⟨fun _ r hr => absurd hr (Nat.not_lt_zero r), fun _ => trivial⟩
  | succ left ih =>
    rw [absorbed_succ]
    simp only [postRounds]
    have hends := tryAddresses_ends str urls times (i := 0)
      (answers times) ⟨false, lastError⟩
    split
    · rename_i sent r hres
      rw [hres] at hends
      obtain ⟨m, hm, hbefore, ha, -⟩ := hends
      simp only [Nat.zero_add] at hbefore ha
      refine ⟨fun _ => ⟨fun k _ hu => ⟨m, ?_, answered_iff.mp ha⟩, fun hg => ?_⟩,
        fun _ => trivial⟩
      · have he := escapes_iff.mpr hu
        by_contra hle
        rcases Nat.lt_or_ge k m with hlt | hge
        · exact hbefore k hlt (.inr he)
        · rw [show k = m by omega] at he
          rw [not_answered_of_escapes he] at ha
          cases ha
      · exact absurd (answered_iff.mp ha) (hg.1 m hm)
    · rename_i sent e hres
      rw [hres] at hends
      obtain ⟨m, hm, hbefore, he, hp, -⟩ := hends
      simp only [Nat.zero_add] at hbefore he hp
      refine ⟨fun hc => absurd hc (not_caught_of_escapes he hp), fun h => ?_⟩
      obtain ⟨k, hk, ha⟩ := h.1 m hm (escapes_iff.mp he)
      exact absurd (.inl (answered_iff.mpr ha)) (hbefore k hk)
    · rename_i sent round hres
      rw [hres] at hends
      obtain ⟨hall, -, hretry⟩ := hends
      simp only [Nat.zero_add, Bool.false_eq_true, false_or] at hall hretry
      have habsorbed : RoundAbsorbed urls.length (answers times) := fun k hk hu =>
        absurd (.inr (escapes_iff.mpr hu)) (hall k hk)
      have hgoes : GoesOn urls.length (answers times) ↔ round.hadRetryableError = true := by
        rw [hretry, GoesOn]
        simp only [retryable_iff]
        exact and_iff_right fun k hk ha => hall k hk (.inl (answered_iff.mpr ha))
      split
      · rename_i hmore
        rw [ih]
        exact ⟨fun h => ⟨habsorbed, fun _ => h⟩, fun h => h.2 (hgoes.mpr hmore.1)⟩
      · rename_i hmore
        refine ⟨fun _ => ⟨habsorbed, fun hg r hr => ?_⟩, fun _ => trivial⟩
        exact absurd ⟨hgoes.mp hg, by omega⟩ hmore

/-! ## The requests of a call -/

theorem mem_posts {n t k : Nat} :
    Sent.post t k ∈ (List.range' 0 n).map (Sent.post times) ↔ t = times ∧ k < n := by
  rw [List.mem_map]
  constructor
  · rintro ⟨j, hj, h⟩
    cases h
    exact ⟨rfl, by simpa using hj⟩
  · rintro ⟨rfl, hk⟩
    exact ⟨k, by simpa using hk, rfl⟩

/-- An address whose answer does not end the round is followed by the next one. -/
theorem Ends.next {answer : Nat → Answer} {round : Round} {n t k : Nat}
    {res : List Sent × RoundEnd} (h : Ends times answer round 0 n res)
    (hk : Sent.post t k ∈ res.1) (hno : ¬Stops (answer k)) (hlt : k + 1 < n) :
    Sent.post t (k + 1) ∈ res.1 := by
  obtain ⟨sent, res⟩ := res
  have hgo : ∀ m, Stops (answer (0 + m)) → sent = (List.range' 0 (m + 1)).map (.post times) →
      Sent.post t (k + 1) ∈ sent := by
    intro m hm hsent
    rw [Nat.zero_add] at hm
    rw [hsent, mem_posts] at hk
    rw [hsent, mem_posts]
    refine ⟨hk.1, ?_⟩
    have : k ≠ m := fun he => hno (he ▸ hm)
    omega
  cases res with
  | ended r =>
    have hsent := h.2.1
    rw [hsent, mem_posts] at hk
    show Sent.post t (k + 1) ∈ sent
    rw [hsent, mem_posts]
    exact ⟨hk.1, hlt⟩
  | returned r =>
    obtain ⟨m, -, -, ha, hsent⟩ := h
    exact hgo m (.inl ha) hsent
  | raised e =>
    obtain ⟨m, -, -, he, -, hsent⟩ := h
    exact hgo m (.inr he) hsent

theorem Ends.times_eq {answer : Nat → Answer} {round : Round} {n t k : Nat}
    {res : List Sent × RoundEnd} (h : Ends times answer round 0 n res)
    (hk : Sent.post t k ∈ res.1) : t = times := by
  obtain ⟨sent, res⟩ := res
  have hgo : ∀ m, sent = (List.range' 0 m).map (Sent.post times) → t = times := by
    intro m hsent
    rw [hsent, mem_posts] at hk
    exact hk.1
  cases res with
  | ended r => exact hgo _ h.2.1
  | returned r =>
    obtain ⟨m, -, -, -, hsent⟩ := h
    exact hgo _ hsent
  | raised e =>
    obtain ⟨m, -, -, -, -, hsent⟩ := h
    exact hgo _ hsent

theorem Ends.absorbed {answer : Nat → Answer} {round : Round} {n t k : Nat}
    {res : List Sent × RoundEnd} (h : Ends times answer round 0 n res)
    (hr : ∀ e, res.2 ≠ .raised e) (hk : Sent.post t k ∈ res.1) : escapes (answer k) = false := by
  obtain ⟨sent, res⟩ := res
  have hno : ∀ {a : Answer}, ¬Stops a → escapes a = false := fun {a} hs => by
    cases he : escapes a with
    | true => exact absurd (.inr he) hs
    | false => rfl
  cases res with
  | ended r =>
    obtain ⟨hall, hsent, -⟩ := h
    rw [hsent, mem_posts] at hk
    have := hall k hk.2
    rw [Nat.zero_add] at this
    exact hno this
  | returned r =>
    obtain ⟨m, -, hall, ha, hsent⟩ := h
    rw [hsent, mem_posts] at hk
    rcases Nat.lt_succ_iff_lt_or_eq.mp hk.2 with hlt | rfl
    · have := hall k hlt
      rw [Nat.zero_add] at this
      exact hno this
    · rw [Nat.zero_add] at ha
      cases he : escapes (answer k) with
      | true =>
        rw [not_answered_of_escapes he] at ha
        cases ha
      | false => rfl
  | raised e => exact absurd rfl (hr e)

/-- No address is left out after one whose answer does not end the round. -/
theorem postRounds_next {answers : Nat → Nat → Answer} {lastError : Option PyStr} {t k : Nat}
    (hc : Caught (postRounds str urls answers left times lastError).2)
    (hk : Sent.post t k ∈ (postRounds str urls answers left times lastError).1)
    (hno : ¬Answered (answers t k)) (hlt : k + 1 < urls.length) :
    Sent.post t (k + 1) ∈ (postRounds str urls answers left times lastError).1 := by
  induction left generalizing times lastError with
  | zero => cases hk
  | succ left ih =>
    have hends := tryAddresses_ends str urls times (i := 0)
      (answers times) ⟨false, lastError⟩
    -- the case of the round itself
    have hround : (∀ e, (tryAddresses str times (answers times) urls 0 ⟨false, lastError⟩).2 ≠
        .raised e) →
        Sent.post t k ∈ (tryAddresses str times (answers times) urls 0 ⟨false, lastError⟩).1 →
        Sent.post t (k + 1) ∈
          (tryAddresses str times (answers times) urls 0 ⟨false, lastError⟩).1 := by
      intro hr hm
      have ht := hends.times_eq hm
      have he := hends.absorbed hr hm
      subst ht
      refine hends.next hm ?_ hlt
      rintro (ha | he')
      · exact hno (answered_iff.mp ha)
      · rw [he] at he'
        cases he'
    simp only [postRounds] at hc hk ⊢
    split at hk
    · rename_i sent r hres
      rw [hres] at hround
      simp only
      exact hround (fun e he => by cases he) hk
    · rename_i sent e hres
      rw [hres] at hends hc
      obtain ⟨m, -, -, he, hp, -⟩ := hends
      exact absurd hc (not_caught_of_escapes he hp)
    · rename_i sent round hres
      rw [hres] at hround
      simp only [hres] at hc
      split at hk
      · rename_i hmore
        rw [if_pos hmore] at hc ⊢
        rcases List.mem_append.mp hk with hm | hm
        · exact List.mem_append_left _ (hround (fun e he => by cases he) hm)
        · refine List.mem_append_right _ ?_
          rcases List.mem_cons.mp hm with hs | hm
          · cases hs
          · exact List.mem_cons_of_mem _ (ih hc hm)
      · rename_i hmore
        rw [if_neg hmore]
        exact hround (fun e he => by cases he) hk

/-! ## `registry` -/

/-- `registry` returns, and tries the address after each one that has not answered. -/
structure Survived (c : XXL) (answers : Nat → Nat → Answer) : Prop where
  returns : ∃ b, (c.registry answers).2 = .ok b
  tried : ∀ t k, .post t k ∈ (c.registry answers).1 → ¬Answered (answers t k) →
    k + 1 < c.adminUrls.length → .post t (k + 1) ∈ (c.registry answers).1

theorem post_five (answers : Nat → Nat → Answer) :
    c.post (some 5) answers = postRounds c.str c.adminUrls answers 5 1 none := rfl

theorem registry_sent (answers : Nat → Nat → Answer) :
    (c.registry answers).1 = (postRounds c.str c.adminUrls answers 5 1 none).1 := by
  rw [registry, post_five]
  split <;> rename_i h <;> rw [h]

theorem registry_returns (answers : Nat → Nat → Answer) :
    (∃ b, (c.registry answers).2 = .ok b) ↔
      Caught (postRounds c.str c.adminUrls answers 5 1 none).2 := by
  rw [registry, post_five]
  split
  · rename_i h
    rw [h]
    exact ⟨fun _ => trivial, fun _ => ⟨true, rfl⟩⟩
  · rename_i h
    rw [h]
    exact ⟨fun _ => trivial, fun _ => ⟨false, rfl⟩⟩
  · rename_i e hne h
    rw [h]
    refine ⟨fun ⟨b, hb⟩ => (by cases hb), fun hc => ?_⟩
    cases e with
    | xxl m => exact absurd rfl (hne m)
    | _ => exact hc.elim

theorem survived_iff {answers : Nat → Nat → Answer} :
    Survived c answers ↔ Absorbed c.adminUrls.length 5 1 answers := by
  rw [← postRounds_caught c.str c.adminUrls answers none, ← registry_returns]
  refine ⟨fun h => h.returns, fun h => ⟨h, fun t k hk hno hlt => ?_⟩⟩
  rw [registry_sent] at hk ⊢
  exact postRounds_next ((registry_returns answers).mp h) hk hno hlt

theorem registerTask_none {answers : Nat → Nat → Nat → Answer}
    (h : ∀ n, ∃ b, (c.registry (answers n)).2 = .ok b) (n : Nat) :
    registerTask c answers n = none := by
  induction n with
  | zero => rfl
  | succ n ih =>
    obtain ⟨b, hb⟩ := h n
    simp only [registerTask, ih, hb]

/-- Every `registry` call returns and tries all the addresses it should, and the loop of
`_register_task` goes on, exactly if no unusable answer comes before its call is over. -/
theorem registry_survives (c : XXL) (answers : Nat → Nat → Nat → Answer) :
    (∀ m, Survived c (answers m)) ∧ (∀ n, registerTask c answers n = none) ↔
      ∀ m, Absorbed c.adminUrls.length 5 1 (answers m) := by
  refine ⟨fun h m => survived_iff.mp (h.1 m), fun h => ?_⟩
  have hs : ∀ m, Survived c (answers m) := fun m => survived_iff.mpr (h m)
  exact ⟨hs, registerTask_none fun m => (hs m).returns⟩

def twoAdmins : XXL :=
  { adminUrls := [py "http://a/api/", py "http://b/api/"], retryTimes := 1, str := fun _ => [] }

/-- The first admin answers with a body that is not JSON, the second one as it should. -/
def garbled (_ address : Nat) : Answer :=
  if address = 0 then .ok ⟨200, .error (.other (py "Expecting value")), .ok []⟩
  else .ok ⟨200, .ok (.dict [(.str (py "code"), .int 200)]), .ok []⟩

/-- The answer leaves `registry` and ends the loop, and the second admin is not asked. -/
theorem registry_lost : ¬Survived twoAdmins garbled ∧
    (twoAdmins.registry garbled).1 = [.post 1 0] ∧
    (registerTask twoAdmins (fun _ => garbled) 1).isSome = true := by
  refine ⟨fun h => ?_, rfl, rfl⟩
  obtain ⟨b, hb⟩ := h.returns
  cases hb

end XXL
end Pyxxl
