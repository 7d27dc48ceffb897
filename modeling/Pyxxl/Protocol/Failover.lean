import Pyxxl.Protocol.Registry

/-!
# Pyxxl.Protocol.Failover

The failover and the retry of `XXL._post`: which requests one call sends, and how it ends.

* `course`: whole rounds with a sleep after each, then a part of one more round.
* `LastRound`: how the round ends that no other follows.
* `post_fails_over`: the requests, the rounds and the result of a call, for all answers that are
  ok, a refusal or a connection error.
-/

namespace Pyxxl
namespace XXL

variable {str : PyVal → PyStr} {urls : List PyStr} {answers : Nat → Nat → Answer}
  {answer : Nat → Answer} {times left i n : Nat}

theorem not_escapes {a : Answer} (h : Answered a ∨ ∃ text, Fails str a text) :
    escapes a = false := by
  rcases h with ⟨response, h⟩ | ⟨text, (h | h) | ⟨message, h, -⟩⟩
  · rw [escapes, h.postOnce]
  · rw [escapes, h.postOnce]
  · rw [escapes, h.postOnce]
  · rw [escapes, h.postOnce]

/-! ## One round -/

theorem tryAddresses_returned {sent : List Sent} {round : Round} {r : Response}
    (h : tryAddresses str times answer urls i round = (sent, .returned r)) :
    ∃ k < urls.length, sent = (List.range' i (k + 1)).map (.post times) ∧
      Accepted (answer (i + k)) r ∧ ∀ j < k, ¬Answered (answer (i + j)) := by
  induction urls generalizing i sent round with
  | nil => cases h
  | cons url rest ih =>
    simp only [tryAddresses] at h
    -- the case of an answer that the loop goes on after
    have hnext : ∀ {sent' : List Sent} {round' : Round}, ¬Answered (answer i) →
        tryAddresses str times answer rest (i + 1) round' = (sent', .returned r) →
        sent = .post times i :: sent' →
        ∃ k < (url :: rest).length, sent = (List.range' i (k + 1)).map (.post times) ∧
          Accepted (answer (i + k)) r ∧ ∀ j < k, ¬Answered (answer (i + j)) := by
      intro sent' round' hno hrest hsent
      obtain ⟨k, hk, hs, ha, hbefore⟩ := ih hrest
      refine ⟨k + 1, Nat.succ_lt_succ hk, ?_, ?_, ?_⟩
      · rw [hsent, hs]
        rfl
      · rwa [show i + (k + 1) = i + 1 + k by omega]
      · intro j hj
        cases j with
        | zero => exact hno
        | succ j =>
          rw [show i + (j + 1) = i + 1 + j by omega]
          exact hbefore j (Nat.lt_of_succ_lt_succ hj)
    have hcomes := postOnce_comes (answer i)
    cases hp : postOnce (answer i) with
    | ok r' =>
      rw [hp] at h hcomes
      cases h
      exact ⟨0, Nat.succ_pos _, rfl, hcomes, fun j hj => absurd hj (Nat.not_lt_zero j)⟩
    | error e =>
      have hno : ¬Answered (answer i) := not_answered_iff.mp (by simp [answered, hp])
      rw [hp] at h
      cases e with
      | http e =>
        cases e with
        | connection text | timeout text =>
          obtain ⟨hs, hr⟩ := Prod.mk.inj h
          exact hnext hno (Prod.ext rfl hr) hs.symm
        | client text | other text => cases h
      | xxl message =>
        obtain ⟨hs, hr⟩ := Prod.mk.inj h
        exact hnext hno (Prod.ext rfl hr) hs.symm
      | typeError => cases h

/-- The last of the addresses is the one whose error the round leaves. -/
theorem tryAddresses_lastError {sent : List Sent} {round round' : Round} {url : PyStr}
    (h : tryAddresses str times answer urls i round = (sent, .ended round'))
    (hlast : urls.getLast? = some url) :
    ∃ text, Fails str (answer (i + (urls.length - 1))) text ∧
      round'.lastError = some (url ++ py " " ++ text) := by
  induction urls generalizing i sent round with
  | nil => cases hlast
  | cons first rest ih =>
    simp only [tryAddresses] at h
    have hnext : ∀ {sent' : List Sent} {middle : Round},
        tryAddresses str times answer rest (i + 1) middle = (sent', .ended round') →
        (∃ text, Fails str (answer i) text ∧
          middle.lastError = some (first ++ py " " ++ text)) →
        ∃ text, Fails str (answer (i + ((first :: rest).length - 1))) text ∧
          round'.lastError = some (url ++ py " " ++ text) := by
      intro sent' middle hrest hmiddle
      cases rest with
      | nil =>
        cases hrest
        cases hlast
        exact hmiddle
      | cons second rest =>
        rw [List.getLast?_cons_cons] at hlast
        obtain ⟨text, hf, hl⟩ := ih hrest hlast
        refine ⟨text, ?_, hl⟩
        rw [show i + ((first :: second :: rest).length - 1) =
          i + 1 + ((second :: rest).length - 1) by simp only [List.length_cons]; omega]
        exact hf
    have hcomes := postOnce_comes (answer i)
    cases hp : postOnce (answer i) with
    | ok r =>
      rw [hp] at h
      cases h
    | error e =>
      rw [hp] at h hcomes
      cases e with
      | http e =>
        cases e with
        | connection text =>
          obtain ⟨-, hr⟩ := Prod.mk.inj h
          exact hnext (Prod.ext rfl hr) ⟨text, .inl (.inl hcomes), rfl⟩
        | timeout text =>
          obtain ⟨-, hr⟩ := Prod.mk.inj h
          exact hnext (Prod.ext rfl hr) ⟨text, .inl (.inr hcomes), rfl⟩
        | client text | other text => cases h
      | xxl message =>
        obtain ⟨-, hr⟩ := Prod.mk.inj h
        exact hnext (Prod.ext rfl hr) ⟨_, .inr ⟨message, hcomes, rfl⟩, rfl⟩
      | typeError => cases h

/-! ## The rounds -/

/-- A round in which every address is tried, and the sleep after it. -/
def wholeRound (n times : Nat) : List Sent := (List.range' 0 n).map (.post times) ++ [.sleep]

/-- So many whole rounds from round `times` on, then the first `asked` addresses once more. -/
def course (n times whole asked : Nat) : List Sent :=
  (List.range' times whole).flatMap (wholeRound n) ++
    (List.range' 0 asked).map (.post (times + whole))

/-- How the round ends that no other follows, with `more` for a round that is left. -/
def LastRound (str : PyVal → PyStr) (urls : List PyStr) (answer : Nat → Answer) (more : Prop)
    (asked : Nat) : Except PostError Response → Prop
  | .ok r => ∃ k < urls.length, asked = k + 1 ∧ Accepted (answer k) r ∧
      ∀ j < k, ¬Answered (answer j)
  | .error e => asked = urls.length ∧ (∀ k < urls.length, ¬Answered (answer k)) ∧
      ¬(GoesOn urls.length answer ∧ more) ∧
      ∀ url, urls.getLast? = some url → ∃ text, Fails str (answer (urls.length - 1)) text ∧
        e = .xxl (.str (url ++ py " " ++ text))

structure Course (str : PyVal → PyStr) (urls : List PyStr) (answers : Nat → Nat → Answer)
    (times left whole asked : Nat) (out : List Sent × Except PostError Response) : Prop where
  whole_lt : whole < left
  sent : out.1 = course urls.length times whole asked
  goesOn : ∀ q < whole, GoesOn urls.length (answers (times + q))
  last : LastRound str urls (answers (times + whole)) (whole + 1 < left) asked out.2

theorem course_succ (n times whole asked : Nat) :
    course n times (whole + 1) asked = wholeRound n times ++ course n (times + 1) whole asked := by
  rw [course, course, List.range'_succ, List.flatMap_cons, List.append_assoc,
    show times + (whole + 1) = times + 1 + whole by omega]

/-- A round that another follows, before the course of the others. -/
theorem Course.succ {whole asked : Nat} {out : List Sent × Except PostError Response}
    (hg : GoesOn urls.length (answers times))
    (h : Course str urls answers (times + 1) left whole asked out) :
    Course str urls answers times (left + 1) (whole + 1) asked
      (wholeRound urls.length times ++ out.1, out.2) where
  whole_lt := Nat.succ_lt_succ h.whole_lt
  sent := by rw [h.sent, course_succ]
  goesOn := by
    intro q hq
    cases q with
    | zero => exact hg
    | succ q =>
      rw [show times + (q + 1) = times + 1 + q by omega]
      exact h.goesOn q (Nat.lt_of_succ_lt_succ hq)
  last := by
    have := h.last
    rw [show times + (whole + 1) = times + 1 + whole by omega,
      show (whole + 1 + 1 < left + 1) = (whole + 1 < left) from propext Nat.succ_lt_succ_iff]
    exact this

theorem postRounds_course (str : PyVal → PyStr) (urls : List PyStr) (times left : Nat)
    (lastError : Option PyStr) (hout : ∀ t k, escapes (answers t k) = false) (hleft : 0 < left) :
    ∃ whole asked, Course str urls answers times left whole asked
      (postRounds str urls answers left times lastError) := by
  induction left generalizing times lastError with
  | zero => exact absurd hleft (Nat.lt_irrefl 0)
  | succ left ih =>
    have hends := tryAddresses_ends str urls times (i := 0) (answers times) ⟨false, lastError⟩
    simp only [postRounds]
    split
    · rename_i sent r hres
      obtain ⟨k, hk, hs, hp, hbefore⟩ := tryAddresses_returned hres
      simp only [Nat.zero_add] at hp hbefore
      exact ⟨0, k + 1, Nat.succ_pos _, by simpa [course] using hs,
        fun q hq => absurd hq (Nat.not_lt_zero q), k, hk, rfl, hp, hbefore⟩
    · rename_i sent e hres
      rw [hres] at hends
      obtain ⟨k, -, -, he, -⟩ := hends
      rw [hout] at he
      cases he
    · rename_i sent round hres
      rw [hres] at hends
      obtain ⟨hall, hs, hretry⟩ := hends
      simp only [Nat.zero_add, Bool.false_eq_true, false_or] at hall hretry
      simp only [retryable_iff] at hretry
      have hno : ∀ k < urls.length, ¬Answered (answers times k) := fun k hk ha =>
        hall k hk (.inl (answered_iff.mpr ha))
      split
      · rename_i hmore
        obtain ⟨whole, asked, hc⟩ := ih (times + 1) round.lastError hmore.2
        have : Course str urls answers times _ _ _ _ := hc.succ ⟨hno, hretry.mp hmore.1⟩
        refine ⟨whole + 1, asked, ?_⟩
        rw [hs]
        simpa [wholeRound] using this
      · rename_i hmore
        refine ⟨0, urls.length, Nat.succ_pos _, by simpa [course] using hs,
          fun q hq => absurd hq (Nat.not_lt_zero q), rfl, hno, ?_, ?_⟩
        · rintro ⟨hg, hlt⟩
          exact hmore ⟨hretry.mpr hg.2, by omega⟩
        · intro url hlast
          obtain ⟨text, hf, hl⟩ := tryAddresses_lastError hres hlast
          rw [Nat.zero_add] at hf
          exact ⟨text, hf, by rw [hl]; rfl⟩

/-! ## The requests of a course -/

theorem mem_course {whole asked t k : Nat} :
    Sent.post t k ∈ course n times whole asked ↔
      times ≤ t ∧ t < times + whole ∧ k < n ∨ t = times + whole ∧ k < asked := by
  rw [course, List.mem_append, mem_posts, List.mem_flatMap]
  refine or_congr_left ?_
  constructor
  · rintro ⟨u, hu, hm⟩
    rw [List.mem_range'_1] at hu
    rcases List.mem_append.mp hm with hm | hm
    · obtain ⟨rfl, hk⟩ := mem_posts.mp hm
      exact ⟨hu.1, hu.2, hk⟩
    · cases List.mem_singleton.mp hm
  · rintro ⟨hle, hlt, hk⟩
    exact ⟨t, List.mem_range'_1.mpr ⟨hle, hlt⟩, List.mem_append_left _ (mem_posts.mpr ⟨rfl, hk⟩)⟩

theorem count_posts_le (n times t k : Nat) :
    ((List.range' 0 n).map (Sent.post times)).count (.post t k) ≤ 1 := by
  refine List.nodup_iff_count_le_one.mp (List.Nodup.map ?_ List.nodup_range') _
  intro j j' h
  cases h
  rfl

theorem count_course_le (n times whole asked t k : Nat) :
    (course n times whole asked).count (.post t k) ≤ 1 := by
  induction whole generalizing times with
  | zero => simpa [course] using count_posts_le asked times t k
  | succ whole ih =>
    rw [course_succ, wholeRound, List.count_append, List.count_append]
    have hsleep : [Sent.sleep].count (.post t k) = 0 := rfl
    have hround := count_posts_le n times t k
    have hrest := ih (times + 1)
    by_cases ht : t = times
    · -- the later rounds do not ask in this one
      have : (course n (times + 1) whole asked).count (.post t k) = 0 := by
        refine List.count_eq_zero.mpr fun hm => ?_
        rcases mem_course.mp hm with ⟨hle, -⟩ | ⟨heq, -⟩ <;> omega
      omega
    · have : ((List.range' 0 n).map (Sent.post times)).count (.post t k) = 0 :=
        List.count_eq_zero.mpr fun hm => ht (mem_posts.mp hm).1
      omega

theorem getLast_course (n times whole k : Nat) :
    (course n times whole (k + 1)).getLast? = some (.post (times + whole) k) := by
  rw [course, List.range'_concat, List.map_append, ← List.append_assoc]
  simp

/-! ## A call -/

/-- Round `t` has sent a request. -/
def Started (sent : List Sent) (t : Nat) : Prop := ∃ k, .post t k ∈ sent

theorem started_course {whole asked t : Nat} (hn : 0 < n) (hasked : 0 < asked) :
    Started (course n times whole asked) t ↔ times ≤ t ∧ t ≤ times + whole := by
  constructor
  · rintro ⟨k, hk⟩
    rcases mem_course.mp hk with ⟨hle, hlt, -⟩ | ⟨heq, -⟩ <;> omega
  · rintro ⟨hle, hle'⟩
    rcases Nat.lt_or_eq_of_le hle' with hlt | heq
    · exact ⟨0, mem_course.mpr (.inl ⟨hle, hlt, hn⟩)⟩
    · exact ⟨0, mem_course.mpr (.inr ⟨heq, hasked⟩)⟩

/-- What the call has sent is a course over the addresses in their order. Round 1 starts, and each
other one exactly if the one before asks for it and there is one left. The first ok answer is
returned and nothing follows it; without one the error is that of the last address. -/
structure FailsOver (c : XXL) (retryTimes : Option Int) (answers : Nat → Nat → Answer) : Prop where
  sent : ∃ whole asked, 0 < asked ∧ asked ≤ c.adminUrls.length ∧
    (c.post retryTimes answers).1 = course c.adminUrls.length 1 whole asked
  once : ∀ t k, (c.post retryTimes answers).1.count (.post t k) ≤ 1
  first_round : Started (c.post retryTimes answers).1 1
  next_round : ∀ t, 1 ≤ t → (Started (c.post retryTimes answers).1 (t + 1) ↔
    Started (c.post retryTimes answers).1 t ∧ GoesOn c.adminUrls.length (answers t) ∧
      t < c.attempts retryTimes)
  first_ok : ∀ t k r, Started (c.post retryTimes answers).1 t → k < c.adminUrls.length →
    Accepted (answers t k) r → (∀ j < k, ¬Answered (answers t j)) →
      (c.post retryTimes answers).2 = .ok r ∧
        (c.post retryTimes answers).1.getLast? = some (.post t k)
  exhausted : (∀ t k, Started (c.post retryTimes answers).1 t → k < c.adminUrls.length →
      ¬Answered (answers t k)) →
    ∃ t url text, Started (c.post retryTimes answers).1 t ∧
      ¬Started (c.post retryTimes answers).1 (t + 1) ∧ c.adminUrls.getLast? = some url ∧
        Fails c.str (answers t (c.adminUrls.length - 1)) text ∧
          (c.post retryTimes answers).2 = .error (.xxl (.str (url ++ py " " ++ text)))

theorem LastRound.asked_pos {more : Prop} {asked : Nat} {res : Except PostError Response}
    (h : LastRound str urls answer more asked res) (hurls : 0 < urls.length) :
    0 < asked ∧ asked ≤ urls.length := by
  cases res with
  | ok r =>
    obtain ⟨k, hk, rfl, -⟩ := h
    exact ⟨Nat.succ_pos k, hk⟩
  | error e =>
    obtain ⟨rfl, -⟩ := h
    exact ⟨hurls, Nat.le_refl _⟩

/-- An ok answer of the last round is not followed by another round. -/
theorem LastRound.not_more {more : Prop} {asked : Nat} {res : Except PostError Response}
    (h : LastRound str urls answer more asked res) : ¬(GoesOn urls.length answer ∧ more) := by
  cases res with
  | ok r =>
    obtain ⟨k, hk, -, ha, -⟩ := h
    rintro ⟨hg, -⟩
    exact hg.1 k hk ⟨r, ha⟩
  | error e => exact h.2.2.1

/-- The first ok answer of the last round is what the call returns. -/
theorem LastRound.returned {more : Prop} {asked k : Nat} {res : Except PostError Response}
    {r : Response} (h : LastRound str urls answer more asked res) (hk : k < urls.length)
    (ha : Accepted (answer k) r) (hfirst : ∀ j < k, ¬Answered (answer j)) :
    res = .ok r ∧ asked = k + 1 := by
  cases res with
  | error e => exact absurd ⟨r, ha⟩ (h.2.1 k hk)
  | ok r' =>
    obtain ⟨k', -, rfl, ha', hfirst'⟩ := h
    rcases Nat.lt_trichotomy k' k with hlt | rfl | hlt
    · exact absurd ⟨r', ha'⟩ (hfirst k' hlt)
    · have hp := ha.postOnce
      rw [ha'.postOnce] at hp
      cases hp
      exact ⟨rfl, rfl⟩
    · exact absurd ⟨r, ha⟩ (hfirst' k hlt)

theorem LastRound.exhausted {more : Prop} {asked : Nat} {res : Except PostError Response}
    {url : PyStr} (h : LastRound str urls answer more asked res)
    (hno : ∀ k < urls.length, ¬Answered (answer k)) (hurl : urls.getLast? = some url) :
    ∃ text, Fails str (answer (urls.length - 1)) text ∧
      res = .error (.xxl (.str (url ++ py " " ++ text))) := by
  cases res with
  | ok r =>
    obtain ⟨k, hk, -, ha, -⟩ := h
    exact absurd ⟨r, ha⟩ (hno k hk)
  | error e =>
    obtain ⟨text, hf, he⟩ := h.2.2.2 url hurl
    exact ⟨text, hf, by rw [he]⟩

/-- A round but the last has no ok answer, and asks for the next. -/
theorem Course.goesOn_of_lt {whole asked t : Nat} {out : List Sent × Except PostError Response}
    (h : Course str urls answers times left whole asked out) (hle : times ≤ t)
    (hlt : t < times + whole) : GoesOn urls.length (answers t) := by
  have := h.goesOn (t - times) (by omega)
  rwa [show times + (t - times) = t by omega] at this

/-- The failover and the retry of `_post`: for admins that answer ok, refuse, or fail to connect in
time. -/
theorem post_fails_over {c : XXL} {retryTimes : Option Int} {answers : Nat → Nat → Answer}
    (hurls : c.adminUrls ≠ []) (hattempts : 1 ≤ c.attempts retryTimes)
    (hout : ∀ t k, Answered (answers t k) ∨ ∃ text, Fails c.str (answers t k) text) :
    FailsOver c retryTimes answers := by
  have hn : 0 < c.adminUrls.length := List.length_pos_iff.mpr hurls
  obtain ⟨whole, asked, hc⟩ := postRounds_course c.str c.adminUrls 1
    (c.attempts retryTimes).toNat none (fun t k => not_escapes (hout t k)) (by omega)
  change Course c.str c.adminUrls answers 1 _ whole asked (c.post retryTimes answers) at hc
  have hwhole := hc.whole_lt
  obtain ⟨hpos, hle⟩ := hc.last.asked_pos hn
  have hstarted : ∀ t, Started (c.post retryTimes answers).1 t ↔ 1 ≤ t ∧ t ≤ 1 + whole := by
    intro t
    rw [hc.sent]
    exact started_course hn hpos
  refine ⟨⟨whole, asked, hpos, hle, hc.sent⟩, ?_, ?_, ?_, ?_, ?_⟩
  · intro t k
    rw [hc.sent]
    exact count_course_le _ _ _ _ t k
  · rw [hstarted]
    omega
  · intro t ht
    rw [hstarted, hstarted]
    constructor
    · rintro ⟨-, hlt⟩
      exact ⟨by omega, hc.goesOn_of_lt ht (by omega), by omega⟩
    · rintro ⟨⟨-, hle'⟩, hg, hleft⟩
      rcases Nat.lt_or_eq_of_le hle' with hlt | rfl
      · omega
      · exact absurd ⟨hg, by omega⟩ hc.last.not_more
  · intro t k r hs hk ha hfirst
    rw [hstarted] at hs
    rcases Nat.lt_or_eq_of_le hs.2 with hlt | rfl
    · exact absurd ⟨r, ha⟩ ((hc.goesOn_of_lt hs.1 hlt).1 k hk)
    · obtain ⟨hres, rfl⟩ := hc.last.returned hk ha hfirst
      exact ⟨hres, by rw [hc.sent, getLast_course]⟩
  · intro hall
    have hlast : Started (c.post retryTimes answers).1 (1 + whole) := by
      rw [hstarted]
      omega
    have hurl := List.getLast?_eq_some_getLast hurls
    obtain ⟨text, hf, he⟩ := hc.last.exhausted (fun k hk => hall _ k hlast hk) hurl
    refine ⟨1 + whole, _, text, hlast, ?_, hurl, hf, he⟩
    rw [hstarted]
    omega

/-- In the first round one admin refuses and the other is not reached, then both answer. -/
def flaky (times address : Nat) : Answer :=
  if 1 < times then .ok ⟨200, .ok (.dict [(.str (py "code"), .int 200)]), .ok []⟩
  else if address = 0 then .ok ⟨500, .error (.other []), .ok (py "busy")⟩
  else .error (.timeout (py "no answer"))

theorem flaky_comes (times address : Nat) :
    Answered (flaky times address) ∨
      ∃ text, Fails twoAdmins.str (flaky times address) text := by
  unfold flaky
  split
  · exact .inl (answered_iff.mp rfl)
  split
  · exact .inr ⟨_, .inr ⟨_, .status (by decide) rfl, rfl⟩⟩
  · exact .inr ⟨_, .inl (.inr .post)⟩

/-- One refusal does not keep the second round from being tried. -/
theorem post_flaky_fails_over :
    FailsOver twoAdmins (some 3) flaky ∧
      (twoAdmins.post (some 3) flaky).1 = [.post 1 0, .post 1 1, .sleep, .post 2 0] :=
  ⟨post_fails_over (by decide) (by decide) flaky_comes, rfl⟩

end XXL
end Pyxxl
