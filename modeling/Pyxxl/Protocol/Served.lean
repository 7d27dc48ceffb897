import Pyxxl.Executor.Taken
import Pyxxl.Protocol.Server

/-!
# Pyxxl.Protocol.Served

What the scheduling center can rely on when the server has answered it, in every run: any number of
requests under way, in any order with the coroutines of the executor.

* `Routed w s`: each call of the executor is in the hands of at most one request, and that request
  had the right token and a body that says what the call says.
* `runs_accepted`: the triggers the executor has accepted are those of the `/run` requests that were
  answered 200, and of those whose COVER_EARLY still pushes its failures.
* `answers_kept`: where no callback is lost, each of them has its one callback when the executor
  rests, and no other request has one.
* `idle_beat_promise`: a job that was reported idle takes the next trigger.
-/

namespace Pyxxl
namespace Server

open Transition

variable {w : Site} {s s' : Server} {e : Event} {n c : Nat} {d : RunData} {r : WebRequest}

/-! ## Requests and calls -/

/-- What a `/run` request says, when it may and says it well. -/
def said (w : Site) (s : Server) (n : Nat) : Option RunData :=
  match s.requests[n]? with
  | some r =>
    if s.refuses r = false ∧ r.route = .run then
      match readRunData w.limits r.body with
      | .ok p => p.data
      | .error _ => none
    else none
  | none => none

/-- The calls of the executor and the requests that made them. -/
structure Routed (w : Site) (s : Server) : Prop where
  under : Executor.Under s.executor
  running : ∀ n d c, s.place n = .running d c →
    c < s.executor.nextCall ∧ (s.executor.call c).isRun d ∧ s.said w n = some d
  killing : ∀ n j c, s.place n = .killing j c →
    c < s.executor.nextCall ∧ (s.executor.call c).isKill ∧ s.said w n = none
  sleeping : ∀ n j, s.place n = .sleeping j → s.said w n = none
  alone : ∀ n m d d' c, s.place n = .running d c → s.place m = .running d' c → n = m
  asked : ∀ c d, c < s.executor.nextCall → s.executor.call c = .runLock d →
    ∃ n, s.place n = .running d c
  answered : ∀ n a, s.place n = .answered a → s.said w n = none
  unseen : ∀ n, s.requests.length ≤ n → s.place n = .reading
  refused : ∀ n r, s.requests[n]? = some r → s.refuses r = true → s.place n = .answered wrongToken

theorem routed_init (handler : String → Bool) (m : Int) (token : Option PyStr) :
    Routed w (init handler m token) where
  under := Executor.under_init handler m
  running n d c h := by cases h
  killing n j c h := by cases h
  sleeping n j h := by cases h
  alone n m d d' c h := by cases h
  asked c d h := absurd h (Nat.not_lt_zero c)
  answered n a h := by cases h
  unseen n _ := rfl
  refused n r h := by simp [init] at h

theorem said_lt (h : s.said w n = some d) : n < s.requests.length := by
  unfold said at h
  split at h
  · rename_i hr; exact (List.getElem?_eq_some_iff.mp hr).1
  · cases h

theorem said_arrive (hn : n < s.requests.length) (r : WebRequest) :
    (s.arrive r).said w n = s.said w n := by
  simp only [said, arrive, List.getElem?_append_left hn]
  rfl

/-! ## One event -/

theorem Routed.arrive (h : Routed w s) (r : WebRequest) : Routed w (s.arrive r) := by
  have hplace : ∀ n, n ≠ s.requests.length → (s.arrive r).place n = s.place n := fun n hn => by
    simp [Server.arrive, hn]
  have hnew : (s.arrive r).place s.requests.length = .reading ∨
      ∃ a, (s.arrive r).place s.requests.length = .answered a := by
    simp only [Server.arrive, Function.update_self]
    split
    · exact .inr ⟨_, rfl⟩
    · split
      · exact .inr ⟨_, rfl⟩
      · exact .inl rfl
  have hold : ∀ n {p}, (s.arrive r).place n = p → (∀ a, p ≠ .answered a) → p ≠ .reading →
      n ≠ s.requests.length ∧ s.place n = p := by
    intro n p hp ha hr
    have hne : n ≠ s.requests.length := by
      rintro rfl
      rcases hnew with hw | ⟨a, hw⟩
      · exact hr (hp.symm.trans hw)
      · exact ha a (hp.symm.trans hw)
    exact ⟨hne, by rw [← hplace n hne]; exact hp⟩
  have hkept : ∀ n, n ≠ s.requests.length → s.said w n = none → (s.arrive r).said w n = none := by
    intro n hn hnone
    have hlt : n < s.requests.length ∨ s.requests.length < n := by omega
    rcases hlt with hlt | hlt
    · rw [said_arrive hlt]
      exact hnone
    · have hget : (s.requests ++ [r])[n]? = none :=
        List.getElem?_eq_none (by simp only [List.length_append, List.length_singleton]; omega)
      simp only [said, Server.arrive, hget]
  refine ⟨h.under, fun n d c hp => ?_, fun n j c hp => ?_, fun n j hp => ?_,
    fun n m d d' c hp hp' => ?_, fun c d hc hcall => ?_, fun n a hp => ?_, fun n hn => ?_,
    fun n r' hr' href => ?_⟩
  · obtain ⟨hne, hp⟩ := hold n hp (fun a he => by cases he) (fun he => by cases he)
    obtain ⟨h1, h2, h3⟩ := h.running n d c hp
    exact ⟨h1, h2, by rw [said_arrive (said_lt h3)]; exact h3⟩
  · obtain ⟨hne, hp⟩ := hold n hp (fun a he => by cases he) (fun he => by cases he)
    obtain ⟨h1, h2, h3⟩ := h.killing n j c hp
    exact ⟨h1, h2, hkept n hne h3⟩
  · obtain ⟨hne, hp⟩ := hold n hp (fun a he => by cases he) (fun he => by cases he)
    exact hkept n hne (h.sleeping n j hp)
  · obtain ⟨-, hp⟩ := hold n hp (fun a he => by cases he) (fun he => by cases he)
    obtain ⟨-, hp'⟩ := hold m hp' (fun a he => by cases he) (fun he => by cases he)
    exact h.alone n m d d' c hp hp'
  · obtain ⟨n, hp⟩ := h.asked c d hc hcall
    have hlt := said_lt (h.running n d c hp).2.2
    exact ⟨n, by rw [hplace n (by omega)]; exact hp⟩
  · by_cases hn : n = s.requests.length
    · subst hn
      have hget : (s.requests ++ [r])[s.requests.length]? = some r := by simp
      simp only [Server.arrive, Function.update_self] at hp
      simp only [said, Server.arrive, hget]
      refine if_neg fun hand => ?_
      have href : s.refuses r = false := hand.1
      rw [href, hand.2] at hp
      simp at hp
    · exact hkept n hn (h.answered n a (by rw [← hplace n hn]; exact hp))
  · have hn' : (s.requests ++ [r]).length ≤ n := hn
    rw [List.length_append, List.length_singleton] at hn'
    rw [hplace n (by omega)]
    exact h.unseen n (by omega)
  · by_cases hn : n = s.requests.length
    · subst hn
      have hget : (s.requests ++ [r])[s.requests.length]? = some r := by simp
      have he : r' = r := by
        have : (s.requests ++ [r])[s.requests.length]? = some r' := hr'
        rw [hget] at this
        cases this
        rfl
      subst he
      have href' : s.refuses r' = true := href
      simp only [Server.arrive, Function.update_self, href', if_true]
    · have hr'' : (s.requests ++ [r])[n]? = some r' := hr'
      have hlt : n < s.requests.length := by
        have hlen := (List.getElem?_eq_some_iff.mp hr'').1
        rw [List.length_append, List.length_singleton] at hlen
        omega
      rw [List.getElem?_append_left hlt] at hr''
      rw [hplace n hn]
      exact h.refused n r' hr'' href

/-- The requests stand where they stood, and the executor has done something else than a `run_job`. -/
theorem Routed.executor (h : Routed w s) {x : Executor} (hu : Executor.Under x)
    (hk : Executor.Keeps s.executor x) : Routed w { s with executor := x } where
  under := hu
  running n d c hp := by
    obtain ⟨h1, h2, h3⟩ := h.running n d c hp
    exact ⟨Nat.lt_of_lt_of_le h1 hk.nextCall, hk.isRun c d h1 h2, h3⟩
  killing n j c hp := by
    obtain ⟨h1, h2, h3⟩ := h.killing n j c hp
    exact ⟨Nat.lt_of_lt_of_le h1 hk.nextCall, hk.isKill c h1 h2, h3⟩
  sleeping := h.sleeping
  alone := h.alone
  asked c d hc hcall := by
    by_cases hlt : c < s.executor.nextCall
    · exact h.asked c d hlt (hk.waits c d hlt hcall)
    · have hkill := hk.fresh c (by omega) hc
      rw [hcall] at hkill
      exact hkill.elim
  answered := h.answered
  unseen := h.unseen
  refused := h.refused

/-- A request that was reading goes to a place where it awaits no `run_job`. -/
theorem Routed.setPlace (h : Routed w s) {p : Place} (hn : n < s.requests.length)
    (hread : s.place n = .reading ∨ ∃ j, s.place n = .sleeping j)
    (hrun : ∀ d c, p ≠ .running d c) (hsaid : s.said w n = none)
    (hkill : ∀ j c, p = .killing j c → c < s.executor.nextCall ∧ (s.executor.call c).isKill) :
    Routed w (s.setPlace n p) := by
  have hplace : ∀ m, m ≠ n → (s.setPlace n p).place m = s.place m := fun m hm => by
    simp [Server.setPlace, hm]
  have hself : (s.setPlace n p).place n = p := by simp [Server.setPlace]
  have hold : ∀ m {d c}, (s.setPlace n p).place m = .running d c → s.place m = .running d c := by
    intro m d c hm
    by_cases hmn : m = n
    · subst hmn; rw [hself] at hm; exact absurd hm (hrun d c)
    · rw [← hplace m hmn]; exact hm
  refine ⟨h.under, fun m d c hm => h.running m d c (hold m hm), fun m j c hm => ?_,
    fun m j hm => ?_, fun m m' d d' c hm hm' => h.alone m m' d d' c (hold m hm) (hold m' hm'),
    fun c d hc hcall => ?_, fun m a hm => ?_, fun m hm => ?_, fun m r hr href => ?_⟩
  · by_cases hmn : m = n
    · subst hmn
      rw [hself] at hm
      obtain ⟨h1, h2⟩ := hkill j c hm
      exact ⟨h1, h2, hsaid⟩
    · rw [hplace m hmn] at hm; exact h.killing m j c hm
  · by_cases hmn : m = n
    · subst hmn; exact hsaid
    · rw [hplace m hmn] at hm; exact h.sleeping m j hm
  · obtain ⟨m, hm⟩ := h.asked c d hc hcall
    have hmn : m ≠ n := by
      rintro rfl
      rcases hread with hp | ⟨j, hp⟩
      · rw [hp] at hm; cases hm
      · rw [hp] at hm; cases hm
    exact ⟨m, by rw [hplace m hmn]; exact hm⟩
  · by_cases hmn : m = n
    · subst hmn; exact hsaid
    · rw [hplace m hmn] at hm; exact h.answered m a hm
  · have hmn : m ≠ n := by
      rintro rfl
      have : s.requests.length ≤ m := hm
      omega
    rw [hplace m hmn]
    exact h.unseen m hm
  · have hw := h.refused m r hr href
    have hmn : m ≠ n := by
      rintro rfl
      rcases hread with hp | ⟨j, hp⟩
      · rw [hp] at hw; cases hw
      · rw [hp] at hw; cases hw
    rw [hplace m hmn]
    exact hw

/-- What a route does with the body of its request. -/
inductive ReadStep (w : Site) (s : Server) (n : Nat) (s' : Server) : Prop where
  | answer (a : WebResponse) (h : s.said w n = none) (hs : s' = s.setPlace n (.answered a))
  | sleep (j : JobId) (h : s.said w n = none) (hs : s' = s.setPlace n (.sleeping j))
  | run (d : RunData) (h : s.said w n = some d)
      (hs : s' = { s.setPlace n (.running d s.executor.nextCall) with
        executor := s.executor.runJob d })

theorem read_cases (hr : s.requests[n]? = some r) (href : s.refuses r = false)
    (hs : s.read w n r = some s') : ReadStep w s n s' := by
  have hother : r.route ≠ .run → s.said w n = none := fun hne => by
    simp only [said, hr]
    exact if_neg fun hand => hne hand.2
  unfold Server.read at hs
  split at hs
  · cases hs
  · rename_i hroute
    have hnone := hother (by rw [hroute]; simp)
    split at hs
    · cases hs; exact .answer _ hnone rfl
    · cases hs; exact .answer _ hnone rfl
    · cases hs
  · rename_i hroute
    split at hs
    · rename_i err hbody
      cases hs
      refine .answer _ ?_ rfl
      simp only [said, hr, href, hroute, and_self, if_true, hbody]
    · rename_i p hbody
      split at hs
      · rename_i d hd
        cases hs
        refine .run d ?_ rfl
        simp only [said, hr, href, hroute, and_self, if_true, hbody, hd]
      · cases hs
  · rename_i hroute
    have hnone := hother (by rw [hroute]; simp)
    split at hs
    · cases hs; exact .answer _ hnone rfl
    · cases hs; exact .sleep _ hnone rfl
    · cases hs
  · rename_i hroute
    have hnone := hother (by rw [hroute]; simp)
    split at hs
    · cases hs; exact .answer _ hnone rfl
    · cases hs; exact .answer _ hnone rfl

/-- `/run` calls `run_job`. -/
theorem Routed.run (h : Routed w s) (hread : s.place n = .reading) (hsaid : s.said w n = some d)
    (hr : ∀ r, s.requests[n]? = some r → s.refuses r = false) :
    Routed w { s.setPlace n (.running d s.executor.nextCall) with
      executor := s.executor.runJob d } := by
  have hplace : ∀ m, m ≠ n →
      (s.setPlace n (.running d s.executor.nextCall)).place m = s.place m := fun m hm => by
    simp [Server.setPlace, hm]
  have hself : (s.setPlace n (.running d s.executor.nextCall)).place n =
      .running d s.executor.nextCall := by simp [Server.setPlace]
  have hother := fun c hc => Executor.runJob_others h.under.inv.books d (m := c) hc
  have hnext := (hother (s.executor.nextCall + 1) (by omega)).2
  have hstep : s.executor.step (.runJob d) = some (s.executor.runJob d) := rfl
  have hlt := said_lt hsaid
  refine ⟨Executor.step_under h.under hstep, fun m d' c hm => ?_, fun m j c hm => ?_,
    fun m j hm => ?_, fun m m' d₁ d₂ c hm hm' => ?_, fun c d' hc hcall => ?_, fun m a hm => ?_,
    fun m hm => ?_, fun m r hreq href => ?_⟩
  · show c < (s.executor.runJob d).nextCall ∧ ((s.executor.runJob d).call c).isRun d' ∧ _
    by_cases hmn : m = n
    · subst hmn
      have hm' : (s.setPlace m (.running d s.executor.nextCall)).place m = .running d' c := hm
      rw [hself] at hm'
      cases hm'
      exact ⟨by omega, (Executor.taken_runJob s.executor d).1, hsaid⟩
    · have hm' : (s.setPlace n (.running d s.executor.nextCall)).place m = .running d' c := hm
      rw [hplace m hmn] at hm'
      obtain ⟨h1, h2, h3⟩ := h.running m d' c hm'
      exact ⟨by omega, by rw [(hother c (by omega)).1]; exact h2, h3⟩
  · show c < (s.executor.runJob d).nextCall ∧ ((s.executor.runJob d).call c).isKill ∧ _
    have hmn : m ≠ n := by
      rintro rfl
      have hm' : (s.setPlace m (.running d s.executor.nextCall)).place m = .killing j c := hm
      rw [hself] at hm'
      cases hm'
    have hm' : (s.setPlace n (.running d s.executor.nextCall)).place m = .killing j c := hm
    rw [hplace m hmn] at hm'
    obtain ⟨h1, h2, h3⟩ := h.killing m j c hm'
    exact ⟨by omega, by rw [(hother c (by omega)).1]; exact h2, h3⟩
  · have hm' : (s.setPlace n (.running d s.executor.nextCall)).place m = .sleeping j := hm
    have hmn : m ≠ n := by
      rintro rfl
      rw [hself] at hm'
      cases hm'
    rw [hplace m hmn] at hm'
    exact h.sleeping m j hm'
  · have hcalls : ∀ k d₃, (s.setPlace n (.running d s.executor.nextCall)).place k = .running d₃ c →
        (k = n ∧ c = s.executor.nextCall) ∨
          k ≠ n ∧ s.place k = .running d₃ c ∧ c < s.executor.nextCall := by
      intro k d₃ hk
      by_cases hkn : k = n
      · subst hkn
        rw [hself] at hk
        cases hk
        exact .inl ⟨rfl, rfl⟩
      · rw [hplace k hkn] at hk
        exact .inr ⟨hkn, hk, (h.running k d₃ c hk).1⟩
    rcases hcalls m d₁ hm with ⟨h1, h2⟩ | ⟨h1, h2, h3⟩
    · rcases hcalls m' d₂ hm' with ⟨h4, h5⟩ | ⟨h4, h5, h6⟩
      · rw [h1, h4]
      · omega
    · rcases hcalls m' d₂ hm' with ⟨h4, h5⟩ | ⟨h4, h5, h6⟩
      · omega
      · exact h.alone m m' d₁ d₂ c h2 h5
  · have hc' : c < (s.executor.runJob d).nextCall := hc
    have hcall' : (s.executor.runJob d).call c = .runLock d' := hcall
    by_cases hcn : c = s.executor.nextCall
    · subst hcn
      have hrun := (Executor.taken_runJob s.executor d).1
      rw [hcall'] at hrun
      cases hrun
      exact ⟨n, hself⟩
    · rw [(hother c hcn).1] at hcall'
      obtain ⟨m, hm⟩ := h.asked c d' (by omega) hcall'
      have hmn : m ≠ n := by
        rintro rfl
        rw [hread] at hm
        cases hm
      exact ⟨m, (hplace m hmn).trans hm⟩
  · have hm' : (s.setPlace n (.running d s.executor.nextCall)).place m = .answered a := hm
    have hmn : m ≠ n := by
      rintro rfl
      rw [hself] at hm'
      cases hm'
    rw [hplace m hmn] at hm'
    exact h.answered m a hm'
  · have hm' : s.requests.length ≤ m := hm
    exact (hplace m (by omega)).trans (h.unseen m hm')
  · have hmn : m ≠ n := by
      rintro rfl
      have hfalse := hr r hreq
      have htrue : s.refuses r = true := href
      rw [hfalse] at htrue
      cases htrue
    exact (hplace m hmn).trans (h.refused m r hreq href)

/-- The sleep of `cancel_job` is over. -/
theorem Routed.wake (h : Routed w s) (hn : n < s.requests.length) {j : JobId}
    (hsleep : s.place n = .sleeping j) :
    Routed w { s.setPlace n (.killing j s.executor.nextCall) with
      executor := s.executor.cancelJob j true killReason } := by
  have hstep : s.executor.step (.cancelJob j true killReason) =
      some (s.executor.cancelJob j true killReason) := rfl
  have hnext := (Executor.cancelJob_others s.executor j true killReason
    (m := s.executor.nextCall + 1) (by omega)).2
  have hexec := h.executor (Executor.step_under h.under hstep)
    (Executor.step_taken h.under.inv hstep fun d hd => by cases hd)
  refine hexec.setPlace hn (.inr ⟨j, hsleep⟩) (fun d c hp => by cases hp) (h.sleeping n j hsleep) ?_
  intro k c hp
  cases hp
  refine ⟨?_, Executor.kill_cancelJob ..⟩
  show s.executor.nextCall < (s.executor.cancelJob j true killReason).nextCall
  omega

theorem step_routed (h : Routed w s) (hs : step w s e = some s') : Routed w s' := by
  cases e with
  | arrive r => cases hs; exact h.arrive r
  | read n =>
    simp only [step] at hs
    split at hs
    · rename_i r hr hread
      have hlt := (List.getElem?_eq_some_iff.mp hr).1
      have href : ∀ r', s.requests[n]? = some r' → s.refuses r' = false := fun r' hr' => by
        by_contra hne
        have hw := h.refused n r' hr' (by simpa using hne)
        rw [hread] at hw
        cases hw
      cases read_cases hr (href r hr) hs with
      | answer a hnone he =>
        rw [he]
        exact h.setPlace hlt (.inl hread) (fun d c hp => by cases hp) hnone
          fun j c hp => by cases hp
      | sleep j hnone he =>
        rw [he]
        exact h.setPlace hlt (.inl hread) (fun d c hp => by cases hp) hnone
          fun k c hp => by cases hp
      | run d hsaid he => rw [he]; exact h.run hread hsaid href
    · cases hs
  | wake n =>
    simp only [step] at hs
    split at hs
    · rename_i j hsleep
      split at hs
      · rename_i hn; cases hs; exact h.wake hn hsleep
      · cases hs
    · cases hs
  | executor e =>
    have hmap : (∀ d, e ≠ .runJob d) ∧
        (s.executor.step e).map (fun x => { s with executor := x }) = some s' := by
      cases e with
      | runJob d => cases hs
      | _ => exact ⟨(fun d hd => by cases hd), hs⟩
    obtain ⟨x, hx, rfl⟩ := Option.map_eq_some_iff.mp hmap.2
    exact h.executor (Executor.step_under h.under hx) (Executor.step_taken h.under.inv hx hmap.1)

/-! ## Accepted triggers -/

/-- Request `n` is a `/run` for `d`, and was answered 200. -/
def okRun (w : Site) (s : Server) (d : RunData) (n : Nat) : Bool :=
  s.said w n = some d && (s.answer w n).any fun a => a.code = 200

/-- Request `n` is a `/run` for `d` that has covered its job and still pushes the failures of those it
covered. -/
def pushingRun (s : Server) (d : RunData) (n : Nat) : Bool :=
  match s.place n with
  | .running d' c =>
    match s.executor.call c with
    | .coverPush _ _ _ _ _ => d' = d
    | _ => false
  | _ => false

def okRuns (w : Site) (s : Server) (d : RunData) : Nat :=
  (List.range s.requests.length).countP (s.okRun w d)

def pushingRuns (s : Server) (d : RunData) : Nat :=
  (List.range s.requests.length).countP (s.pushingRun d)

/-- The call of request `n` has accepted a trigger for `d`. -/
def took (s : Server) (d : RunData) (n : Nat) : Bool :=
  match s.place n with
  | .running d' c => decide (d' = d) && (s.executor.call c).took
  | _ => false

theorem runError_code (w : Site) (err : RunError) : (runError w err).code = 500 := by
  cases err <;> rfl

/-- A request whose trigger was accepted has been answered 200, or still pushes. -/
theorem Routed.took (h : Routed w s) (d : RunData) (n : Nat) :
    (s.took d n).toNat = (s.okRun w d n).toNat + (s.pushingRun d n).toNat := by
  simp only [Server.took, okRun, pushingRun, answer]
  cases hp : s.place n with
  | reading => simp
  | sleeping j => simp
  | answered a => simp [h.answered n a hp]
  | killing j c => simp [(h.killing n j c hp).2.2]
  | running d' c =>
    obtain ⟨-, hrun, hsaid⟩ := h.running n d' c hp
    cases hc : s.executor.call c with
    | runLock d'' => simp [hc, Executor.Call.took]
    | coverPush d'' x r rest reason => simp [hc, Executor.Call.took]
    | runDone res =>
      cases res with
      | ok r =>
        by_cases hd : d' = d
        · simp [hc, hsaid, hd, Executor.Call.took, runAnswer, WebResponse.code]
        · simp [hc, hsaid, hd, Executor.Call.took, runAnswer, WebResponse.code]
      | error err => simp [hc, Executor.Call.took, runAnswer, runError_code]
    | _ => rw [hc] at hrun; exact hrun.elim

/-- What has been accepted is what the requests have taken in. -/
def Counts (s : Server) : Prop :=
  ∀ d, s.executor.accepted.countP (fun x => x.data = d) =
    tally Bool.toNat s.requests.length (s.took d)

theorem countP_gain (x : Executor) (d d' : RunData) (c : Executor.Call) :
    (x.accepted ++ x.gain d c).countP (fun x => x.data = d') =
      x.accepted.countP (fun x => x.data = d') + (decide (d = d') && c.took).toNat := by
  rw [List.countP_append, Executor.gain]
  cases c.took with
  | false => simp
  | true =>
    by_cases hd : d = d'
    · simp [hd, Executor.newTrigger]
    · simp [hd, Executor.newTrigger]

/-- Nothing is accepted, and no request has taken in more or less than before. -/
theorem Counts.same (h : Counts s) (ha : s'.executor.accepted = s.executor.accepted)
    (hr : s'.requests = s.requests) (ht : ∀ d n, s'.took d n = s.took d n) : Counts s' := by
  intro d
  rw [ha, hr, h d]
  exact tally_congr _ fun n _ => by rw [ht]

theorem Counts.arrive (h : Counts s) (r : WebRequest) : Counts (s.arrive r) := by
  intro d
  have hold : ∀ n, n < s.requests.length → (s.arrive r).took d n = s.took d n := fun n hn => by
    have hne : n ≠ s.requests.length := by omega
    simp [Server.took, Server.arrive, hne]
  have hnew : (s.arrive r).took d s.requests.length = false := by
    simp only [Server.took, Server.arrive, Function.update_self]
    split
    · rename_i hp
      split at hp
      · cases hp
      · split at hp <;> cases hp
    · rfl
  show s.executor.accepted.countP (fun x => x.data = d) =
    tally Bool.toNat (s.requests ++ [r]).length ((s.arrive r).took d)
  rw [h d, List.length_append, List.length_singleton, tally_extend _ hold, hnew]
  rfl

/-- A request goes where it has taken nothing in, as before. -/
theorem took_setPlace {p : Place} (hread : ∀ d c, s.place n ≠ .running d c)
    (hrun : ∀ d c, p ≠ .running d c) (d : RunData) (m : Nat) :
    (s.setPlace n p).took d m = s.took d m := by
  by_cases hm : m = n
  · subst hm
    simp only [Server.took, Server.setPlace, Function.update_self]
  · simp [Server.took, Server.setPlace, hm]

theorem Counts.run (h : Counts s) (hrt : Routed w s) (hn : n < s.requests.length)
    (hread : s.place n = .reading) (d : RunData) :
    Counts { s.setPlace n (.running d s.executor.nextCall) with
      executor := s.executor.runJob d } := by
  intro d'
  have hother := fun c hc => Executor.runJob_others hrt.under.inv.books d (m := c) hc
  have hold : ∀ m, m < s.requests.length → m ≠ n →
      ({ s.setPlace n (.running d s.executor.nextCall) with
        executor := s.executor.runJob d } : Server).took d' m = s.took d' m := by
    intro m _ hm
    simp only [Server.took, Server.setPlace, Function.update_of_ne hm]
    cases hp : s.place m with
    | running d'' c =>
      have hlt := (hrt.running m d'' c hp).1
      simp only [(hother c (by omega)).1]
    | _ => rfl
  have hnew : ({ s.setPlace n (.running d s.executor.nextCall) with
      executor := s.executor.runJob d } : Server).took d' n =
        (decide (d = d') && ((s.executor.runJob d).call s.executor.nextCall).took) := by
    simp only [Server.took, Server.setPlace, Function.update_self]
  have hzero : s.took d' n = false := by simp only [Server.took, hread]
  have hchange := tally_change Bool.toNat hn hold
  rw [hnew, hzero, Bool.toNat_false] at hchange
  show (s.executor.runJob d).accepted.countP (fun x => x.data = d') = _
  rw [(Executor.taken_runJob s.executor d).2, countP_gain, h d']
  exact hchange.symm

theorem Counts.executor (h : Counts s) (hrt : Routed w s) {x : Executor}
    (hk : Executor.Keeps s.executor x) : Counts { s with executor := x } := by
  intro d'
  have hrun : ∀ m d c, s.place m = .running d c → c < s.executor.nextCall := fun m d c hm =>
    (hrt.running m d c hm).1
  rcases hk.taken with ⟨ha, htook⟩ | ⟨c, d, hc, hlock, ha, hsame⟩
  · refine @Counts.same s { s with executor := x } h ha rfl (fun d m => ?_) d'
    simp only [Server.took]
    cases hp : s.place m with
    | running d'' c => simp only [htook c (hrun m d'' c hp)]
    | _ => rfl
  · -- the one request that waits in this call
    obtain ⟨n, hn⟩ := hrt.asked c d hc hlock
    have hlt : n < s.requests.length := said_lt (hrt.running n d c hn).2.2
    have hold : ∀ m, m < s.requests.length → m ≠ n →
        ({ s with executor := x } : Server).took d' m = s.took d' m := by
      intro m _ hm
      simp only [Server.took]
      cases hp : s.place m with
      | running d'' c' =>
        have hne : c' ≠ c := by
          rintro rfl
          exact hm (hrt.alone m n d'' d c' hp hn)
        simp only [hsame c' (hrun m d'' c' hp) hne]
      | _ => rfl
    have hnew : ({ s with executor := x } : Server).took d' n =
        (decide (d = d') && (x.call c).took) := by simp only [Server.took, hn]
    have hzero : s.took d' n = false := by
      simp only [Server.took, hn, hlock, Executor.Call.took, Bool.and_false]
    have hchange := tally_change Bool.toNat hlt hold
    rw [hnew, hzero, Bool.toNat_false] at hchange
    show x.accepted.countP (fun x => x.data = d') = _
    rw [ha, countP_gain, h d']
    exact hchange.symm

theorem step_counts (h : Counts s) (hrt : Routed w s) (hs : step w s e = some s') :
    Counts s' := by
  cases e with
  | arrive r => cases hs; exact h.arrive r
  | read n =>
    simp only [step] at hs
    split at hs
    · rename_i r hr hread
      have hlt := (List.getElem?_eq_some_iff.mp hr).1
      have hnot : ∀ d c, s.place n ≠ .running d c := fun d c hp => by rw [hread] at hp; cases hp
      have href : s.refuses r = false := by
        by_contra hne
        have hw := hrt.refused n r hr (by simpa using hne)
        rw [hread] at hw
        cases hw
      cases read_cases hr href hs with
      | answer a _ he =>
        rw [he]
        exact h.same rfl rfl (took_setPlace hnot fun d c hp => by cases hp)
      | sleep j _ he =>
        rw [he]
        exact h.same rfl rfl (took_setPlace hnot fun d c hp => by cases hp)
      | run d _ he => rw [he]; exact h.run hrt hlt hread d
    · cases hs
  | wake n =>
    simp only [step] at hs
    split at hs
    · rename_i j hsleep
      split at hs
      · cases hs
        have hstep : s.executor.step (.cancelJob j true killReason) =
            some (s.executor.cancelJob j true killReason) := rfl
        have hexec := h.executor hrt
          (Executor.step_taken hrt.under.inv hstep fun d hd => by cases hd)
        refine hexec.same rfl rfl (took_setPlace (s := { s with
          executor := s.executor.cancelJob j true killReason }) (fun d c hp => ?_)
            fun d c hp => by cases hp)
        have hp' : s.place n = .running d c := hp
        rw [hsleep] at hp'
        cases hp'
      · cases hs
    · cases hs
  | executor e =>
    have hmap : (∀ d, e ≠ .runJob d) ∧
        (s.executor.step e).map (fun x => { s with executor := x }) = some s' := by
      cases e with
      | runJob d => cases hs
      | _ => exact ⟨(fun d hd => by cases hd), hs⟩
    obtain ⟨x, hx, rfl⟩ := Option.map_eq_some_iff.mp hmap.2
    exact h.executor hrt (Executor.step_taken hrt.under.inv hx hmap.1)

/-! ## Whole runs -/

/-- What the executor does in an event of the server. -/
theorem step_does (hs : step w s e = some s') : s'.executor = s.executor ∨
    ∃ e', s.executor.step e' = some s'.executor ∧ ((∃ d, e' = .runJob d) ∨
      (∃ j, e' = .cancelJob j true killReason) ∨ e = .executor e') := by
  cases e with
  | arrive r => cases hs; exact .inl rfl
  | read n =>
    simp only [step] at hs
    split at hs
    · rename_i r _ _
      unfold Server.read at hs
      split at hs
      · cases hs
      · split at hs
        · cases hs; exact .inl rfl
        · cases hs; exact .inl rfl
        · cases hs
      · split at hs
        · cases hs; exact .inl rfl
        · split at hs
          · rename_i d _
            cases hs
            exact .inr ⟨.runJob d, rfl, .inl ⟨d, rfl⟩⟩
          · cases hs
      · split at hs
        · cases hs; exact .inl rfl
        · cases hs; exact .inl rfl
        · cases hs
      · split at hs
        · cases hs; exact .inl rfl
        · cases hs; exact .inl rfl
    · cases hs
  | wake n =>
    simp only [step] at hs
    split at hs
    · rename_i j _
      split at hs
      · cases hs; exact .inr ⟨.cancelJob j true killReason, rfl, .inr (.inl ⟨j, rfl⟩)⟩
      · cases hs
    · cases hs
  | executor e =>
    have hmap : (s.executor.step e).map (fun x => { s with executor := x }) = some s' := by
      cases e with
      | runJob d => cases hs
      | _ => exact hs
    obtain ⟨x, hx, rfl⟩ := Option.map_eq_some_iff.mp hmap
    exact .inr ⟨e, hx, .inr (.inr rfl)⟩

/-- The executor's own run in a run of the server. -/
theorem step_executor {good : Executor → Executor.Event → Prop} (hrun : ∀ x d, good x (.runJob d))
    (hkill : ∀ x j q reason, good x (.cancelJob j q reason))
    (he : ∀ e', e = .executor e' → good s.executor e') (hs : step w s e = some s') :
    Steps Executor.step good s.executor s'.executor := by
  rcases step_does hs with hsame | ⟨e', hx, ⟨d, rfl⟩ | ⟨j, rfl⟩ | rfl⟩
  · rw [hsame]; exact .refl
  · exact .single (hrun s.executor d) hx
  · exact .single (hkill s.executor j true killReason) hx
  · exact .single (he e' rfl) hx

theorem reachable_executor {good : Executor → Executor.Event → Prop}
    (hrun : ∀ x d, good x (.runJob d)) (hkill : ∀ x j q reason, good x (.cancelJob j q reason))
    (h : Reachable w good s) : Executor.Reachable good s.executor := by
  obtain ⟨handler, m, token, hr⟩ := h
  refine ⟨handler, m, ?_⟩
  induction hr with
  | refl => exact .refl
  | tail _ he hs ih => exact ih.trans (step_executor hrun hkill he hs)

theorem reachable_routed {good : Executor → Executor.Event → Prop} (h : Reachable w good s) :
    Routed w s ∧ Counts s := by
  obtain ⟨handler, m, token, hr⟩ := h
  refine hr.invariant (P := fun s => Routed w s ∧ Counts s) (fun s e s' hi _ hs => ?_)
    ⟨routed_init handler m token, fun d => ?_⟩
  · exact ⟨step_routed hi.1 hs, step_counts hi.2 hi.1 hs⟩
  · simp [init, Executor.init, tally]

theorem Counts.accepted (h : Counts s) (hrt : Routed w s) (d : RunData) :
    s.executor.accepted.countP (fun x => x.data = d) = s.okRuns w d + s.pushingRuns d := by
  rw [h d, okRuns, pushingRuns, countP_range, countP_range]
  exact tally_add _ fun n _ => hrt.took d n

/-- The request whose route an event is a stretch of. -/
def Event.request (s : Server) : Event → Option WebRequest
  | .arrive r => some r
  | .read n | .wake n => s.requests[n]?
  | .executor _ => none

/-- The route of a request with the wrong token takes its first stretch and no other. -/
theorem Routed.refused_step (h : Routed w s) (hr : e.request s = some r)
    (href : s.refuses r = true) (hs : step w s e = some s') :
    e = .arrive r ∧ s'.executor = s.executor := by
  cases e with
  | arrive r' =>
    cases hr
    cases hs
    exact ⟨rfl, rfl⟩
  | read n =>
    have hp := h.refused n r hr href
    simp only [step, hp] at hs
    cases hq : s.requests[n]? with
    | none => rw [hq] at hs; cases hs
    | some r' => rw [hq] at hs; cases hs
  | wake n =>
    have hp := h.refused n r hr href
    simp only [step, hp] at hs
    cases hs
  | executor e' => cases hr

/-- In every run, whatever fails: the accepted triggers are those of the `/run` requests with the
right token and a well-formed body that were answered 200, and of those that still push the failures
of what they covered. A request with the wrong token is told so, and no step of it but its arrival
is possible, which leaves the executor as it is. -/
theorem runs_accepted (h : Reachable w Any s) :
    (∀ d, s.executor.accepted.countP (fun x => x.data = d) = s.okRuns w d + s.pushingRuns d) ∧
    (∀ n r, s.requests[n]? = some r → s.refuses r = true → s.answer w n = some wrongToken) ∧
    (∀ e r s', e.request s = some r → s.refuses r = true → step w s e = some s' →
      e = .arrive r ∧ s'.executor = s.executor) := by
  obtain ⟨hrt, hcount⟩ := reachable_routed h
  refine ⟨hcount.accepted hrt, fun n r hr href => ?_, fun e r s' => hrt.refused_step⟩
  simp only [answer, hrt.refused n r hr href]

/-! A `/run`, one without the token, and a `/kill` of the job while its task runs. -/

def site : Site := ⟨⟨990, 4300⟩, fun _ => [], some⟩

def runText : String :=
  "\x7b\"jobId\": 1, \"logId\": 5, \"executorHandler\": \"demo\", \"executorBlockStrategy\": \"\"\x7d"

def runBody : RunData := ⟨1, 5, "demo", "", none⟩

def visit : List Event :=
  [.arrive ⟨.run, some (py "token"), some (py runText)⟩, .arrive ⟨.run, none, some (py runText)⟩,
    .read 0, .arrive ⟨.kill, some (py "token"), some (py "\x7b\"jobId\": 1\x7d")⟩, .read 2,
    .executor (.start 0 .quiet), .wake 2]

set_option maxRecDepth 8000 in
def visited : Server :=
  (run (step site) (init (fun _ => true) 30 (some (py "token"))) visit).get rfl

theorem reachable_visited {good : Executor → Executor.Event → Prop}
    (h : ∀ x, good x (.start 0 .quiet)) : Reachable site good visited := by
  have hrun : run (step site) (init (fun _ => true) 30 (some (py "token"))) visit = some visited :=
    (Option.some_get _).symm
  refine ⟨fun _ => true, 30, some (py "token"), .of_run ?_ hrun⟩
  intro e he s e' hee
  subst hee
  simp only [visit, List.mem_cons, reduceCtorEq, false_or, List.not_mem_nil, or_false,
    Event.executor.injEq] at he
  rw [he]
  exact h s.executor

theorem runs_accepted_visited :
    visited.executor.accepted.countP (fun x => x.data = runBody) =
      visited.okRuns site runBody + visited.pushingRuns runBody ∧
    visited.answer site 1 = some wrongToken :=
  have h := runs_accepted (reachable_visited fun _ => trivial)
  ⟨h.1 runBody, h.2.1 1 ⟨.run, none, some (py runText)⟩ rfl rfl⟩

/-- Where no call is parked, no `/run` pushes. -/
theorem pushingRuns_zero (h : ∀ c, (s.executor.call c).parked = false) (d : RunData) :
    s.pushingRuns d = 0 := by
  rw [pushingRuns, List.countP_eq_zero]
  intro n _ hpush
  unfold pushingRun at hpush
  split at hpush
  · rename_i d' c _
    have hc := h c
    split at hpush
    · rename_i hcall
      rw [hcall] at hc
      cases hc
    · cases hpush
  · cases hpush

/-- A request that has gone on to the executor is answered once all calls have ended. -/
theorem Routed.answered_of_ended (h : Routed w s) (he : Executor.Ended s.executor) (n : Nat) :
    s.place n = .reading ∨ (∃ j, s.place n = .sleeping j) ∨ ∃ a, s.answer w n = some a := by
  cases hp : s.place n with
  | reading => exact .inl rfl
  | sleeping j => exact .inr (.inl ⟨j, rfl⟩)
  | answered a => exact .inr (.inr ⟨a, by simp only [answer, hp]⟩)
  | running d c =>
    obtain ⟨hlt, hrun, -⟩ := h.running n d c hp
    rcases he.calls c hlt with ⟨res, hres⟩ | ⟨exc, hexc⟩
    · exact .inr (.inr ⟨runAnswer w res, by simp only [answer, hp, hres]⟩)
    · rw [hexc] at hrun
      exact hrun.elim
  | killing j c =>
    obtain ⟨hlt, hkill, -⟩ := h.killing n j c hp
    rcases he.calls c hlt with ⟨res, hres⟩ | ⟨exc, hexc⟩
    · rw [hres] at hkill
      exact hkill.elim
    · exact .inr (.inr ⟨killAnswer exc, by simp only [answer, hp, hexc]⟩)

/-- What the executor does of its own, it does in the server too. -/
theorem run_executor : ∀ {es : List Executor.Event} {s : Server} {x : Executor},
    (∀ e ∈ es, e.own = true) → run Executor.step s.executor es = some x →
      run (step w) s (es.map .executor) = some { s with executor := x } := by
  intro es
  induction es with
  | nil => intro s x _ hr; cases hr; rfl
  | cons e es ih =>
    intro s x hes hr
    simp only [run] at hr
    split at hr
    · rename_i x₁ h₁
      have hown := hes e (List.mem_cons_self ..)
      have hstep : step w s (.executor e) = some { s with executor := x₁ } := by
        cases e with
        | runJob d => cases hown
        | _ => simp only [step, h₁, Option.map_some]
      have hrest := ih (s := { s with executor := x₁ })
        (fun e' he' => hes e' (List.mem_cons_of_mem _ he')) hr
      simp only [List.map_cons, run, hstep]
      exact hrest
    · cases hr

theorem ordinary_runJob (x : Executor) (d : RunData) : Executor.Ordinary x (.runJob d) :=
  ⟨⟨trivial, trivial, trivial⟩, trivial⟩

theorem ordinary_cancelJob (x : Executor) (j : JobId) (q : Bool) (reason : PyStr) :
    Executor.Ordinary x (.cancelJob j q reason) :=
  ⟨⟨trivial, trivial, trivial⟩, trivial⟩

/-- When the executor rests, each accepted trigger has its callback. -/
theorem callbacks_answered (h : Reachable w Executor.Ordinary s)
    (hrest : AtRest Executor.step Executor.Event.own s.executor) (d : RunData) :
    s.executor.callbacks.countP (fun c => c.1.data = d) = s.okRuns w d := by
  have hx := reachable_executor ordinary_runJob ordinary_cancelJob h
  obtain ⟨hrt, hcount⟩ := reachable_routed h
  have hfree := (Executor.calm_inv (fun _ _ he => he.1) hx).free
  have hperm := (Executor.reported_at_rest hx hrest).2
  have hzero := pushingRuns_zero hfree.call d
  have hmap : s.executor.callbacks.countP (fun c => c.1.data = d) =
      (s.executor.callbacks.map Prod.fst).countP (fun x => x.data = d) := by
    rw [List.countP_map]
    rfl
  rw [hmap, hperm.countP_eq, hcount.accepted hrt, hzero, Nat.add_zero]

/-- Where nobody calls `stop`, no handler is taken away and neither loggers nor observers fail: from
every state the executor can go on to its rest, and when it rests, every `/run` that was answered 200
has its one callback, no other has one, and every request whose body was read and whose sleep is over
has its answer. -/
theorem answers_kept (h : Reachable w Executor.Ordinary s) :
    (∃ (es : List Executor.Event) (x : Executor), (∀ e ∈ es, e.plain = true) ∧
      run (step w) s (es.map .executor) = some { s with executor := x } ∧
        AtRest Executor.step Executor.Event.own x) ∧
    (AtRest Executor.step Executor.Event.own s.executor →
      (∀ d, s.executor.callbacks.countP (fun c => c.1.data = d) = s.okRuns w d) ∧
        ∀ n, s.place n = .reading ∨ (∃ j, s.place n = .sleeping j) ∨ ∃ a, s.answer w n = some a) := by
  have hx := reachable_executor ordinary_runJob ordinary_cancelJob h
  have hu := Executor.under_reachable hx
  constructor
  · obtain ⟨es, x, hes, hr, hrest⟩ := Executor.descends_plain.rests
      (fun e he => e.own_noCall (e.plain_own he)) _ hu (Nat.le_refl _)
    exact ⟨es, x, hes, run_executor (fun e he => e.plain_own (hes e he)) hr,
      Executor.atRest_plain hrest⟩
  · intro hrest
    have hfree := (Executor.calm_inv (fun _ _ he => he.1) hx).free
    exact ⟨callbacks_answered h hrest, (reachable_routed h).1.answered_of_ended
      (hu.ended hrest fun n => by simp [hfree.worker])⟩

theorem answers_kept_visited : ∃ s : Server, s.requests = visited.requests ∧
    ∀ d, s.executor.callbacks.countP (fun c => c.1.data = d) = s.okRuns site d := by
  have hstart : ∀ x : Executor, Executor.Ordinary x (.start 0 .quiet) := fun _ =>
    Executor.Event.plain_ordinary _ rfl
  obtain ⟨es, x, hes, hr, hrest⟩ := (answers_kept (reachable_visited hstart)).1
  refine ⟨{ visited with executor := x }, rfl, ?_⟩
  obtain ⟨handler, m, token, hs⟩ := reachable_visited hstart
  refine ((answers_kept ⟨handler, m, token, hs.trans (.of_run (fun e he s e' hee => ?_) hr)⟩).2
    hrest).1
  obtain ⟨e₀, he₀, rfl⟩ := List.mem_map.mp he
  cases hee
  exact Executor.Event.plain_ordinary _ (hes _ he₀)

/-! ## Idle jobs -/

theorem not_busy {x : Executor} {j : JobId} :
    x.isRunningOrHasQueue j = false ↔ x.idle j = true := by
  simp only [Executor.isRunningOrHasQueue, Executor.idle]
  cases x.tasks j <;> cases x.queue j <;> cases x.coverReplacements j <;> simp

/-- A job that is not busy holds no log ids. -/
theorem logIds_of_idle {x : Executor} (h : Executor.Books x) {j : JobId} (hi : x.idle j = true) :
    x.jobLogIds j = ∅ := by
  simp only [Executor.idle, Bool.and_eq_true, Option.isNone_iff_eq_none, List.isEmpty_iff] at hi
  have hline : x.line j = [] :=
    (Executor.line_nil x j).mpr ⟨hi.1.1, (h.job j).lone hi.1.1⟩
  rw [(h.job j).logIds, hline]
  rfl

theorem running_iff {x : Executor} {n : Nat} {d : RunData}
    (hlog : x.idle d.jobId = true → x.jobLogIds d.jobId = ∅) :
    (x.runJobLocked n d).call n = .runDone (.ok .running) ↔ x.idle d.jobId = true := by
  constructor
  · intro hrun
    by_contra hidle
    unfold Executor.runJobLocked at hrun
    rw [if_neg hidle] at hrun
    split at hrun
    · simp [Executor.runReturn_call] at hrun
    split at hrun
    · simp [Executor.runReturn_call] at hrun
    split at hrun
    · unfold Executor.handleCoverEarly Executor.coverPush at hrun
      split at hrun
      · simp [Executor.runReturn_call] at hrun
      · simp [Executor.setCall] at hrun
    split at hrun
    · unfold Executor.handleSerialExecution at hrun
      split at hrun <;> simp [Executor.runReturn_call] at hrun
    · simp [Executor.runReturn_call] at hrun
  · intro hidle
    have hnot : d.logId ∉ x.jobLogIds d.jobId := by simp [hlog hidle]
    rw [Executor.runJobLocked, if_neg hnot, if_pos hidle, Executor.runReturn_call]

/-- In every run: the next trigger of a job starts at once, whatever its `logId` and its block
strategy, if and only if `/idleBeat` reports the job idle and its lock is free. -/
theorem idle_beat_promise (h : Reachable w Any s) (d : RunData)
    (hd : s.executor.handler d.executorHandler = true) :
    (s.executor.runJob d).call s.executor.nextCall = .runDone (.ok .running) ↔
      s.idleBeat d.jobId = ok ∧ s.executor.jobLocks d.jobId = [] := by
  have hbooks := (reachable_routed h).1.under.inv.books
  have hidle : s.idleBeat d.jobId = ok ↔ s.executor.idle d.jobId = true := by
    rw [← not_busy, idleBeat]
    cases s.executor.isRunningOrHasQueue d.jobId <;> simp [ok, busy]
  rw [hidle]
  simp only [Executor.runJob, hd, if_true]
  by_cases hlock : s.executor.jobLocks d.jobId = []
  · simp only [hlock, if_true, and_true]
    exact running_iff (x := s.executor.openCall.lockJob d.jobId (.call s.executor.nextCall))
      (logIds_of_idle hbooks)
  · simp only [hlock, if_false, and_false, iff_false]
    simp [Executor.setCall]

/-- Another job than the one that runs. -/
def otherJob : RunData := ⟨2, 5, "demo", "", none⟩

set_option maxRecDepth 8000 in
theorem idle_beat_promise_visited :
    (visited.executor.runJob otherJob).call visited.executor.nextCall = .runDone (.ok .running) :=
  (idle_beat_promise (@reachable_visited Any fun _ => trivial) otherJob rfl).mpr ⟨rfl, rfl⟩

end Server
end Pyxxl
