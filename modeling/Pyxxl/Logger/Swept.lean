import Pyxxl.Logger.Expiry

/-!
# Pyxxl.Logger.Swept

What the rounds of `expired_loop` leave in the directory.

* `Covered`: the files a round has nothing more to do with are young enough, or `getctime` has failed
  for them.
* `directory_swept`: that is so of every file once a round is over, whatever was written meanwhile;
  and as long as the loop has not ended, it can go on to the end of a round that is yet to begin.
* `ended_for_good`: after an error or a `cancel` nothing is removed any more.
-/

namespace Pyxxl

open Transition

/-- The round in progress, from the listing on. -/
def SweepPhase.sweep : SweepPhase → Option Sweep
  | .scanning sweep _ _ | .deleting sweep _ _ _ => some sweep
  | _ => none

namespace ExpiredLoop

variable {expiredSeconds : Int} {c : Expiry} {s s' : ExpiredLoop}

/-! ## What is left -/

/-- The files that the round has nothing more to do with, but for these names. -/
def Covered (expiredSeconds : Int) (s : ExpiredLoop) (sweep : Sweep) (names : List PyStr) : Prop :=
  ∀ name n, s.entries name = some n → logNameRegex name = true →
    name ∈ names ∨ name ∈ sweep.skipped ∨ sweep.start - expiredSeconds ≤ (s.files n).ctime

def PhaseCovered (expiredSeconds : Int) (s : ExpiredLoop) : SweepPhase → Prop
  | .scanning sweep todo delList => Covered expiredSeconds s sweep (todo ++ delList)
  | .deleting sweep _ delList _ => Covered expiredSeconds s sweep delList
  | _ => True

structure Complete (expiredSeconds : Int) (s : ExpiredLoop) : Prop
    extends Careful expiredSeconds s where
  covered : PhaseCovered expiredSeconds s s.phase
  swept : ∀ sweep ∈ s.swept, sweep.start ≤ s.now ∧ Covered expiredSeconds s sweep []

theorem Goes.covered (h : Goes s s') (hs : Sane s) (hs' : Sane s') (hnn : 0 ≤ expiredSeconds)
    {sweep : Sweep} {names : List PyStr} (hstart : sweep.start ≤ s.now)
    (hc : Covered expiredSeconds s sweep names) : Covered expiredSeconds s' sweep names := by
  intro name n he hregex
  rcases h.entries name n he with hold | hnew
  · have hctime := h.ctime n (hs.named name n hold).1
    exact (hc name n hold hregex).imp_right fun hc => hc.imp_right fun hc =>
      Int.le_trans hc hctime
  · have hborn := (h.born n hnew (hs'.named name n he).1).2
    exact .inr (.inr (by omega))

theorem Goes.phaseCovered (h : Goes s s') (hs : Sane s) (hs' : Sane s')
    (hnn : 0 ≤ expiredSeconds) {phase : SweepPhase} (hp : PhaseOk expiredSeconds s phase)
    (hc : PhaseCovered expiredSeconds s phase) : PhaseCovered expiredSeconds s' phase := by
  cases phase with
  | scanning sweep todo delList => exact h.covered hs hs' hnn hp.1 hc
  | deleting sweep i delList paused => exact h.covered hs hs' hnn hp.1 hc
  | _ => exact trivial

theorem visit_covered {sweep : Sweep} {name : PyStr} {todo delList : List PyStr} (fails : Bool)
    (hc : Covered expiredSeconds s sweep (name :: todo ++ delList)) :
    PhaseCovered expiredSeconds s (s.visit expiredSeconds sweep name todo delList fails) := by
  -- of the names, only the one looked at may get lost
  have hother : ∀ name' n, s.entries name' = some n → logNameRegex name' = true → name' ≠ name →
      name' ∈ todo ++ delList ∨ name' ∈ sweep.skipped ∨
        sweep.start - expiredSeconds ≤ (s.files n).ctime := by
    intro name' n he hregex hne
    exact (hc name' n he hregex).imp_left fun hm => (List.mem_cons.mp hm).resolve_left hne
  unfold visit
  split
  · rename_i hnone
    intro name' n he hregex
    refine hother name' n he hregex fun heq => ?_
    rw [heq, hnone] at he
    cases he
  · rename_i n hn
    split
    · intro name' n' he hregex
      by_cases heq : name' = name
      · exact .inr (.inl (List.mem_append_right _ (by rw [heq]; exact List.mem_singleton_self _)))
      · exact (hother name' n' he hregex heq).imp_right fun hc => hc.imp_left fun hm =>
          List.mem_append_left _ hm
    · split
      · intro name' n' he hregex
        rw [← List.append_assoc]
        by_cases heq : name' = name
        · exact .inl (List.mem_append_right _ (by rw [heq]; exact List.mem_singleton_self _))
        · exact (hother name' n' he hregex heq).imp_left fun hm => List.mem_append_left _ hm
      · rename_i hyoung
        intro name' n' he hregex
        by_cases heq : name' = name
        · rw [heq, hn, Option.some.injEq] at he
          rw [← he]
          exact .inr (.inr (Int.not_lt.mp hyoung))
        · exact hother name' n' he hregex heq

theorem Turns.phaseCovered {phase phase' : SweepPhase} (ht : Turns expiredSeconds s phase phase')
    (hc : PhaseCovered expiredSeconds s phase) : PhaseCovered expiredSeconds s phase' := by
  cases ht with
  | wakes wake => exact trivial
  | lists start names hl =>
    intro name n he hregex
    rw [List.append_nil]
    exact .inl (List.mem_filter.mpr ⟨hl name n he hregex, hregex⟩)
  | visits sweep name todo delList fails => exact visit_covered fails hc
  | scanned sweep delList => exact hc
  | pauses sweep i delList wake => exact hc
  | ends _ => exact trivial

theorem Complete.does (h : Complete expiredSeconds s) (hnn : 0 ≤ expiredSeconds)
    (hd : Does expiredSeconds s s') : Complete expiredSeconds s' := by
  obtain ⟨hs', hgoes⟩ := hd.goes h.toSane
  have hphase := hgoes.phaseCovered h.toSane hs' hnn h.phase h.covered
  have hswept : ∀ sweep ∈ s.swept, sweep.start ≤ s'.now ∧ Covered expiredSeconds s' sweep [] := by
    intro sweep hm
    obtain ⟨hstart, hc⟩ := h.swept sweep hm
    exact ⟨Int.le_trans hstart hgoes.now, hgoes.covered h.toSane hs' hnn hstart hc⟩
  refine ⟨h.toCareful.does hd, ?_, ?_⟩
  · cases hd with
    | opens handler name =>
      rw [(openStream_same s handler name).1]
      exact hphase
    | turns phase ht => exact ht.phaseCovered h.covered
    | unlinks sweep i name delList paused hp =>
      rw [hp] at hphase
      intro name' n he hregex
      exact (hphase name' n he hregex).imp_left fun hm =>
        (List.mem_cons.mp hm).resolve_left (update_none he).1
    | rests sweep i paused wake _ => exact trivial
    | _ => exact hphase
  · cases hd with
    | opens handler name =>
      rw [(openStream_same s handler name).2.2]
      exact hswept
    | rests sweep i paused wake hp =>
      intro sweep' hm
      rcases List.mem_append.mp hm with hm | hm
      · exact hswept sweep' hm
      · rw [hp] at hphase
        have hok := h.phase
        rw [hp] at hok
        rw [List.mem_singleton.mp hm]
        exact ⟨hok.1, hphase⟩
    | _ => exact hswept

theorem reachable_complete (h : Reachable c s) (hnn : 0 ≤ c.expiredSeconds) :
    Complete c.expiredSeconds s := by
  obtain ⟨s₀, hinit, hs⟩ := h
  refine hs.invariant (fun _ _ _ hc hl hstep => hc.does hnn (step_does hl hstep))
    ⟨hinit.careful, ?_, ?_⟩
  · rw [hinit.phase]
    exact trivial
  · intro sweep hm
    rw [hinit.swept] at hm
    cases hm

/-! ## To the end of a round -/

/-- How far the end of the round is. -/
def toDo (s : ExpiredLoop) : Nat :=
  match s.phase with
  | .scanning _ todo delList => 3 * todo.length + 2 * delList.length + 3
  | .deleting _ _ delList paused => 2 * delList.length + 2 - paused.isSome.toNat
  | _ => 0

/-- The loop goes on while time passes, and nothing fails. -/
def Alone (s : ExpiredLoop) : Event → Prop
  | .tick _ | .wakes | .visits false | .scanned | .pauses | .unlinks | .rests => True
  | .lists names => Listed s (.lists names)
  | _ => False

theorem Alone.listed {e : Event} (h : Alone s e) : Listed s e := by
  cases e with
  | lists names => exact h
  | _ => exact trivial

theorem reachable_alone (h : Reachable c s) (hs : Steps (step c) Alone s s') : Reachable c s' := by
  obtain ⟨s₀, hinit, hsteps⟩ := h
  exact ⟨s₀, hinit, hsteps.trans (hs.mono fun _ _ ha => ha.listed)⟩

/-- The loop stays in the round, or has finished it. -/
structure InRound (sweep : Sweep) (s s' : ExpiredLoop) : Prop where
  now : s.now ≤ s'.now
  goes : s'.phase.sweep = some sweep ∨ ((∃ wake, s'.phase = .sleeping wake) ∧ sweep ∈ s'.swept)

/-- The loop can go on in the round. -/
def Nears (c : Expiry) (sweep : Sweep) (s : ExpiredLoop) : Prop :=
  ∃ s', Steps (step c) Alone s s' ∧ InRound sweep s s' ∧ s'.toDo < s.toDo

theorem scanning_nears {sweep : Sweep} {todo delList : List PyStr}
    (hp : s.phase = .scanning sweep todo delList) : Nears c sweep s := by
  cases todo with
  | nil =>
    have hscanned : step c s .scanned = some (s.setPhase (.deleting sweep 1 delList none)) := by
      simp only [step, hp]
    have ha : Alone s .scanned := trivial
    refine ⟨_, .single ha hscanned, ⟨Int.le_refl _, .inl rfl⟩, ?_⟩
    simp only [toDo, hp, setPhase, List.length_nil, Option.isSome_none, Bool.toNat_false]
    omega
  | cons name todo =>
    have hvisits : step c s (.visits false) =
        some (s.setPhase (s.visit c.expiredSeconds sweep name todo delList false)) := by
      simp only [step, hp]
    have ha : Alone s (.visits false) := trivial
    have hcases : s.visit c.expiredSeconds sweep name todo delList false =
          .scanning sweep todo delList ∨
        s.visit c.expiredSeconds sweep name todo delList false =
          .scanning sweep todo (delList ++ [name]) := by
      unfold visit
      split
      · exact .inl rfl
      · simp only [Bool.false_eq_true, if_false]
        split
        · exact .inr rfl
        · exact .inl rfl
    refine ⟨_, .single ha hvisits, ⟨Int.le_refl _, .inl ?_⟩, ?_⟩
    · rcases hcases with hv | hv
      · rw [hv]
        rfl
      · rw [hv]
        rfl
    · rcases hcases with hv | hv
      · rw [hv]
        simp only [toDo, hp, setPhase, List.length_cons]
        omega
      · rw [hv]
        simp only [toDo, hp, setPhase, List.length_cons, List.length_append, List.length_nil]
        omega

/-- With the time of the `sleep` over, or without one. -/
theorem due_nears {sweep : Sweep} {i : Nat} {name : PyStr} {delList : List PyStr}
    {paused : Option Int} (hp : s.phase = .deleting sweep i (name :: delList) paused)
    (hd : s.due i paused = true) : Nears c sweep s := by
  have hunlinks : step c s .unlinks = some (s.unlink sweep i name delList) := by
    simp only [step, hp, hd, if_true]
  have ha : Alone s .unlinks := trivial
  refine ⟨_, .single ha hunlinks, ⟨Int.le_refl _, .inl rfl⟩, ?_⟩
  have hle := Bool.toNat_le paused.isSome
  simp only [toDo, hp, unlink, List.length_cons, Option.isSome_none, Bool.toNat_false]
  omega

theorem deleting_nears {sweep : Sweep} {i : Nat} {delList : List PyStr} {paused : Option Int}
    (hp : s.phase = .deleting sweep i delList paused) : Nears c sweep s := by
  cases delList with
  | nil =>
    have hrests : step c s .rests =
        some { s with phase := .sleeping (s.now + c.interval), swept := s.swept ++ [sweep] } := by
      simp only [step, hp]
    have ha : Alone s .rests := trivial
    refine ⟨_, .single ha hrests, ⟨Int.le_refl _, .inr ⟨⟨_, rfl⟩, ?_⟩⟩, ?_⟩
    · exact List.mem_append_right _ (List.mem_singleton_self sweep)
    · have hle := Bool.toNat_le paused.isSome
      simp only [toDo, hp, List.length_nil]
      omega
  | cons name delList =>
    by_cases hd : s.due i paused = true
    · exact due_nears hp hd
    · cases paused with
      | none =>
        have hi : i % batch = 0 := by simpa [due] using hd
        have hpauses : step c s .pauses =
            some (s.setPhase (.deleting sweep i (name :: delList) (some (s.now + c.pause)))) := by
          simp only [step, hp, hi, if_true]
        have ha : Alone s .pauses := trivial
        refine ⟨_, .single ha hpauses, ⟨Int.le_refl _, .inl rfl⟩, ?_⟩
        simp only [toDo, hp, setPhase, List.length_cons, Option.isSome_none, Option.isSome_some,
          Bool.toNat_false, Bool.toNat_true]
        omega
      | some wake =>
        -- the `sleep` takes its time, and the element is removed
        have hlt : s.now < wake := by simpa [due] using hd
        have htick : Alone s (.tick (wake - s.now).toNat) := trivial
        have hdue : ({ s with now := s.now + (wake - s.now).toNat } : ExpiredLoop).due i
            (some wake) = true := by
          simp only [due, decide_eq_true_eq]
          omega
        obtain ⟨s', hsteps, hin, hfalls⟩ := due_nears (c := c)
          (s := { s with now := s.now + (wake - s.now).toNat }) hp hdue
        refine ⟨s', (Steps.single htick rfl).trans hsteps, ⟨?_, hin.goes⟩, hfalls⟩
        have hnow := hin.now
        simp only at hnow
        omega

theorem finish_round {sweep : Sweep} (hp : s.phase.sweep = some sweep) :
    ∃ s' wake, Steps (step c) Alone s s' ∧ s.now ≤ s'.now ∧ s'.phase = .sleeping wake ∧
      sweep ∈ s'.swept := by
  induction hn : s.toDo using Nat.strong_induction_on generalizing s with
  | _ n ih =>
    have hnears : Nears c sweep s := by
      cases hphase : s.phase with
      | scanning sweep' todo delList =>
        rw [hphase] at hp
        cases hp
        exact scanning_nears hphase
      | deleting sweep' i delList paused =>
        rw [hphase] at hp
        cases hp
        exact deleting_nears hphase
      | sleeping _ | started _ | ended =>
        rw [hphase] at hp
        cases hp
    obtain ⟨s₁, hsteps₁, hin, hfalls⟩ := hnears
    rcases hin.goes with hgoes | ⟨⟨wake, hsleep⟩, hswept⟩
    · obtain ⟨s', wake, hsteps, hnow, hrest⟩ := ih _ (hn ▸ hfalls) hgoes rfl
      exact ⟨s', wake, hsteps₁.trans hsteps, Int.le_trans hin.now hnow, hrest⟩
    · exact ⟨s₁, wake, hsteps₁, hin.now, hsleep, hswept⟩

/-- The names in the directory. -/
def names (s : ExpiredLoop) : List PyStr := (List.range s.nextFile).map fun n => (s.files n).name

theorem Sane.listed (h : Sane s) : Listed s (.lists s.names) := by
  intro name n he _
  obtain ⟨hlt, hname⟩ := h.named name n he
  exact List.mem_map.mpr ⟨n, List.mem_range.mpr hlt, hname⟩

theorem finish_started (h : Sane s) {start : Int} (hp : s.phase = .started start) :
    ∃ s' wake, Steps (step c) Alone s s' ∧ s.now ≤ s'.now ∧ s'.phase = .sleeping wake ∧
      ⟨start, []⟩ ∈ s'.swept := by
  have hlists : step c s (.lists s.names) =
      some (s.setPhase (.scanning ⟨start, []⟩ (s.names.filter logNameRegex) [])) := by
    simp only [step, hp]
  have ha : Alone s (.lists s.names) := h.listed
  have hscan : (s.setPhase (.scanning ⟨start, []⟩ (s.names.filter logNameRegex) [])).phase.sweep =
      some ⟨start, []⟩ := rfl
  obtain ⟨s', wake, hsteps, hrest⟩ := finish_round (c := c) hscan
  exact ⟨s', wake, (Steps.single ha hlists).trans hsteps, hrest⟩

theorem falls_asleep (h : Sane s) (hne : s.phase ≠ .ended) :
    ∃ s' wake, Steps (step c) Alone s s' ∧ s.now ≤ s'.now ∧ s'.phase = .sleeping wake := by
  cases hp : s.phase with
  | sleeping wake => exact ⟨s, wake, .refl, Int.le_refl _, hp⟩
  | started start =>
    obtain ⟨s', wake, hsteps, hnow, hsleep, -⟩ := finish_started (c := c) h hp
    exact ⟨s', wake, hsteps, hnow, hsleep⟩
  | scanning sweep todo delList | deleting sweep i delList paused =>
    have hsweep : s.phase.sweep = some sweep := by rw [hp]; rfl
    obtain ⟨s', wake, hsteps, hnow, hsleep, -⟩ := finish_round (c := c) hsweep
    exact ⟨s', wake, hsteps, hnow, hsleep⟩
  | ended => exact absurd hp hne

/-- The loop wakes when its `sleep` is over, and goes on to the end of the round. -/
theorem sweeps_again (h : Reachable c s) (hne : s.phase ≠ .ended) :
    ∃ s' wake start, Steps (step c) Alone s s' ∧ s.now ≤ start ∧ s'.phase = .sleeping wake ∧
      ⟨start, []⟩ ∈ s'.swept := by
  obtain ⟨s₁, wake₁, hsteps₁, hnow₁, hsleep₁⟩ :=
    falls_asleep (c := c) (reachable_careful h).toSane hne
  have hsane := (reachable_careful (reachable_alone h hsteps₁)).toSane
  -- the rest of the interval
  let s₂ : ExpiredLoop := { s₁ with now := s₁.now + (wake₁ - s₁.now).toNat }
  have htick : Alone s₁ (.tick (wake₁ - s₁.now).toNat) := trivial
  have hticks : step c s₁ (.tick (wake₁ - s₁.now).toNat) = some s₂ := rfl
  have hwakes : step c s₂ .wakes = some (s₂.setPhase (.started s₂.now)) := by
    have hle : wake₁ ≤ s₂.now := by
      simp only [s₂]
      omega
    simp only [step, show s₂.phase = .sleeping wake₁ from hsleep₁, if_pos hle]
  have hstarted : Sane (s₂.setPhase (.started s₂.now)) := by
    refine ⟨hsane.named, hsane.accounted, fun n hn => ?_, hsane.streams⟩
    obtain ⟨hle, hlines⟩ := hsane.dated n hn
    exact ⟨by simp only [setPhase, s₂]; omega, hlines⟩
  obtain ⟨s₃, wake₃, hsteps₃, -, hsleep₃, hswept⟩ := finish_started (c := c) hstarted rfl
  have ha : Alone s₂ .wakes := trivial
  refine ⟨s₃, wake₃, s₂.now, (hsteps₁.trans ((Steps.single htick hticks).tail ha hwakes)).trans
    hsteps₃, ?_, hsleep₃, hswept⟩
  simp only [s₂]
  omega

/-- A round that is over has left no file under the name of a log file whose last change was older
than `expired_seconds` when it began, but for those that `getctime` failed for. A loop that has not
ended can go on, once it has slept for its interval, to the end of a round that is yet to begin. -/
theorem directory_swept (h : Reachable c s) (hnn : 0 ≤ c.expiredSeconds) :
    (∀ sweep ∈ s.swept, ∀ name n, s.entries name = some n → logNameRegex name = true →
      name ∈ sweep.skipped ∨ sweep.start - c.expiredSeconds ≤ (s.files n).ctime) ∧
    (s.phase ≠ .ended → ∃ s' wake start, Steps (step c) Alone s s' ∧ s.now ≤ start ∧
      s'.phase = .sleeping wake ∧ ⟨start, []⟩ ∈ s'.swept ∧
      ∀ name n, s'.entries name = some n → logNameRegex name = true →
        start - c.expiredSeconds ≤ (s'.files n).ctime) := by
  constructor
  · intro sweep hm name n he hregex
    have hcovered := ((reachable_complete h hnn).swept sweep hm).2 name n he hregex
    exact hcovered.resolve_left fun hnil => by cases hnil
  · intro hne
    obtain ⟨s', wake, start, hsteps, hnow, hsleep, hswept⟩ := sweeps_again h hne
    refine ⟨s', wake, start, hsteps, hnow, hsleep, hswept, fun name n he hregex => ?_⟩
    have hcomplete := reachable_complete (reachable_alone h hsteps) hnn
    rcases (hcomplete.swept _ hswept).2 name n he hregex with hm | hm | hle
    · cases hm
    · cases hm
    · exact hle

/-- After the round in which a line was lost. -/
theorem directory_swept_overtaken : ∃ s s' : ExpiredLoop, (100, py "late") ∈ (s.files 0).lines ∧
    Steps (step everySecond) Alone s s' ∧ ∀ name n, s'.entries name = some n →
      logNameRegex name = true → 90 ≤ (s'.files n).ctime := by
  obtain ⟨s, h, -, hphase, -, -, hlines, -, hnow⟩ := reachable_overtaken
  obtain ⟨-, hgoes⟩ := directory_swept h (by decide)
  obtain ⟨s', -, start, hsteps, hstart, -, -, hyoung⟩ :=
    hgoes (by rw [hphase]; exact fun he => by cases he)
  refine ⟨s, s', ?_, hsteps, fun name n he hregex => ?_⟩
  · rw [hlines]
    exact List.mem_cons_of_mem _ (List.mem_singleton_self _)
  · have hctime := hyoung name n he hregex
    have hseconds : everySecond.expiredSeconds = 10 := rfl
    omega

theorem ended_step {e : Event} (hp : s.phase = .ended) (hs : step c s e = some s') :
    s'.phase = .ended ∧ s'.removed = s.removed := by
  cases e with
  | tick seconds => cases hs; exact ⟨hp, rfl⟩
  | opens handler logId =>
    simp only [step] at hs
    split at hs
    · cases hs
    · cases hs
      obtain ⟨hphase, hremoved, -⟩ := openStream_same s handler (LogFactory.fileName logId)
      exact ⟨hphase.trans hp, hremoved⟩
  | writes handler line =>
    obtain ⟨n, -, rfl⟩ := Option.map_eq_some_iff.mp hs
    exact ⟨hp, rfl⟩
  | closes handler => cases hs; exact ⟨hp, rfl⟩
  | takes name =>
    obtain ⟨n, -, rfl⟩ := Option.map_eq_some_iff.mp hs
    exact ⟨hp, rfl⟩
  | _ => simp only [step, hp] at hs; cases hs

/-- Nothing is removed any more in this process. -/
theorem ended_for_good (hp : s.phase = .ended) (hs : Steps (step c) Any s s') :
    s'.phase = .ended ∧ s'.removed = s.removed :=
  hs.invariant (P := fun x => x.phase = .ended ∧ x.removed = s.removed)
    (fun _ _ _ h _ hstep =>
      ⟨(ended_step h.1 hstep).1, (ended_step h.1 hstep).2.trans h.2⟩) ⟨hp, rfl⟩

end ExpiredLoop
end Pyxxl
