import Pyxxl.Callbacks.Passed

/-!
# Pyxxl.Callbacks.Files

The files of `store_dir` and the requests of one `CallbackManager`, which may find files that are
there already.

* `Attended s`: a request whose path is that of a file has its message in it.
* `Carries s s'`: what is in a file stays in it until it is delivered, whether or not `start` has
  got to it.
* `Read s`: once `start` has got through all files, each is that of a request.
-/

namespace Pyxxl
namespace CallbackManager

open Transition

variable {tidy muted : Prop} {s s' : CallbackManager} {e : Event} {i j n : Nat} {p : CallbackPath}
  {r : CallbackRequest} {f : StoredFile}

/-! ## Whose a file is -/

/-- A request whose path is that of a file has its message in it. -/
def Owned (s : CallbackManager) : Prop :=
  ∀ i p f, s.store.home i = some p → s.store.files p = some f →
    ∃ r, f = .whole r ∧ r.message = (s.request i).message

/-- `uuid4` will not give the name of a file that is there. -/
def Dated (s : CallbackManager) : Prop := ∀ p f, s.store.files p = some f → p.uuid < s.store.nextUuid

theorem Owned.congr (h : Owned s) (hst : s'.store = s.store) : Owned s' := by
  intro i p f hi hf
  rw [hst] at hi hf
  rw [request, hst]
  exact h i p f hi hf

theorem Dated.congr (h : Dated s) (hst : s'.store = s.store) : Dated s' := by
  intro p f hf
  rw [hst] at hf ⊢
  exact h p f hf

/-- The message of the request whose file it is. -/
theorem Owned.message (h : Owned s) (hf : s.store.files p = some (.whole r))
    (hi : s.store.home i = some p) : r.message = (s.request i).message := by
  obtain ⟨q, hq, hm⟩ := h i p _ hi hf
  cases hq
  exact hm

/-! ## Requests that are written -/

theorem assignPath_path (st : Store) (i : Nat) (h : (st.request i).persistedPath = some p) :
    st.assignPath i = st := by
  unfold Store.assignPath
  rw [h]

theorem persist_path (st : Store) (i : Nat) (writes : Nat → Bool)
    (h : (st.request i).persistedPath = some p) :
    ((st.persist i writes).1.request i).persistedPath = some p := by
  obtain ⟨q, hq, he⟩ := Store.persist_eq st i writes
  rw [assignPath_path st i h] at hq he
  rw [he, (Store.writeText_same ..).1]
  exact h

/-- A request that has no path gets one of its own. -/
theorem persist_named (st : Store) (i : Nat) (writes : Nat → Bool)
    (h : ((st.persist i writes).1.request i).persistedPath = some p) :
    (st.request i).persistedPath = some p ∨ st.nextUuid ≤ p.uuid := by
  obtain ⟨q, -, he⟩ := Store.persist_eq st i writes
  rw [he, (Store.writeText_same ..).1] at h
  unfold Store.assignPath at h
  split at h
  · exact .inl h
  · refine .inr ?_
    simp only [Store.setRequest, Function.update_self, Option.some.injEq] at h
    rw [← h]

theorem persist_nextUuid (st : Store) (i : Nat) (writes : Nat → Bool) :
    st.nextUuid ≤ (st.persist i writes).1.nextUuid := by
  obtain ⟨q, -, he⟩ := Store.persist_eq st i writes
  rw [he, (Store.writeText_same ..).2.2]
  unfold Store.assignPath
  split
  · exact Nat.le_refl _
  · exact Nat.le_succ _

/-- A write that keeps the path its request has, and gives it a new one otherwise. -/
structure Rewrites (i : Nat) (s s' : CallbackManager) : Prop extends Writes i s s' where
  path : ∀ p, (s.request i).persistedPath = some p → (s'.request i).persistedPath = some p
  named : ∀ p, (s'.request i).persistedPath = some p →
    (s.request i).persistedPath = some p ∨ s.store.nextUuid ≤ p.uuid
  uuids : s.store.nextUuid ≤ s'.store.nextUuid
  message : (s'.request i).message = (s.request i).message

/-- The file that is written, if the message is plain data. -/
theorem Rewrites.written (w : Rewrites i s s') (hp : (s.request i).msg.plain = true) :
    ∃ q r, s'.store.home i = some q ∧ (s'.request i).persistedPath = some q ∧
      s'.store.files q = some (.whole r) ∧ r.message = (s'.request i).message := by
  obtain ⟨q, r, hq, hf, hr⟩ := w.stored
  rw [← w.msg] at hp
  have hdict : (s'.request i).asdict = some (s'.request i) := by
    simp [CallbackRequest.asdict, PyVal.plain_asdict _ hp]
  have hsame : s'.request i = { r with persistedPath := some q } :=
    Option.some.inj (hdict.symm.trans hr)
  refine ⟨q, r, w.ok.home i q hq, hq, hf, ?_⟩
  rw [hsame]
  rfl

theorem Rewrites.owned (w : Rewrites i s s') (hp : (s.request i).msg.plain = true) (ho : Owned s)
    (hd : Dated s) : Owned s' ∧ Dated s' := by
  obtain ⟨q, r, hhome, -, hf, hmsg⟩ := w.written hp
  have hold : ∀ {p}, p ≠ q → s'.store.files p = s.store.files p := fun hne =>
    w.only.files _ fun hh => hne (Option.some.inj (hh.symm.trans hhome))
  refine ⟨fun j p g hj hg => ?_, fun p g hg => ?_⟩
  · by_cases hji : j = i
    · subst hji
      obtain rfl : q = p := Option.some.inj (hhome.symm.trans hj)
      exact ⟨r, Option.some.inj (hg.symm.trans hf), hmsg⟩
    · have hpq : p ≠ q := by
        rintro rfl
        exact hji (w.ok.apart j i p hj hhome)
      rw [hold hpq] at hg
      rw [w.only.home j hji] at hj
      have hreq : s'.request j = s.request j := w.only.request j hji
      rw [hreq]
      exact ho j p g hj hg
  · by_cases hpq : p = q
    · rw [hpq]
      exact w.ok.used i q hhome
    · rw [hold hpq] at hg
      exact Nat.lt_of_lt_of_le (hd p g hg) w.uuids

/-- A write keeps what is in the files. -/
theorem Rewrites.files (w : Rewrites i s s') (hk : Kept s) (hp : (s.request i).msg.plain = true)
    (ho : Owned s) (hd : Dated s) (hf : s.store.files p = some (.whole r)) :
    ∃ r', s'.store.files p = some (.whole r') ∧ r'.message = r.message := by
  obtain ⟨q, r', hhome, hq, hf', hmsg⟩ := w.written hp
  by_cases hpq : p = q
  · subst hpq
    refine ⟨r', hf', ?_⟩
    rw [hmsg, w.message]
    rcases w.named p hq with hold | hnew
    · exact (ho.message hf (hk.store.home i p hold)).symm
    · -- a new name is not that of a file
      have hlt := hd p _ hf
      omega
  · refine ⟨r, ?_, rfl⟩
    rw [w.only.files p fun hh => hpq (Option.some.inj (hh.symm.trans hhome))]
    exact hf

theorem Rewrites.cut {writes : Nat → Bool} (h : Kept s) (hd : s.worker = .delivering i)
    (hw : writes i = true) :
    Rewrites i s { s with store := (s.store.persist i writes).1, worker := .done false } where
  toWrites := .cut h hd hw
  path _ hp := persist_path s.store i writes hp
  named _ hp := persist_named s.store i writes hp
  uuids := persist_nextUuid s.store i writes
  message := persist_message _ _ _ h.store i

theorem Rewrites.flush {writes : Nat → Bool} {rest : List Nat} (h : Kept s)
    (hq : s.queue = i :: rest) (hw : writes i = true) :
    Rewrites i s { s with store := (s.store.persist i writes).1, queue := rest } where
  toWrites := .flush h hq hw
  path _ hp := persist_path s.store i writes hp
  named _ hp := persist_named s.store i writes hp
  uuids := persist_nextUuid s.store i writes
  message := persist_message _ _ _ h.store i

theorem Rewrites.fail {writes : Nat → Bool} (h : Kept s) (hd : s.worker = .delivering i)
    (hw : writes i = true) :
    Rewrites i s ({ s with
      store := ((s.store.attempt i).persist i writes).1
      worker := .idle }.setRetry i .sleeping) where
  toWrites := .fail h hd hw
  path p hp := by
    refine persist_path (s.store.attempt i) i writes ?_
    simpa [Store.attempt, Store.setRequest, request] using hp
  named p hp := by
    have hn := persist_named (s.store.attempt i) i writes hp
    simpa [Store.attempt, Store.setRequest, request] using hn
  uuids := persist_nextUuid (s.store.attempt i) i writes
  message := by
    have a : Act True False s ({ s with
        store := ((s.store.attempt i).persist i writes).1
        worker := .idle }.setRetry i .sleeping) := .fail hd hw
    exact (act_message h (h.lt (places_held (held_some hd))) a).1

/-! ## One act -/

/-- What `_delete_persisted_request` does to the files. -/
theorem delete_files (st : Store) (i : Nat) {unlinks : Nat → Bool} (hu : unlinks i = true)
    (p : CallbackPath) : (st.delete i unlinks).files p =
      if (st.request i).persistedPath = some p then none else st.files p := by
  unfold Store.delete
  cases hq : (st.request i).persistedPath with
  | none => rfl
  | some q =>
    by_cases hp : p = q
    · subst hp
      simp [hu, Store.setFile, Store.setRequest]
    · have hne : ¬some q = some p := fun he => hp (Option.some.inj he).symm
      simp [hu, Store.setFile, Store.setRequest, hp, hne]

theorem delete_nextUuid (st : Store) (i : Nat) (unlinks : Nat → Bool) :
    (st.delete i unlinks).nextUuid = st.nextUuid := by
  unfold Store.delete
  split
  · rfl
  · split <;> rfl

/-- A new request finds no file that is not its own. -/
theorem Owned.add (h : Owned s)
    (hr : ∀ p f, r.persistedPath = some p → s.store.files p = some f →
      ∃ q, f = .whole q ∧ q.message = r.message) (hst : s'.store = (s.count r).store) :
    Owned s' := by
  have honly := Store.add_only s.store s.nextRequest r
  have hst : s'.store = s.store.add s.nextRequest r := hst
  intro i p f hi hf
  rw [hst] at hi hf
  rw [request, hst]
  by_cases hn : i = s.nextRequest
  · subst hn
    simp only [Store.add, Store.setRequest, Function.update_self] at hi ⊢
    exact hr p f hi hf
  · rw [honly.home i hn] at hi
    rw [honly.request i hn]
    exact h i p f hi hf

/-- The file that is deleted is the request's own. -/
theorem Owned.delete (h : Owned s) (hd : Dated s) {unlinks : Nat → Bool}
    (hu : unlinks i = true) (hst : s'.store = s.store.delete i unlinks) : Owned s' ∧ Dated s' := by
  have hold : ∀ p f, s'.store.files p = some f → s.store.files p = some f := by
    intro p f hf
    rw [hst, delete_files s.store i hu] at hf
    split at hf
    · cases hf
    · exact hf
  refine ⟨fun j p f hj hf => ?_, fun p f hf => ?_⟩
  · have hmsg : (s'.request j).message = (s.request j).message := by
      rw [request, hst]
      exact messages_delete s.store i unlinks j
    rw [hst, Store.delete_home] at hj
    rw [hmsg]
    exact h j p f hj (hold p f hf)
  · rw [hst, delete_nextUuid]
    exact hd p f (hold p f hf)

theorem setFile_none {st : Store} {q : CallbackPath} (hf : (st.setFile q none).files p = some f) :
    st.files p = some f ∧ p ≠ q := by
  by_cases hp : p = q
  · simp [Store.setFile, hp] at hf
  · exact ⟨by simpa [Store.setFile, hp] using hf, hp⟩

theorem act_owned (hk : Kept s) (hm : EachMsg (fun v => v.plain = true) s) (ho : Owned s)
    (hd : Dated s) (a : Act tidy muted s s') : Owned s' ∧ Dated s' := by
  have hsame : s'.store = s.store → Owned s' ∧ Dated s' := fun hst => ⟨ho.congr hst, hd.congr hst⟩
  have hplain : ∀ {i}, i ∈ s.queue ∨ s.held = some i → (s.request i).msg.plain = true := fun hi =>
    hm _ (hk.lt (hi.elim places_queue places_held))
  cases a with
  | @replay p r hs hf hr hst hh hu =>
    refine ⟨ho.add (r := { r with persistedPath := some p }) (fun q f hq hqf => ?_) rfl, hd⟩
    cases hq
    exact ⟨r, Option.some.inj (hqf.symm.trans hf), rfl⟩
  | @discard q hno hh =>
    exact ⟨fun i p f hi hf => ho i p f hi (setFile_none hf).1,
      fun p f hf => hd p f (setFile_none hf).1⟩
  | enter hs hp hr hopen hmu =>
    refine ⟨ho.add (fun q f hq _ => ?_) rfl, hd⟩
    rw [hp] at hq
    cases hq
  | take hh =>
    obtain ⟨hst, -⟩ := next_same (s := s)
    exact hsame hst
  | @deliver i unlinks hw hu =>
    have hmark := Moves.markCompleted { s with
      store := s.store.delete i unlinks
      delivered := s.delivered ++ [i]
      worker := .idle }
    exact ho.delete hd hu hmark.store
  | fail hw hwr => exact (Rewrites.fail hk hw hwr).owned (hplain (.inr (held_some hw))) ho hd
  | cut hw hwr => exact (Rewrites.cut hk hw hwr).owned (hplain (.inr (held_some hw))) ho hd
  | flush hq hwr =>
    have hi := hplain (.inl (by rw [hq]; exact List.mem_cons_self ..))
    exact (Rewrites.flush hk hq hwr).owned hi ho hd
  | _ => exact hsame rfl

/-- The callback that was in the file is delivered. -/
def Reported (s : CallbackManager) (p : CallbackPath) (m : CallbackRequest) : Prop :=
  ∃ i ∈ s.delivered, s.store.home i = some p ∧ (s.request i).message = m

/-- The file is there, and says the same. -/
def Holds (s : CallbackManager) (p : CallbackPath) (m : CallbackRequest) : Prop :=
  ∃ r, s.store.files p = some (.whole r) ∧ r.message = m

theorem act_holds (hk : Kept s) (hmsg : EachMsg (fun v => v.plain = true) s) (ho : Owned s)
    (hd : Dated s) {m : CallbackRequest} (a : Act tidy muted s s') (h : s.Holds p m) :
    s'.Holds p m ∨ s'.Reported p m := by
  obtain ⟨r, hf, hr⟩ := h
  have hsame : s'.store.files = s.store.files → s'.Holds p m ∨ s'.Reported p m := fun hst =>
    .inl ⟨r, by rw [hst]; exact hf, hr⟩
  have hwrite : ∀ {i}, Rewrites i s s' → i ∈ s.queue ∨ s.held = some i →
      s'.Holds p m ∨ s'.Reported p m := fun w hi => by
    have hplain := hmsg _ (hk.lt (hi.elim places_queue places_held))
    obtain ⟨r', hf', hr'⟩ := w.files hk hplain ho hd hf
    exact .inl ⟨r', hf', hr'.trans hr⟩
  cases a with
  | @discard q hno hh =>
    have hp : p ≠ q := by
      rintro rfl
      exact hno r hf
    exact .inl ⟨r, by simpa [Store.setFile, hp] using hf, hr⟩
  | take hh =>
    obtain ⟨hst, -⟩ := next_same (s := s)
    exact hsame (by rw [hst])
  | @deliver i unlinks hw hu =>
    have hm := Moves.markCompleted { s with
      store := s.store.delete i unlinks
      delivered := s.delivered ++ [i]
      worker := .idle }
    by_cases hp : (s.store.request i).persistedPath = some p
    · have hhome := hk.store.home i p hp
      refine .inr ⟨i, ?_, ?_, ?_⟩
      · rw [hm.delivered]
        exact List.mem_append_right _ (List.mem_singleton_self i)
      · rw [hm.store, Store.delete_home]
        exact hhome
      · rw [request, hm.store, Store.delete_request, ← hr, ho.message hf hhome]
        rfl
    · refine .inl ⟨r, ?_, hr⟩
      rw [hm.store, delete_files s.store i hu, if_neg hp]
      exact hf
  | fail hw hwr => exact hwrite (.fail hk hw hwr) (.inr (held_some hw))
  | cut hw hwr => exact hwrite (.cut hk hw hwr) (.inr (held_some hw))
  | flush hq hwr => exact hwrite (.flush hk hq hwr) (.inl (by rw [hq]; exact List.mem_cons_self ..))
  | _ => exact hsame rfl

theorem Kept.delivered_lt (h : Kept s) (hi : i ∈ s.delivered) : i < s.nextRequest := by
  refine h.lt ?_
  have := List.count_pos_iff.mpr hi
  simp only [places]
  omega

/-- What is delivered stays so, with the path it had. -/
theorem act_delivered (hk : Kept s) (a : Act tidy muted s s') (hi : i ∈ s.delivered) :
    i ∈ s'.delivered ∧ s'.store.home i = s.store.home i := by
  have hlt := hk.delivered_lt hi
  have hwrite : ∀ {j}, Writes j s s' → j ∈ s.queue ∨ s.held = some j →
      i ∈ s'.delivered ∧ s'.store.home i = s.store.home i := fun {j} w hj => by
    have hne : i ≠ j := by
      rintro rfl
      exact hk.undelivered hj hi
    exact ⟨by rw [w.delivered]; exact hi, w.only.home i hne⟩
  cases a with
  | replay hs hf hm hr hh hu =>
    exact ⟨hi, (Store.add_only s.store s.nextRequest _).home i (Nat.ne_of_lt hlt)⟩
  | enter hs hp hr ho hm =>
    exact ⟨hi, (Store.add_only s.store s.nextRequest _).home i (Nat.ne_of_lt hlt)⟩
  | take hh =>
    obtain ⟨hst, -, hd, -⟩ := next_same (s := s)
    rw [hst, hd]
    exact ⟨hi, rfl⟩
  | @deliver j unlinks hw hu =>
    have hm := Moves.markCompleted { s with
      store := s.store.delete j unlinks
      delivered := s.delivered ++ [j]
      worker := .idle }
    rw [hm.store, hm.delivered, Store.delete_home]
    exact ⟨List.mem_append_left _ hi, rfl⟩
  | fail hw hwr => exact hwrite (.fail hk hw hwr) (.inr (held_some hw))
  | cut hw hwr => exact hwrite (.cut hk hw hwr) (.inr (held_some hw))
  | flush hq hwr => exact hwrite (.flush hk hq hwr) (.inl (by rw [hq]; exact List.mem_cons_self ..))
  | _ => exact ⟨hi, rfl⟩

/-! ## One event -/

/-- What holds of a process over the files it has found. -/
structure Attended (s : CallbackManager) : Prop where
  kept : Kept s
  plain : Plain s
  data : EachMsg (fun v => v.plain = true) s
  dated : Dated s
  owned : Owned s

/-- What is in a file stays there until it is delivered, and what is delivered stays so. -/
structure Carries (s s' : CallbackManager) : Prop where
  holds : ∀ p m, s.Holds p m → s'.Holds p m ∨ s'.Reported p m
  delivered : ∀ i ∈ s.delivered, i ∈ s'.delivered ∧ s'.store.home i = s.store.home i ∧
    (s'.request i).message = (s.request i).message

theorem Carries.refl : Carries s s := ⟨fun _ _ => .inl, fun _ h => ⟨h, rfl, rfl⟩⟩

theorem Carries.reported (h : Carries s s') {m : CallbackRequest} (hr : s.Reported p m) :
    s'.Reported p m := by
  obtain ⟨i, hi, hp, hm⟩ := hr
  obtain ⟨hi', hp', hm'⟩ := h.delivered i hi
  exact ⟨i, hi', hp'.trans hp, hm'.trans hm⟩

theorem Carries.trans {s'' : CallbackManager} (h : Carries s s') (h' : Carries s' s'') :
    Carries s s'' where
  holds p m hh := (h.holds p m hh).elim (h'.holds p m) fun hr => .inr (h'.reported hr)
  delivered i hi := by
    obtain ⟨h1, h2, h3⟩ := h.delivered i hi
    obtain ⟨h4, h5, h6⟩ := h'.delivered i h1
    exact ⟨h4, h5.trans h2, h6.trans h3⟩

/-- Files are written and deleted, and the messages are plain data that can be stored. -/
def Steady (s : CallbackManager) (e : Event) : Prop :=
  FilesOk s e ∧ Brings (fun v => v.plain = true) s e

/-- What a process loads is plain data, and so is what it delivers and writes. -/
theorem FilesOk.steady (hf : FilesOk s e) (he : EnqueueFree s e) : Steady s e := by
  refine ⟨hf, ?_⟩
  cases e with
  | start paths => exact fun p hp r hr => (hf p hp r hr).1
  | enqueue r => exact he.elim
  | _ => trivial

theorem EachMsg.back {P : PyVal → Prop} (hk : Kept s) (a : Act tidy muted s s')
    (h : EachMsg P s') : EachMsg P s := by
  intro i hi
  obtain ⟨hm, hlt⟩ := act_message hk hi a
  rw [← msg_of_message hm]
  exact h i hlt

theorem Attended.acts (h : Attended s) (a : Acts tidy muted s s')
    (hm : EachMsg (fun v => v.plain = true) s') : Attended s' ∧ Carries s s' := by
  induction a with
  | refl => exact ⟨h, .refl⟩
  | @tail s₁ s₂ as a ih =>
    have hk₁ : Kept s₁ := Acts.kept as h.kept
    obtain ⟨h₁, hc⟩ := ih (hm.back hk₁ a)
    obtain ⟨ho, hd⟩ := act_owned hk₁ h₁.data h₁.owned h₁.dated a
    have hact : Carries s₁ s₂ := by
      refine ⟨fun p m => act_holds hk₁ h₁.data h₁.owned h₁.dated a, fun i hi => ?_⟩
      obtain ⟨hdel, hp⟩ := act_delivered hk₁ a hi
      exact ⟨hdel, hp, (act_message hk₁ (hk₁.delivered_lt hi) a).1⟩
    exact ⟨⟨hk₁.act a, h₁.plain.act a, hm, hd, ho⟩, hc.trans hact⟩

theorem Attended.step (h : Attended s) (hok : Steady s e) (hs : step s e = some s') :
    Attended s' ∧ Carries s s' := by
  have hacts : Acts False False s s' := step_acts h.kept h.plain hok.1 False.elim False.elim hs
  exact h.acts hacts (h.data.step h.kept.numbered hok.2 hs)

theorem attended_init {files : CallbackPath → Option StoredFile} {n : Nat}
    (h : ∀ p f, files p = some f → p.uuid < n) : Attended (init files n) where
  kept := kept_init files n
  plain := plain_init files n
  data i hi := absurd hi (Nat.not_lt_zero i)
  dated := h
  owned i p f hi := by cases hi

/-! ## A `start` that gets through all files -/

/-- No file is there that `start` does not get to. -/
def Lists (s : CallbackManager) : Event → Prop
  | .start paths => ∀ p f, s.store.files p = some f → p ∈ paths
  | _ => True

/-- Each file that is not among `todo` has the path of a request. -/
def Loaded (todo : List CallbackPath) (s : CallbackManager) : Prop :=
  ∀ p f, s.store.files p = some f → p ∈ todo ∨ ∃ i, i < s.nextRequest ∧ s.store.home i = some p

theorem replay_loaded {todo : List CallbackPath} (h : Loaded (p :: todo) s) :
    Loaded todo (s.replay p) := by
  intro q f hf
  have hrest : q ≠ p → s.store.files q = some f →
      q ∈ todo ∨ ∃ i, i < s.nextRequest ∧ s.store.home i = some q := fun hq hf =>
    (h q f hf).imp_left fun hm => (List.mem_cons.mp hm).resolve_left hq
  unfold CallbackManager.replay at hf ⊢
  split at hf
  · rename_i r hr
    have honly := Store.add_only s.store s.nextRequest { r with persistedPath := some p }
    by_cases hq : q = p
    · subst hq
      exact .inr ⟨s.nextRequest, Nat.lt_succ_self _, by simp [put, count, Store.add]⟩
    · refine (hrest hq hf).imp_right ?_
      rintro ⟨i, hi, hhome⟩
      exact ⟨i, Nat.lt_succ_of_lt hi, (honly.home i (Nat.ne_of_lt hi)).trans hhome⟩
  · obtain ⟨hf, hq⟩ := setFile_none hf
    exact hrest hq hf

theorem replays_loaded {paths : List CallbackPath} (h : Loaded paths s) :
    Loaded [] (paths.foldl CallbackManager.replay s) := by
  induction paths generalizing s with
  | nil => exact h
  | cons p paths ih => exact ih (replay_loaded h)

theorem Loaded.homed (h : Loaded [] s) (hf : s.store.files p = some f) :
    ∃ i, i < s.nextRequest ∧ s.store.home i = some p :=
  (h p f hf).resolve_left List.not_mem_nil

theorem Loaded.rewrites (h : Loaded [] s) (hk : Kept s) (w : Rewrites i s s')
    (hi : i < s.nextRequest) : Loaded [] s' := by
  obtain ⟨q, r, hq, -⟩ := w.stored
  have hhome : s'.store.home i = some q := w.ok.home i q hq
  intro p g hg
  by_cases hp : p = q
  · exact .inr ⟨i, by rw [w.next]; exact hi, by rw [hp]; exact hhome⟩
  · rw [w.only.files p fun hh => hp (Option.some.inj (hh.symm.trans hhome))] at hg
    obtain ⟨k, hk', hkp⟩ := h.homed hg
    have hne : k ≠ i := by
      rintro rfl
      rcases hk.tidy k p hkp with hpath | hnone
      · exact hp (Option.some.inj ((w.path p hpath).symm.trans hq))
      · rw [hnone] at hg
        cases hg
    exact .inr ⟨k, by rw [w.next]; exact hk', by rw [w.only.home k hne]; exact hkp⟩

theorem act_loaded (hk : Kept s) (h : Loaded [] s) (a : Act tidy muted s s') : Loaded [] s' := by
  have hnew : ∀ r, Loaded [] (s.count r) := by
    intro r p g hg
    obtain ⟨i, hi, hp⟩ := h.homed hg
    have honly := Store.add_only s.store s.nextRequest r
    exact .inr ⟨i, Nat.lt_succ_of_lt hi, (honly.home i (Nat.ne_of_lt hi)).trans hp⟩
  cases a with
  | replay => exact hnew _
  | enter => exact hnew _
  | discard hno hh => exact fun p g hg => h p g (setFile_none hg).1
  | take hh =>
    obtain ⟨hst, hn, -⟩ := next_same (s := s)
    unfold Loaded
    rw [hst, hn]
    exact h
  | @deliver i unlinks hw hu =>
    have hm := Moves.markCompleted { s with
      store := s.store.delete i unlinks
      delivered := s.delivered ++ [i]
      worker := .idle }
    intro p g hg
    rw [hm.store, delete_files s.store i hu] at hg
    split at hg
    · cases hg
    · obtain ⟨k, hk', hkp⟩ := h.homed hg
      exact .inr ⟨k, by rw [hm.next]; exact hk', by rw [hm.store, Store.delete_home]; exact hkp⟩
  | fail hw hwr => exact h.rewrites hk (.fail hk hw hwr) (hk.lt (places_held (held_some hw)))
  | cut hw hwr => exact h.rewrites hk (.cut hk hw hwr) (hk.lt (places_held (held_some hw)))
  | flush hq hwr =>
    exact h.rewrites hk (.flush hk hq hwr)
      (hk.lt (places_queue (by rw [hq]; exact List.mem_cons_self ..)))
  | _ => exact h

theorem Loaded.acts (h : Loaded [] s) (hk : Kept s) (a : Acts tidy muted s s') :
    Loaded [] s' := by
  induction a with
  | refl => exact h
  | tail as a ih => exact act_loaded (Acts.kept as hk) ih a

/-! Only `start` sets `_started`. -/

theorem started_next (s : CallbackManager) : s.next.started = s.started := by
  unfold next
  split <;> rfl

theorem started_markCompleted (s : CallbackManager) : s.markCompleted.started = s.started := by
  rw [markCompleted_eq]
  split <;> rfl

theorem started_enqueue (s : CallbackManager) (r : CallbackRequest) :
    (s.enqueue r).started = s.started := by
  unfold CallbackManager.enqueue
  split
  · rfl
  · split <;> rfl

theorem started_stopEnd (s : CallbackManager) (n : Nat) (close drained : Bool) :
    (s.stopEnd n close drained).started = s.started := by
  unfold CallbackManager.stopEnd
  split <;> rfl

theorem started_stopLocked (s : CallbackManager) (n : Nat) (close drained : Bool) :
    (s.stopLocked n close drained).started = s.started := by
  unfold CallbackManager.stopLocked
  split
  · exact started_stopEnd s.unlock n close drained
  · exact started_stopEnd { s with worker := .none }.unlock n close drained
  · rfl
  · rfl

theorem started_stopAcquire (s : CallbackManager) (n : Nat) (close drained : Bool) :
    (s.stopAcquire n close drained).started = s.started := by
  unfold CallbackManager.stopAcquire
  split
  · exact started_stopLocked (s.lock (.stop n)) n close drained
  · rfl

theorem started_persistBuffered (writes : Nat → Bool) (l : List Nat) (s : CallbackManager) :
    (persistBuffered writes l s).1.started = s.started := by
  induction l generalizing s with
  | nil => rfl
  | cons i rest ih =>
    unfold persistBuffered
    split
    · exact ih _
    · rfl

theorem started_stopFlush (s : CallbackManager) (n : Nat) (close drained : Bool)
    (writes : Nat → Bool) : (s.stopFlush n close drained writes).started = s.started := by
  have hbuf := started_persistBuffered writes s.queue s
  unfold CallbackManager.stopFlush
  split
  · exact started_stopAcquire ..
  · split
    · rename_i x hx
      rw [hx] at hbuf
      exact (started_stopAcquire ..).trans hbuf
    · rename_i x hx
      rw [hx] at hbuf
      exact hbuf

theorem started_stopWaited (s : CallbackManager) (n : Nat) (close drained : Bool)
    (writes : Nat → Bool) : (s.stopWaited n close drained writes).started = s.started := by
  unfold CallbackManager.stopWaited
  split
  · exact started_stopFlush ..
  · rfl

theorem started_step (hs : step s e = some s') (he : ∀ paths, e ≠ .start paths) :
    s'.started = s.started := by
  cases e with
  | start paths => exact absurd rfl (he paths)
  | enqueue r =>
    simp only [CallbackManager.step] at hs
    split at hs
    · cases hs
      exact started_enqueue s r
    · cases hs
  | resumeEnqueue i =>
    simp only [CallbackManager.step] at hs
    split at hs
    · cases hs; rfl
    · cases hs
  | cancelEnqueue i =>
    simp only [CallbackManager.step] at hs
    split at hs
    · cases hs; rfl
    · cases hs
  | workerTakes =>
    simp only [CallbackManager.step] at hs
    split at hs
    · cases hs
    · split at hs
      · cases hs; exact started_next s
      · cases hs; exact started_next s
      · cases hs
  | workerDelivers unlinks =>
    simp only [CallbackManager.step] at hs
    split at hs
    · split at hs
      · cases hs
      · cases hs
        exact (started_next _).trans (started_markCompleted _)
    · cases hs
  | workerFails writes =>
    simp only [CallbackManager.step] at hs
    split at hs
    · split at hs
      · cases hs
      · split at hs
        · cases hs; exact started_next _
        · cases hs; rfl
    · cases hs
  | workerEnds writes =>
    simp only [CallbackManager.step] at hs
    split at hs
    · split at hs <;> cases hs <;> rfl
    · cases hs
  | retryFires i =>
    simp only [CallbackManager.step] at hs
    split at hs
    · cases hs
      unfold CallbackManager.retryFires
      split
      · rfl
      · split <;> rfl
    · cases hs
  | retryResumes i =>
    simp only [CallbackManager.step] at hs
    split at hs
    · cases hs; rfl
    · cases hs
  | retryEnds i =>
    simp only [CallbackManager.step] at hs
    split at hs
    · cases hs; rfl
    · cases hs
  | stop timed close writes =>
    simp only [CallbackManager.step] at hs
    cases hs
    simp only [CallbackManager.stopCall]
    split
    · rfl
    · exact started_stopWaited ..
  | stopDrained n writes =>
    simp only [CallbackManager.step] at hs
    split at hs
    · cases hs; exact started_stopWaited ..
    · cases hs
  | stopTimeout n writes =>
    simp only [CallbackManager.step] at hs
    split at hs
    · cases hs; exact started_stopWaited ..
    · cases hs
  | stopRetriesOver n writes =>
    simp only [CallbackManager.step] at hs
    split at hs
    · split at hs
      · cases hs; exact started_stopFlush ..
      · cases hs
    · cases hs
  | stopLocked n =>
    simp only [CallbackManager.step] at hs
    split at hs
    · split at hs
      · cases hs; exact started_stopLocked ..
      · cases hs
    · cases hs
  | stopJoined n =>
    simp only [CallbackManager.step] at hs
    split at hs
    · split at hs
      · split at hs
        · cases hs; rfl
        · cases hs
          exact started_stopEnd { s with worker := .none }.unlock n _ _
      · cases hs
    · cases hs

/-- Once `start` has got through the files, each of them has the path of a request. -/
def Read (s : CallbackManager) : Prop := s.started = true → Loaded [] s

theorem Read.step (h : Read s) (ha : Attended s) (hf : FilesOk s e) (hl : Lists s e)
    (hs : CallbackManager.step s e = some s') : Read s' := by
  intro hst'
  have hacts : Acts False False s s' := step_acts ha.kept ha.plain hf False.elim False.elim hs
  cases hst : s.started with
  | true => exact (h hst).acts ha.kept hacts
  | false =>
    by_cases he : ∃ paths, e = .start paths
    · obtain ⟨paths, rfl⟩ := he
      simp only [CallbackManager.step, hst, Bool.false_eq_true, if_false] at hs
      split at hs
      · cases hs
        exact replays_loaded fun p f hp => .inl (hl p f hp)
      · cases hs
    · have hsame := started_step hs fun paths hp => he ⟨paths, hp⟩
      rw [hsame, hst] at hst'
      cases hst'

theorem read_init (files : CallbackPath → Option StoredFile) (n : Nat) : Read (init files n) := by
  intro hst
  cases hst

end CallbackManager
end Pyxxl
