import Pyxxl.Lib.Transition
import Pyxxl.Logger.Backends

/-!
# Pyxxl.Logger.Redis

A reader pages through the Redis list of a running job: it starts at line 1 and next asks for
`toLineNum + 1`, while records are pushed to the list and its head is trimmed away, also between
the LLEN and the LRANGE of one request.

* a short page has the `toLineNum` of a full one, and one without a record that of a page of one.
* once the list is trimmed, the index the reader goes on from names a later record than before.
* `redis_pages`: as long as nothing is pushed once the reader is ahead of the list, and nothing is
  trimmed once it has left its head, every record is served that is still there, in order; any
  other push makes the reader miss a record.
-/

namespace Pyxxl

open Transition RedisLog

/-- A record by its number, and how many records were trimmed away when it was served. -/
structure Delivery where
  record : Nat
  trimmed : Nat

/-- `emitted` and `served` are records of what happened; no code reads them. -/
structure RedisReader where
  list : List PyStr
  emitted : List PyStr
  fromLineNum : Int
  /-- The LLEN of the request in progress. -/
  asked : Option Nat
  served : List Delivery
  content : PyStr

namespace RedisReader

variable {maxLines tail : Int} {s s' : RedisReader} {e : Event} {i : Nat}

def start : RedisReader :=
  { list := [], emitted := [], fromLineNum := 1, asked := none, served := [], content := [] }

/-- How many records were trimmed away. -/
def trimmed (s : RedisReader) : Nat := s.emitted.length - s.list.length

/-- The number of the record the reader asks for. -/
def position (s : RedisReader) : Nat := s.trimmed + (s.fromLineNum - 1).toNat

def records (s : RedisReader) : List Nat := s.served.map Delivery.record

inductive Event where
  | emit (text : PyStr)
  /-- LLEN, and the answer where no LRANGE is needed. -/
  | ask
  | fetch

def emit (maxLines : Int) (s : RedisReader) (text : PyStr) : RedisReader :=
  { s with
    list := RedisLog.emit maxLines s.list text
    emitted := s.emitted ++ [text ++ terminator] }

def ask (tail : Int) (s : RedisReader) : RedisReader :=
  if s.list.length ≤ s.fromLineNum - 1 then
    let r := response tail s.fromLineNum (some s.list.length) none
    { s with
      fromLineNum := r.toLineNum + 1
      -- the notice about an empty list is not part of the log
      content := s.content ++ if s.list = [] then [] else r.logContent }
  else { s with asked := some s.list.length }

def fetch (tail : Int) (s : RedisReader) (llen : Nat) : RedisReader :=
  let page := slice tail s.fromLineNum s.list
  let r := response tail s.fromLineNum (some llen) (some page)
  { s with
    fromLineNum := r.toLineNum + 1
    asked := none
    served := s.served ++ (List.range' s.position page.length).map fun i => ⟨i, s.trimmed⟩
    content := s.content ++ r.logContent }

def step (maxLines tail : Int) (s : RedisReader) : Event → Option RedisReader
  | .emit text => some (s.emit maxLines text)
  | .ask => if s.asked = none then some (s.ask tail) else none
  | .fetch =>
    match s.asked with
    | none => none
    | some llen => some (s.fetch tail llen)

/-- The reader goes on asking. -/
def Asks (_ : RedisReader) : Event → Prop
  | .emit _ => False
  | _ => True

/-- Nothing is pushed while the reader is ahead of the list, and nothing is trimmed once it has left
the head of the list. -/
def Paced (maxLines : Int) (s : RedisReader) : Event → Prop
  | .emit _ => s.fromLineNum - 1 ≤ s.list.length ∧ (s.list.length < maxLines ∨ s.fromLineNum = 1)
  | _ => True

structure Faithful (maxLines tail : Int) (s : RedisReader) : Prop where
  known : ∀ i ∈ s.records, i < s.emitted.length
  ordered : s.records.Pairwise (· < ·)
  content : s.content = (s.records.map fun i => s.emitted.getD i []).flatten
  /-- What was passed over had been trimmed away by then. -/
  skipped : ∀ d ∈ s.served, ∀ i < d.record, i ∉ s.records → i < d.trimmed
  /-- What is still there is served, or will be if the reader goes on. -/
  reach : ∀ i, s.trimmed ≤ i → i < s.emitted.length →
    i ∈ s.records ∨ ∃ s', Steps (step maxLines tail) Asks s s' ∧ i ∈ s'.records

instance (maxLines : Int) (s : RedisReader) : ∀ e, Decidable (Paced maxLines s e)
  | .emit _ => inferInstanceAs (Decidable (_ ∧ _))
  | .ask => inferInstanceAs (Decidable True)
  | .fetch => inferInstanceAs (Decidable True)

/-! ## The reader on track -/

/-- The reader has been served the records before its line, all of the same trimming. -/
structure Tracked (maxLines : Int) (s : RedisReader) : Prop where
  positive : 1 ≤ s.fromLineNum
  room : s.list.length ≤ maxLines
  fits : s.list.length ≤ s.emitted.length
  list : s.list = s.emitted.drop s.trimmed
  asked : ∀ n, s.asked = some n → s.fromLineNum - 1 < n ∧ n ≤ s.list.length
  content : s.content = (s.list.take (s.fromLineNum - 1).toNat).flatten
  served : s.served = (List.range' s.trimmed (min (s.fromLineNum - 1).toNat s.list.length)).map
    fun i => ⟨i, s.trimmed⟩

theorem tracked_start (hm : 1 ≤ maxLines) : Tracked maxLines start where
  positive := Int.le_refl 1
  room := by
    show ((0 : Nat) : Int) ≤ maxLines
    omega
  fits := Nat.le_refl 0
  list := rfl
  asked n h := by cases h
  content := rfl
  served := rfl

theorem emit_list (hm : 1 ≤ maxLines) (h : s.list.length ≤ maxLines) (text : PyStr) :
    (s.emit maxLines text).list =
      if s.list.length < maxLines then s.list ++ [text ++ terminator]
      else (s.list ++ [text ++ terminator]).drop 1 := by
  show RedisLog.emit maxLines s.list text = _
  rw [emit_eq hm]
  split
  · rw [show s.list.length + 1 - maxLines.toNat = 0 by omega, List.drop_zero]
  · rw [show s.list.length + 1 - maxLines.toNat = 1 by omega]

/-- A record for which there is room. -/
theorem Tracked.push (h : Tracked maxLines s) (hm : 1 ≤ maxLines) (text : PyStr)
    (hroom : s.list.length < maxLines) (hp : s.fromLineNum - 1 ≤ s.list.length) :
    Tracked maxLines (s.emit maxLines text) := by
  have hlist : (s.emit maxLines text).list = s.list ++ [text ++ terminator] := by
    rw [emit_list hm h.room, if_pos hroom]
  have hlen : (s.emit maxLines text).list.length = s.list.length + 1 := by
    rw [hlist, List.length_append, List.length_singleton]
  have hemitted : (s.emit maxLines text).emitted.length = s.emitted.length + 1 := by
    simp [RedisReader.emit]
  have hfits := h.fits
  have htrim : (s.emit maxLines text).trimmed = s.trimmed := by
    unfold trimmed
    omega
  have hdrop : (s.emitted ++ [text ++ terminator]).drop s.trimmed =
      s.emitted.drop s.trimmed ++ [text ++ terminator] :=
    List.drop_append_of_le_length (Nat.sub_le s.emitted.length s.list.length)
  have hle : (s.fromLineNum - 1).toNat ≤ s.list.length := by omega
  refine ⟨h.positive, by omega, by omega, ?_, fun n hn => ?_, ?_, ?_⟩
  · rw [hlist, htrim]
    exact (congrArg (· ++ [text ++ terminator]) h.list).trans hdrop.symm
  · have := h.asked n hn
    exact ⟨this.1, by omega⟩
  · rw [hlist]
    show s.content = ((s.list ++ [text ++ terminator]).take (s.fromLineNum - 1).toNat).flatten
    rw [List.take_append_of_le_length hle, h.content]
  · rw [hlen, htrim]
    show s.served = (List.range' _ (min (s.fromLineNum - 1).toNat (s.list.length + 1))).map _
    rw [h.served, Nat.min_eq_left hle, Nat.min_eq_left (Nat.le_succ_of_le hle)]

/-- A record that takes the place of the first one, before the reader has begun. -/
theorem Tracked.shift (h : Tracked maxLines s) (hm : 1 ≤ maxLines) (text : PyStr)
    (hroom : ¬s.list.length < maxLines) (hp : s.fromLineNum = 1) :
    Tracked maxLines (s.emit maxLines text) := by
  have hlist : (s.emit maxLines text).list = (s.list ++ [text ++ terminator]).drop 1 := by
    rw [emit_list hm h.room, if_neg hroom]
  have hlen : (s.emit maxLines text).list.length = s.list.length := by
    rw [hlist, List.length_drop, List.length_append, List.length_singleton, Nat.add_sub_cancel]
  have hemitted : (s.emit maxLines text).emitted.length = s.emitted.length + 1 := by
    simp [RedisReader.emit]
  have hfits := h.fits
  have htrim : (s.emit maxLines text).trimmed = s.trimmed + 1 := by
    unfold trimmed
    omega
  have hfirst : (s.fromLineNum - 1).toNat = 0 := by omega
  have hroom' := h.room
  refine ⟨h.positive, by omega, by omega, ?_, fun n hn => ?_, ?_, ?_⟩
  · have hdrop : (s.emitted ++ [text ++ terminator]).drop s.trimmed =
        s.emitted.drop s.trimmed ++ [text ++ terminator] :=
      List.drop_append_of_le_length (Nat.sub_le s.emitted.length s.list.length)
    rw [hlist, htrim]
    show _ = (s.emitted ++ [text ++ terminator]).drop (s.trimmed + 1)
    rw [← List.drop_drop, hdrop, ← h.list]
  · have := h.asked n hn
    exact ⟨this.1, by omega⟩
  · show s.content = (List.take (s.fromLineNum - 1).toNat _).flatten
    rw [h.content, hfirst, List.take_zero, List.take_zero]
  · show s.served = (List.range' _ (min (s.fromLineNum - 1).toNat _)).map _
    rw [h.served, hfirst, Nat.zero_min, Nat.zero_min]
    rfl

theorem Tracked.ask (h : Tracked maxLines s) (hn : s.asked = none) :
    Tracked maxLines (s.ask tail) := by
  unfold RedisReader.ask
  have hpos := h.positive
  have hnone : ∀ n, s.asked ≠ some n := by
    intro n he
    rw [hn] at he
    cases he
  split
  · rename_i hend
    have hle : s.list.length ≤ (s.fromLineNum - 1).toNat := by omega
    have hle' : s.list.length ≤ (s.fromLineNum + 1 - 1).toNat := by omega
    have hresponse : response tail s.fromLineNum (some s.list.length) none =
        ⟨s.fromLineNum, s.fromLineNum, if s.list.length = 0 then noSuchLog else [],
          decide (s.list.length ≤ s.fromLineNum - 1 + tail)⟩ := by
      rw [response]
      exact if_pos hend
    have hcontent : (if s.list = [] then [] else
        (response tail s.fromLineNum (some s.list.length) none).logContent) = [] := by
      rw [hresponse]
      split
      · rfl
      · rename_i hne
        exact if_neg fun he => hne (List.length_eq_zero_iff.mp he)
    refine ⟨?_, h.room, h.fits, h.list, fun n he => absurd he (hnone n), ?_, ?_⟩
    · show 1 ≤ (response tail s.fromLineNum (some s.list.length) none).toLineNum + 1
      rw [hresponse]
      show 1 ≤ s.fromLineNum + 1
      omega
    · show s.content ++ (if s.list = [] then [] else _) = (s.list.take (_ + 1 - 1 : Int).toNat).flatten
      rw [hcontent, hresponse, List.append_nil, h.content, List.take_of_length_le hle,
        List.take_of_length_le hle']
    · show s.served = (List.range' s.trimmed (min (_ + 1 - 1 : Int).toNat s.list.length)).map _
      rw [hresponse, h.served, Nat.min_eq_right hle, Nat.min_eq_right hle']
      rfl
  · rename_i hmore
    refine ⟨hpos, h.room, h.fits, h.list, fun n he => ?_, h.content, h.served⟩
    cases he
    exact ⟨Int.not_le.mp hmore, Nat.le_refl _⟩

/-- The page that is served. -/
theorem Tracked.fetch (h : Tracked maxLines s) (ht : 1 ≤ tail) {llen : Nat}
    (hn : s.asked = some llen) :
    Tracked maxLines (s.fetch tail llen) ∧ (s.fetch tail llen).fromLineNum = s.fromLineNum + tail := by
  have hpos := h.positive
  obtain ⟨hlt, hle⟩ := h.asked llen hn
  have hresponse : ∀ page, response tail s.fromLineNum (some llen) (some page) =
      ⟨s.fromLineNum, s.fromLineNum - 1 + tail, page.flatten,
        decide (llen ≤ s.fromLineNum - 1 + tail)⟩ := by
    intro page
    rw [response]
    exact if_neg (by omega)
  have hfrom : (s.fetch tail llen).fromLineNum = s.fromLineNum + tail := by
    show (response tail s.fromLineNum (some llen) (some _)).toLineNum + 1 = _
    rw [hresponse]
    show s.fromLineNum - 1 + tail + 1 = s.fromLineNum + tail
    omega
  have hsum : (s.fromLineNum + tail - 1).toNat = (s.fromLineNum - 1).toNat + tail.toNat := by omega
  have hslice := slice_eq hpos ht s.list
  refine ⟨⟨by omega, h.room, h.fits, h.list, fun n he => (by cases he), ?_, ?_⟩, hfrom⟩
  · rw [hfrom]
    show s.content ++ (response tail s.fromLineNum (some llen) (some _)).logContent = _
    rw [hresponse, h.content, hslice, hsum, List.take_add, List.flatten_append]
    rfl
  · rw [hfrom]
    show s.served ++ _ = (List.range' s.trimmed (min (s.fromLineNum + tail - 1).toNat
      s.list.length)).map _
    have hmin : min (s.fromLineNum - 1).toNat s.list.length = (s.fromLineNum - 1).toNat := by omega
    have hlen : (slice tail s.fromLineNum s.list).length =
        min tail.toNat (s.list.length - (s.fromLineNum - 1).toNat) := by
      rw [hslice, List.length_take, List.length_drop]
    rw [h.served, ← List.map_append, hmin, position, List.range'_append_1, hlen, hsum]
    congr 2
    omega

theorem Tracked.step (h : Tracked maxLines s) (hm : 1 ≤ maxLines) (ht : 1 ≤ tail)
    (hp : Paced maxLines s e) (hs : step maxLines tail s e = some s') : Tracked maxLines s' := by
  cases e with
  | emit text =>
    cases hs
    by_cases hroom : s.list.length < maxLines
    · exact h.push hm text hroom hp.1
    · exact h.shift hm text hroom (hp.2.resolve_left hroom)
  | ask =>
    simp only [RedisReader.step] at hs
    split at hs
    · rename_i hn
      cases hs
      exact h.ask hn
    · cases hs
  | fetch =>
    simp only [RedisReader.step] at hs
    split at hs
    · cases hs
    · rename_i llen hn
      cases hs
      exact (h.fetch ht hn).1

/-! ## What the reader still gets -/

theorem Tracked.mem_records (h : Tracked maxLines s) :
    i ∈ s.records ↔ s.trimmed ≤ i ∧ i < s.trimmed + min (s.fromLineNum - 1).toNat s.list.length := by
  rw [records, h.served, List.map_map]
  show i ∈ (List.range' s.trimmed _).map id ↔ _
  rw [List.map_id, List.mem_range'_1]

/-- One more request, while nothing is pushed. -/
theorem Tracked.page (h : Tracked maxLines s) (ht : 1 ≤ tail)
    (hmore : s.fromLineNum - 1 < s.list.length) :
    ∃ s', Steps (RedisReader.step maxLines tail) Asks s s' ∧ Tracked maxLines s' ∧ s'.list = s.list ∧
      s'.emitted = s.emitted ∧ s'.fromLineNum = s.fromLineNum + tail := by
  have hopen : ∃ s₁ llen, Steps (RedisReader.step maxLines tail) Asks s s₁ ∧ Tracked maxLines s₁ ∧
      s₁.list = s.list ∧ s₁.emitted = s.emitted ∧ s₁.fromLineNum = s.fromLineNum ∧
      s₁.asked = some llen := by
    cases hn : s.asked with
    | some llen => exact ⟨s, llen, .refl, h, rfl, rfl, rfl, hn⟩
    | none =>
      have hask : s.ask tail = { s with asked := some s.list.length } := if_neg (Int.not_le.mpr hmore)
      have hstep : RedisReader.step maxLines tail s .ask = some (s.ask tail) := if_pos hn
      refine ⟨s.ask tail, s.list.length, .single (e := .ask) trivial hstep, h.ask hn, ?_⟩
      rw [hask]
      exact ⟨rfl, rfl, rfl, rfl⟩
  obtain ⟨s₁, llen, hs, h₁, hlist, hemitted, hfrom, hn⟩ := hopen
  obtain ⟨h₂, hnext⟩ := h₁.fetch ht hn
  have hstep : RedisReader.step maxLines tail s₁ .fetch = some (s₁.fetch tail llen) := by
    simp only [RedisReader.step, hn]
  exact ⟨s₁.fetch tail llen, hs.tail (e := .fetch) trivial hstep, h₂, hlist, hemitted,
    hnext.trans (by rw [hfrom])⟩

/-- Whatever is ahead of the reader is served if it goes on, page by page. -/
theorem Tracked.reach (ht : 1 ≤ tail) (n : Nat) (h : Tracked maxLines s)
    (hn : i + 1 ≤ s.position + n) (hi : s.trimmed ≤ i) (hlt : i < s.emitted.length) :
    ∃ s', Steps (RedisReader.step maxLines tail) Asks s s' ∧ i ∈ s'.records := by
  have hpos := h.positive
  have hfits := h.fits
  have htrim : s.trimmed = s.emitted.length - s.list.length := rfl
  induction n generalizing s with
  | zero =>
    refine ⟨s, .refl, h.mem_records.mpr ⟨hi, ?_⟩⟩
    unfold position at hn
    omega
  | succ n ih =>
    by_cases hmore : s.fromLineNum - 1 < s.list.length
    · obtain ⟨s₁, hs, h₁, hlist, hemitted, hfrom⟩ := h.page ht hmore
      have htrim₁ : s₁.trimmed = s.trimmed := by
        unfold trimmed
        rw [hlist, hemitted]
      obtain ⟨s', hs', hm⟩ := ih h₁ (by
        unfold position at hn ⊢
        rw [htrim₁, hfrom]
        omega) (by rw [htrim₁]; exact hi) (by rw [hemitted]; exact hlt) h₁.positive h₁.fits rfl
      exact ⟨s', hs.trans hs', hm⟩
    · refine ⟨s, .refl, h.mem_records.mpr ⟨hi, ?_⟩⟩
      omega

theorem Tracked.faithful (h : Tracked maxLines s) (ht : 1 ≤ tail) : Faithful maxLines tail s := by
  have hfits := h.fits
  have htrim : s.trimmed = s.emitted.length - s.list.length := rfl
  have hrecords : s.records = List.range' s.trimmed
      (min (s.fromLineNum - 1).toNat s.list.length) := by
    rw [records, h.served, List.map_map]
    exact List.map_id _
  refine ⟨fun i hi => ?_, ?_, ?_, fun d hd i hi hno => ?_, fun i hi hlt => ?_⟩
  · have := (h.mem_records.mp hi).2
    omega
  · rw [hrecords]
    exact List.pairwise_lt_range'
  · rw [h.content, hrecords]
    congr 1
    refine List.ext_getElem (by simp) fun k hk hk' => ?_
    rw [List.length_take] at hk
    have hget : s.list[k]? = s.emitted[s.trimmed + k]? := by
      rw [congrArg (·[k]?) h.list, List.getElem?_drop]
    rw [List.getElem_take, List.getElem_map, List.getElem_range', Nat.one_mul,
      List.getD_eq_getElem?_getD, ← hget, List.getElem?_eq_getElem (by omega)]
    rfl
  · rw [h.served] at hd
    obtain ⟨j, hj, rfl⟩ := List.mem_map.mp hd
    have hj := (List.mem_range'_1.mp hj).2
    have hi : i < j := hi
    show i < s.trimmed
    by_contra hge
    exact hno (h.mem_records.mpr ⟨Nat.le_of_not_lt hge, Nat.lt_trans hi hj⟩)
  · exact .inr (h.reach ht (i + 1) (by omega) hi hlt)

/-! ## What it misses -/

/-- The reader has passed the record over. -/
def Missed (i : Nat) (s : RedisReader) : Prop := i < s.position ∧ i ∉ s.records

theorem response_forward (ht : 1 ≤ tail) (f : Int) (llen : Nat) (page : Option (List PyStr)) :
    f ≤ (response tail f (some llen) page).toLineNum := by
  rw [response]
  show f ≤ LogResponse.toLineNum (if _ then _ else _)
  split
  · exact Int.le_refl f
  · show f ≤ f - 1 + tail
    omega

theorem Missed.step (h : Missed i s) (ht : 1 ≤ tail) (ha : Asks s e)
    (hs : step maxLines tail s e = some s') : Missed i s' := by
  obtain ⟨hlt, hno⟩ := h
  unfold position at hlt
  cases e with
  | emit text => exact ha.elim
  | ask =>
    simp only [RedisReader.step, RedisReader.ask] at hs
    split at hs
    · cases hs
      refine ⟨?_, ?_⟩
      · have := response_forward ht s.fromLineNum s.list.length none
        unfold position
        split
        · show i < s.trimmed + (_ + 1 - 1 : Int).toNat
          omega
        · exact hlt
      · split <;> exact hno
    · cases hs
  | fetch =>
    simp only [RedisReader.step] at hs
    split at hs
    · cases hs
    · rename_i llen hn
      cases hs
      have hforward := response_forward ht s.fromLineNum llen (some (slice tail s.fromLineNum s.list))
      refine ⟨?_, fun hm => ?_⟩
      · show i < s.trimmed + (_ + 1 - 1 : Int).toNat
        omega
      · have hm : i ∈ (s.served ++ (List.range' s.position
            (slice tail s.fromLineNum s.list).length).map fun i => Delivery.mk i s.trimmed).map
              Delivery.record := hm
        rw [List.map_append, List.mem_append, List.map_map] at hm
        rcases hm with hm | hm
        · exact hno hm
        · obtain ⟨j, hj, rfl⟩ := List.mem_map.mp hm
          have hj : s.position ≤ j := (List.mem_range'_1.mp hj).1
          have hlt : j < s.position := hlt
          omega

theorem Missed.not_faithful (h : Missed i s) (ht : 1 ≤ tail) (hi : s.trimmed ≤ i)
    (hlt : i < s.emitted.length) : ¬Faithful maxLines tail s := by
  intro hf
  rcases hf.reach i hi hlt with hm | ⟨s', hs, hm⟩
  · exact h.2 hm
  · have hmissed : Missed i s' :=
      hs.invariant (fun _ _ _ hi ha hst => hi.step ht ha hst) h
    exact hmissed.2 hm

/-- Any other push makes the reader miss a record that is still there. -/
theorem Tracked.overtaken (h : Tracked maxLines s) (hm : 1 ≤ maxLines) (ht : 1 ≤ tail) {text : PyStr}
    (hp : ¬Paced maxLines s (.emit text)) : ¬Faithful maxLines tail (s.emit maxLines text) := by
  have hpos := h.positive
  have hfits := h.fits
  have hroom := h.room
  have hemitted : (s.emit maxLines text).emitted.length = s.emitted.length + 1 := by
    simp [RedisReader.emit]
  have htrimmed : s.trimmed = s.emitted.length - s.list.length := rfl
  have htrim : (s.emit maxLines text).trimmed =
      if s.list.length < maxLines then s.trimmed else s.trimmed + 1 := by
    have hlen := congrArg List.length (emit_list hm hroom text)
    have htrimmed' : (s.emit maxLines text).trimmed =
      (s.emit maxLines text).emitted.length - (s.emit maxLines text).list.length := rfl
    split at hlen
    · rename_i hlt
      rw [List.length_append, List.length_singleton] at hlen
      rw [if_pos hlt]
      omega
    · rename_i hlt
      rw [List.length_drop, List.length_append, List.length_singleton] at hlen
      rw [if_neg hlt]
      omega
  have hpaced : ¬(s.fromLineNum - 1 ≤ s.list.length ∧
      (s.list.length < maxLines ∨ s.fromLineNum = 1)) := hp
  -- the reader goes on behind the record it should be served next
  refine Missed.not_faithful (i := s.trimmed + min (s.fromLineNum - 1).toNat s.list.length) ⟨?_, ?_⟩
    ht ?_ ?_
  · show _ < (s.emit maxLines text).trimmed + (s.fromLineNum - 1).toNat
    rw [htrim]
    split <;> omega
  · intro hmem
    have := (h.mem_records.mp hmem).2
    omega
  · rw [htrim]
    split <;> omega
  · omega

/-- In runs in which nothing is pushed while the reader is ahead of the list, and nothing is trimmed
once it has left the head of it, the reader gets every record that is still there, in order; and
any other push makes it miss one. -/
theorem redis_pages (hm : 1 ≤ maxLines) (ht : 1 ≤ tail)
    (h : Steps (step maxLines tail) (Paced maxLines) start s) :
    Faithful maxLines tail s ∧
      ∀ text, Paced maxLines s (.emit text) ↔ Faithful maxLines tail (s.emit maxLines text) := by
  have hs : Tracked maxLines s :=
    h.invariant (fun _ _ _ hi hp hst => hi.step hm ht hp hst) (tracked_start hm)
  refine ⟨hs.faithful ht, fun text => ⟨fun hp => ?_, fun hf => ?_⟩⟩
  · exact (hs.step hm ht hp (e := .emit text) rfl).faithful ht
  · by_contra hp
    exact hs.overtaken hm ht hp hf

/-- Two full pages, and one record more than the list holds before the first of them. -/
def fullPages : List Event :=
  [.emit (pyInt 1), .emit (pyInt 2), .emit (pyInt 3), .ask, .fetch, .ask, .fetch, .ask]

def fullPagesState : RedisReader := (run (step 2 1) start fullPages).get rfl

theorem redis_pages_full : Faithful 2 1 fullPagesState :=
  (redis_pages (by decide) (by decide)
    (.of_allowed (show Allowed (step 2 1) (Paced 2) start fullPages by decide)
      (Option.some_get (x := run _ _ _) rfl).symm)).1

/-- The record pushed after a short page is never served. -/
theorem redis_record_lost : ∃ s, Steps (step 1000 20) Any start s ∧
    s.list = [py "1\n", py "2\n"] ∧ s.content = py "1\n" ∧ s.fromLineNum = 22 ∧
    ¬Faithful 1000 20 s := by
  refine ⟨(run (step 1000 20) start
      [.emit (py "1"), .ask, .fetch, .emit (py "2"), .ask]).get rfl,
    .of_run (fun _ _ _ => trivial) (Option.some_get (x := run _ _ _) rfl).symm, rfl, rfl, rfl, ?_⟩
  exact Missed.not_faithful (i := 1) ⟨by decide, by decide⟩ (by decide) (by decide) (by decide)

end RedisReader
end Pyxxl
