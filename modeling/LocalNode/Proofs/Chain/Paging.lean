import LocalNode.Proofs.Chain.Queries

/-!
Queries that ask for less, and queries page by page.

Logs with the same place keep the order of their receipts, so what two queries return can only be
compared if sorting is stable. Sorting puts each log before the sorted ones that are not before it,
and this one equation is all that is used: by induction on the logs, picking out some of them before
sorting gives what picking them out of the sorted ones gives.

So the answer to a query that asks for one condition more is the part of the wider answer that meets
it. The two pages of a range of heights are parts of the answer for the whole range in this sense.
As heights do not go down along that answer, the first page is all of its beginning.
-/

namespace LocalNode

/-! ### Stable sorting -/

/-- If nothing that passes stands behind something that does not, a list is what passes followed by
the rest. -/
theorem filter_append_filter_not {α : Type} {p : α → Bool} {l : List α}
    (h : l.Pairwise fun a b => p b = true → p a = true) : l.filter p ++ l.filter (!p ·) = l := by
  induction l with
  | nil => rfl
  | cons a l ih =>
      obtain ⟨ha, hl⟩ := List.pairwise_cons.mp h
      by_cases hp : p a = true
      · rw [List.filter_cons_of_pos hp, List.filter_cons_of_neg (by simp [hp]), List.cons_append,
          ih hl]
      · have hnone : l.filter p = [] := List.filter_eq_nil_iff.mpr fun b hb hpb => hp (ha b hb hpb)
        rw [List.filter_cons_of_neg hp, hnone, List.filter_cons_of_pos (by simp [hp]),
          List.nil_append]
        simpa [hnone] using ih hl

section Stable

variable {α : Type} {le : α → α → Bool}
  (htrans : ∀ a b c, le a b = true → le b c = true → le a c = true)
  (htotal : ∀ a b, (le a b || le b a) = true)

include htrans htotal

/-- Sorting puts an element before all sorted ones that are not before it. -/
theorem mergeSort_cons_eq (a : α) (l : List α) :
    (a :: l).mergeSort le =
      (l.mergeSort le).filter (!le a ·) ++ a :: (l.mergeSort le).filter (le a ·) := by
  obtain ⟨before, after, hcons, hsorted, hbefore⟩ := List.mergeSort_cons htrans htotal a l
  have hafter : ∀ b ∈ after, le a b = true := by
    have hpairwise := List.pairwise_mergeSort htrans htotal (a :: l)
    rw [hcons] at hpairwise
    exact (List.pairwise_cons.mp (List.pairwise_append.mp hpairwise).2.1).1
  have hnot : ∀ b ∈ after, ¬ (!le a b) = true := fun b hb => by simp [hafter b hb]
  have hlow : (before ++ after).filter (!le a ·) = before := by
    rw [List.filter_append, List.filter_eq_self.mpr hbefore, List.filter_eq_nil_iff.mpr hnot,
      List.append_nil]
  have hhigh : (before ++ after).filter (le a ·) = after := by
    rw [List.filter_append, List.filter_eq_self.mpr hafter,
      List.filter_eq_nil_iff.mpr fun b hb => by simpa using hbefore b hb, List.nil_append]
  rw [hcons, hsorted, hlow, hhigh]

/-- Picking elements out commutes with sorting. -/
theorem filter_mergeSort (p : α → Bool) (l : List α) :
    (l.mergeSort le).filter p = (l.filter p).mergeSort le := by
  induction l with
  | nil => simp
  | cons a l ih =>
      rw [mergeSort_cons_eq htrans htotal, List.filter_append]
      by_cases hp : p a = true
      · rw [List.filter_cons_of_pos hp, List.filter_cons_of_pos hp,
          mergeSort_cons_eq htrans htotal, ← ih, List.filter_comm p, List.filter_comm p]
      · -- Without the element, its two sides close up to the sorted list again.
        have hsides : (l.mergeSort le).Pairwise
            fun b b' => (!le a b') = true → (!le a b) = true := by
          refine (List.pairwise_mergeSort htrans htotal l).imp ?_
          intro b b' hle hnot
          rw [Bool.not_eq_true'] at hnot ⊢
          exact Bool.eq_false_iff.mpr fun hab =>
            Bool.eq_false_iff.mp hnot (htrans a b b' hab hle)
        have hwhole := filter_append_filter_not hsides
        simp only [Bool.not_not] at hwhole
        rw [List.filter_cons_of_neg hp, List.filter_cons_of_neg hp, ← List.filter_append, hwhole,
          ih]

end Stable

/-! ### Filters that ask for more

An account or a topic is asked for besides what the filter asks for, while a range of heights takes
the place of the one before. So a range only narrows an answer if it lies inside the old one.
-/

instance (filter : Option TopicFilter) (topic : Option Hash) :
    Decidable (TopicFilter.Passes filter topic) :=
  match filter with
  | none => .isTrue .notAsked
  | some _ => decidable_of_iff _ TopicFilter.matches?_iff

namespace LogFilter

/-- The filter with a range of heights. -/
def between (f : LogFilter) (first last : Word) : LogFilter :=
  { f with fromBlock := some (.number first), toBlock := some (.number last) }

/-- The topic positions for which the filter says what it asks. -/
def positions (f : LogFilter) : List (Option TopicFilter) :=
  f.topics.getD []

/-- The filter with one topic position more. -/
def withTopic (f : LogFilter) (filter : Option TopicFilter) : LogFilter :=
  { f with topics := some (f.positions ++ [filter]) }

variable {f : LogFilter} {first last : Nat} {l : Log}

/-- A narrower range is asked for instead. -/
theorem asks_heights (hhash : f.blockHash = none) {first' last' : Nat} (hfirst : first ≤ first')
    (hlast : last' ≤ last) (fromBlock toBlock : Option BlockSelector) :
    ({ f with fromBlock, toBlock } : LogFilter).Asks first' last' l ↔
      f.Asks first last l ∧ first' ≤ l.blockNumber.toNat ∧ l.blockNumber.toNat ≤ last' := by
  constructor
  · intro h
    obtain ⟨hfits, hlow, hhigh⟩ := h.heights hhash
    exact ⟨⟨h.blockHash, fun _ => ⟨hfits, hfirst.trans hlow, hhigh.trans hlast⟩, h.address,
      h.topics⟩, hlow, hhigh⟩
  · intro h
    obtain ⟨hwide, hlow, hhigh⟩ := h
    exact ⟨hwide.blockHash, fun _ => ⟨(hwide.heights hhash).1, hlow, hhigh⟩, hwide.address,
      hwide.topics⟩

/-- An account is asked for besides. -/
theorem asks_address (hnone : f.address = none) (address : Address) :
    ({ f with address := some address } : LogFilter).Asks first last l ↔
      f.Asks first last l ∧ l.address = address := by
  constructor
  · intro h
    refine ⟨⟨h.blockHash, h.heights, ?_, h.topics⟩, h.address address rfl⟩
    intro other hother
    rw [hnone] at hother
    cases hother
  · intro h
    obtain ⟨hwide, haddress⟩ := h
    refine ⟨hwide.blockHash, hwide.heights, ?_, hwide.topics⟩
    intro other hother
    cases hother
    exact haddress

theorem asks_positions : f.Asks first last l ↔
    ({ f with topics := none } : LogFilter).Asks first last l ∧
      ∀ (i : Nat) (filter : Option TopicFilter), f.positions[i]? = some filter →
        TopicFilter.Passes filter l.topics[i]? := by
  constructor
  · intro h
    refine ⟨⟨h.blockHash, h.heights, h.address, nofun⟩, ?_⟩
    intro i filter hfilter
    cases htopics : f.topics with
    | none => simp [positions, htopics] at hfilter
    | some filters =>
        rw [positions, htopics] at hfilter
        exact h.topics filters htopics i filter hfilter
  · intro h
    obtain ⟨hother, htopics⟩ := h
    refine ⟨hother.blockHash, hother.heights, hother.address, ?_⟩
    intro filters hfilters i filter hfilter
    exact htopics i filter (by rw [positions, hfilters]; exact hfilter)

/-- Something is asked of the topic at the next position besides. -/
theorem asks_withTopic (filter : Option TopicFilter) :
    (f.withTopic filter).Asks first last l ↔
      f.Asks first last l ∧ TopicFilter.Passes filter l.topics[f.positions.length]? := by
  rw [asks_positions, asks_positions (f := f), and_assoc]
  refine and_congr_right fun _ => ?_
  show (∀ (i : Nat) (other : Option TopicFilter),
    (f.positions ++ [filter])[i]? = some other → _) ↔ _
  constructor
  · intro h
    refine ⟨fun i other hother => h i other ?_, h f.positions.length filter (by simp)⟩
    obtain ⟨hi, -⟩ := List.getElem?_eq_some_iff.mp hother
    rwa [List.getElem?_append_left hi]
  · intro h i other hother
    obtain ⟨hwide, hnext⟩ := h
    rcases Nat.lt_or_ge i f.positions.length with hi | hi
    · rw [List.getElem?_append_left hi] at hother
      exact hwide i other hother
    · rw [List.getElem?_append_right hi, List.getElem?_singleton] at hother
      split at hother
      · cases hother
        rwa [show i = f.positions.length by omega]
      · cases hother

end LogFilter

namespace Chain

variable {c : Chain}

/-- A filter asks for all that another one with the range `first` to `last` asks for, and for one
condition more: a narrower range of heights, an account where there was none, or one more topic
position. -/
inductive Narrows (c : Chain) (f : LogFilter) (first last : Nat) :
    LogFilter → (Log → Bool) → Prop
  | heights {fromBlock toBlock : Option BlockSelector} {first' last' : Nat}
      (from_narrow : c.EndsAt fromBlock first') (to_narrow : c.EndsAt toBlock last')
      (first_le : first ≤ first') (le_last : last' ≤ last) :
      Narrows c f first last { f with fromBlock, toBlock }
        fun l => first' ≤ l.blockNumber.toNat ∧ l.blockNumber.toNat ≤ last'
  | address (unasked : f.address = none) (address : Address) :
      Narrows c f first last { f with address := some address } fun l => l.address = address
  | topic (filter : Option TopicFilter) :
      Narrows c f first last (f.withTopic filter) fun l =>
        TopicFilter.Passes filter l.topics[f.positions.length]?

/-- One condition more picks its part out of the answer. -/
theorem selectLogs_eq_filter {f f' : LogFilter} {first last first' last' : Nat} {asked : Log → Bool}
    (h : ∀ l, f'.Asks first' last' l ↔ f.Asks first last l ∧ asked l = true)
    (receipts : List Receipt) :
    selectLogs f' first' last' receipts = (selectLogs f first last receipts).filter asked := by
  rw [selectLogs, selectLogs, filter_mergeSort Log.le_transitive Log.le_either, List.filter_filter]
  congr 1
  refine List.filter_congr fun l _ => ?_
  rw [Bool.eq_iff_iff, Bool.and_eq_true, LogFilter.passes_iff, LogFilter.passes_iff, h, and_comm]

theorem logs_eq_filter {f f' : LogFilter} {first last first' last' : Nat} {asked : Log → Bool}
    (hfirst : c.EndsAt f'.fromBlock first') (hlast : c.EndsAt f'.toBlock last')
    (h : ∀ l, f'.Asks first' last' l ↔ f.Asks first last l ∧ asked l = true) :
    c.logs f' = .ok ((selectLogs f first last c.receipts.values).filter asked) := by
  rw [logs_eq_ok hfirst hlast, selectLogs_eq_filter h]

section Ranges

variable {f : LogFilter} (hhash : f.blockHash = none)

include hhash

/-- The narrower query is answered with the part of the wider answer that meets its condition. -/
theorem Narrows.logs {first last : Nat} (hfirst : c.EndsAt f.fromBlock first)
    (hlast : c.EndsAt f.toBlock last) {f' : LogFilter} {asked : Log → Bool}
    (h : c.Narrows f first last f' asked) :
    ∃ answer, c.logs f = .ok answer ∧ c.logs f' = .ok (answer.filter asked) := by
  refine ⟨_, logs_eq_ok hfirst hlast, ?_⟩
  cases h with
  | heights from_narrow to_narrow first_le le_last =>
      refine logs_eq_filter from_narrow to_narrow fun l => ?_
      rw [LogFilter.asks_heights hhash first_le le_last, decide_eq_true_iff]
  | address unasked address =>
      refine logs_eq_filter hfirst hlast fun l => ?_
      rw [LogFilter.asks_address unasked, decide_eq_true_iff]
  | topic filter =>
      refine logs_eq_filter hfirst hlast fun l => ?_
      rw [LogFilter.asks_withTopic, decide_eq_true_iff]

/-- What is found up to a height comes before all that is found above it. -/
theorem selectLogs_append {first middle last : Nat} (hfirst : first ≤ middle)
    (hlast : middle < last) (receipts : List Receipt) :
    selectLogs f first middle receipts ++ selectLogs f (middle + 1) last receipts =
      selectLogs f first last receipts := by
  have hlow : selectLogs f first middle receipts =
      (selectLogs f first last receipts).filter fun l => l.blockNumber.toNat ≤ middle := by
    apply selectLogs_eq_filter
    intro l
    refine (LogFilter.asks_heights hhash (Nat.le_refl first) hlast.le _ _).trans ?_
    exact and_congr_right fun hwide => by simp [(hwide.heights hhash).2.1]
  have hhigh : selectLogs f (middle + 1) last receipts =
      (selectLogs f first last receipts).filter fun l => !(l.blockNumber.toNat ≤ middle) := by
    apply selectLogs_eq_filter
    intro l
    have habove := hfirst.trans middle.le_succ
    refine (LogFilter.asks_heights hhash habove (Nat.le_refl last) _ _).trans ?_
    refine and_congr_right fun hwide => ?_
    rw [and_iff_left (hwide.heights hhash).2.2, Bool.not_eq_true', decide_eq_false_iff_not,
      Nat.not_le]
    exact Nat.succ_le_iff
  rw [hlow, hhigh]
  refine filter_append_filter_not ((Log.pairwise_mergeSort _).imp ?_)
  intro l l' hplace hmiddle
  have hheight : l.blockNumber.toNat ≤ l'.blockNumber.toNat :=
    Prod.Lex.monotone_fst _ _ hplace
  exact decide_eq_true (hheight.trans (of_decide_eq_true hmiddle))

end Ranges

/-- The order of the receipts has no influence on what is asked. -/
theorem Narrows.inOrder {f f' : LogFilter} {first last : Nat} {asked : Log → Bool}
    (h : c.Narrows f first last f' asked) (order : List (Hash × Receipt)) :
    (c.inOrder order).Narrows f first last f' asked := by
  cases h with
  | heights from_narrow to_narrow first_le le_last =>
      exact .heights (from_narrow.inOrder order) (to_narrow.inOrder order) first_le le_last
  | address unasked address => exact .address unasked address
  | topic filter => exact .topic filter

theorem endsAt_number {height : Word} (h : height.toNat ≤ c.head) :
    c.EndsAt (some (.number height)) height.toNat :=
  .given (if_pos h)

/-! ### Pages -/

/-- **Queries can be made page by page, and narrower queries find parts of wider ones.** In whatever
order the receipts are gone through, the answer for a range of heights is the answer up to some
height in it followed by the answer above that height. A query with one condition more, on heights,
account or topics, is answered with the logs of the wider answer that meet it, in their order. -/
theorem logs_paged (c : Chain) (order : List (Hash × Receipt)) {f : LogFilter}
    (hhash : f.blockHash = none) :
    (∀ first middle last : Word, first ≤ middle → middle < last → last.toNat ≤ c.head →
      ∃ page nextPage, (c.inOrder order).logs (f.between first middle) = .ok page ∧
        (c.inOrder order).logs (f.between (middle + 1) last) = .ok nextPage ∧
        (c.inOrder order).logs (f.between first last) = .ok (page ++ nextPage)) ∧
    ∀ first last, c.EndsAt f.fromBlock first → c.EndsAt f.toBlock last →
      ∀ f' asked, c.Narrows f first last f' asked →
        ∃ answer, (c.inOrder order).logs f = .ok answer ∧
          (c.inOrder order).logs f' = .ok (answer.filter asked) := by
  constructor
  · intro first middle last hfirst hlast hhead
    have hmiddle : middle.toNat < last.toNat := hlast
    have hnext : (middle + 1).toNat = middle.toNat + 1 :=
      BitVec.toNat_add_of_lt (Nat.lt_of_le_of_lt hmiddle last.isLt)
    have hends : ∀ height : Word, height.toNat ≤ last.toNat →
        (c.inOrder order).EndsAt (some (.number height)) height.toNat :=
      fun height h => endsAt_number (h.trans hhead)
    have hbetween : ∀ low high : Word, low.toNat ≤ last.toNat → high.toNat ≤ last.toNat →
        (c.inOrder order).logs (f.between low high) =
          .ok (selectLogs (f.between first last) low.toNat high.toNat
            (c.inOrder order).receipts.values) := by
      intro low high hlow hhigh
      exact logs_eq_ok (hends low hlow) (hends high hhigh)
    refine ⟨_, _, hbetween first middle (hfirst.trans hmiddle.le) hmiddle.le,
      hbetween (middle + 1) last (hnext ▸ hmiddle) le_rfl, ?_⟩
    rw [hbetween first last (hfirst.trans hmiddle.le) le_rfl, hnext,
      selectLogs_append (f := f.between first last) hhash hfirst hmiddle]
  · intro first last hfirst hlast f' asked hnarrows
    exact (hnarrows.inOrder order).logs hhash (hfirst.inOrder order) (hlast.inOrder order)

/-- Logs of the transaction that was accepted last stand in its receipt, the only one if there was
none before. -/
theorem addLogs_accept [HashFunction] (c : Chain) (hnone : c.receipts = .empty) (data : Data)
    (logs : List Log) :
    ((c.accept data).addLogs (hashOf data) logs).2 =
      { c.accept data with
        receipts := ⟨[(hashOf data, { c.sentReceipt data with logs := logs })]⟩ } := by
  have hreceipts : (c.accept data).receipts = ⟨[(hashOf data, c.sentReceipt data)]⟩ := by
    show c.receipts.insert (hashOf data) (c.sentReceipt data) = _
    rw [hnone]
    rfl
  have hfound : (c.accept data).receipts.get? (hashOf data) = some (c.sentReceipt data) :=
    Table.get?_insert_self _ _ _
  rw [addLogs, hfound]
  simp only [hreceipts, Table.insert, Table.insertEntry, if_true]
  rfl

/-- Of two logs that were appended to a receipt, the second one is on the first page and the first
one on the second. -/
theorem logs_paged_appended :
    let data : Data := ⟨[0xf8, 0x6b]⟩
    let logs : List Log := [{ blockNumber := 1 }, { index := 3 }]
    let c := (new 1337).after [.command (.sendRawTransaction data), .addLogs (hashOf data) logs]
    let f : LogFilter := { fromBlock := some (.tag .earliest) }
    Reachable c ∧ f.blockHash = none ∧
    c.logs (f.between 0 0) = .ok [{ index := 3 }] ∧
    c.logs (f.between 1 1) = .ok [{ blockNumber := 1 }] ∧
    c.logs (f.between 0 1) = .ok [{ index := 3 }, { blockNumber := 1 }] ∧
    ∃ answer, c.logs f = .ok answer ∧
      c.logs { f with address := some .zero } = .ok (answer.filter (·.address = .zero)) := by
  intro data logs c f
  have hc : c = { (new 1337).accept data with
      receipts := ⟨[(hashOf data, { (new 1337).sentReceipt data with logs := logs })]⟩ } :=
    addLogs_accept (new 1337) rfl data logs
  have hhead : c.head = 1 := by
    rw [hc]
    rfl
  have hanswer : ∀ height : Word, height.toNat ≤ 1 → c.logs (f.between height height) =
      .ok ((logs.filter ((f.between height height).passes height.toNat height.toNat)).mergeSort
        Log.le) := by
    intro height hheight
    have hends : c.EndsAt (some (.number height)) height.toNat := endsAt_number (hhead ▸ hheight)
    rw [logs_eq_ok hends hends, hc]
    rfl
  have hfirst : c.logs (f.between 0 0) = .ok [{ index := 3 }] :=
    (hanswer 0 (by decide)).trans (congrArg _ (List.mergeSort_singleton _))
  have hsecond : c.logs (f.between 1 1) = .ok [{ blockNumber := 1 }] :=
    (hanswer 1 (by decide)).trans (congrArg _ (List.mergeSort_singleton _))
  obtain ⟨hpages, hnarrows⟩ := logs_paged c c.receipts.entries (f := f) rfl
  obtain ⟨page, nextPage, hpage, hnextPage, hboth⟩ :=
    hpages 0 0 1 (by decide) (by decide) hhead.ge
  have hpageEq : page = [{ index := 3 }] := Except.ok.inj (hpage.symm.trans hfirst)
  have hnextPageEq : nextPage = [{ blockNumber := 1 }] :=
    Except.ok.inj (hnextPage.symm.trans hsecond)
  rw [hpageEq, hnextPageEq] at hboth
  exact ⟨⟨1337, _, rfl⟩, rfl, hfirst, hsecond, hboth,
    hnarrows 0 c.head (.given rfl) .notGiven _ _ (.address rfl .zero)⟩

end Chain

end LocalNode
