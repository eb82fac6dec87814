import Mathlib.Data.List.Sort
import Mathlib.Data.Prod.Lex
import LocalNode.Proofs.Chain.Operations

/-!
Which logs a query returns, and in which order.

The logs are looked for in the receipts, one receipt after another. A table of receipts has no order
of its own, so what is said here holds for every list that goes through the table, `ListedBy`. The
order in which the chain keeps its receipts is one of them, because no operation enters a hash
twice.

`Answers` says what the answer has to be without going through the receipts: how often each log is
in it, and that heights and places do not go down. Two lists that answer one query therefore have
the same logs, and sorting leaves only one way to arrange their places. So logs may change their
position only with logs of the same place, and not at all if the places are distinct.
-/

namespace LocalNode

/-! ### Going through a table

A table does not promise an order of its entries. What is said of going through it is said of every
list that has each entry once.
-/

namespace Table

variable {κ ν : Type} [DecidableEq κ]

/-- A list goes through a table: every key of the table comes once, with its value. -/
structure ListedBy (t : Table κ ν) (order : List (κ × ν)) : Prop where
  once : (order.map (·.1)).Nodup
  mem_iff : ∀ k v, (k, v) ∈ order ↔ t.get? k = some v

/-- Two lists that go through the same table differ in their order only. -/
theorem ListedBy.perm {t : Table κ ν} {order order' : List (κ × ν)} (h : t.ListedBy order)
    (h' : t.ListedBy order') : order.Perm order' := by
  refine (List.perm_ext_iff_of_nodup h.once.of_map h'.once.of_map).mpr ?_
  intro entry
  obtain ⟨k, v⟩ := entry
  rw [h.mem_iff, h'.mem_iff]

theorem mem_map_insertEntry {k k' : κ} {v : ν} {entries : List (κ × ν)} :
    k' ∈ (insertEntry k v entries).map (·.1) ↔ k' = k ∨ k' ∈ entries.map (·.1) := by
  induction entries with
  | nil => simp [insertEntry]
  | cons entry rest ih =>
      by_cases hkey : entry.1 = k
      · simp [insertEntry, hkey]
      · rw [insertEntry, if_neg hkey, List.map_cons, List.mem_cons, ih, List.map_cons,
          List.mem_cons, or_left_comm]

theorem nodup_insertEntry {k : κ} {v : ν} {entries : List (κ × ν)}
    (h : (entries.map (·.1)).Nodup) : ((insertEntry k v entries).map (·.1)).Nodup := by
  induction entries with
  | nil => simp [insertEntry]
  | cons entry rest ih =>
      rw [List.map_cons, List.nodup_cons] at h
      by_cases hkey : entry.1 = k
      · rw [insertEntry, if_pos hkey, List.map_cons, List.nodup_cons, ← hkey]
        exact h
      · rw [insertEntry, if_neg hkey, List.map_cons, List.nodup_cons, mem_map_insertEntry]
        exact ⟨fun hmem => hmem.elim hkey h.1, ih h.2⟩

theorem mem_iff_lookup {entries : List (κ × ν)} (h : (entries.map (·.1)).Nodup) {k : κ} {v : ν} :
    (k, v) ∈ entries ↔ entries.lookup k = some v := by
  induction entries with
  | nil => simp
  | cons entry rest ih =>
      obtain ⟨key, value⟩ := entry
      rw [List.map_cons, List.nodup_cons] at h
      rw [List.mem_cons, Prod.mk.injEq, lookup_cons, ih h.2]
      by_cases hkey : k = key
      · have habsent : rest.lookup k ≠ some v := by
          intro hv
          have hmem := List.mem_map_of_mem (f := (·.1)) ((ih h.2).mpr hv)
          exact h.1 (hkey ▸ hmem)
        simp [hkey, hkey ▸ habsent, eq_comm]
      · simp [hkey]

theorem listedBy_entries {t : Table κ ν} (h : (t.entries.map (·.1)).Nodup) :
    t.ListedBy t.entries where
  once := h
  mem_iff _ _ := mem_iff_lookup h

end Table

/-! ### What a filter asks for -/

/-- What is asked of the topic at one position, if anything. -/
inductive TopicFilter.Passes : Option TopicFilter → Option Hash → Prop
  | notAsked {topic : Option Hash} : Passes none topic
  | exact {topic : Hash} : Passes (some (.exact topic)) (some topic)
  | listed {topics : List Hash} {topic : Hash} (mem : topic ∈ topics) :
      Passes (some (.anyOf topics)) (some topic)
  | nothingListed {topic : Option Hash} : Passes (some (.anyOf [])) topic

theorem TopicFilter.matches?_iff {filter : TopicFilter} {topic : Option Hash} :
    filter.matches? topic = true ↔ Passes (some filter) topic := by
  constructor
  · intro h
    cases filter with
    | exact expected =>
        have htopic : topic = some expected := by simpa [matches?] using h
        rw [htopic]
        exact .exact
    | anyOf topics =>
        cases topics with
        | nil => exact .nothingListed
        | cons first rest =>
            cases topic with
            | none => simp [matches?] at h
            | some topic => exact .listed (by simpa [matches?] using h)
  · intro h
    cases h with
    | exact => simp [matches?]
    | listed mem => simp [matches?, mem]
    | nothingListed => simp [matches?]

namespace LogFilter

/-- What a filter asks of a log, where `first` and `last` are the ends of its range of heights. -/
structure Asks (f : LogFilter) (first last : Nat) (l : Log) : Prop where
  blockHash : ∀ hash, f.blockHash = some hash → l.blockHash = hash
  /-- The range only matters if no block is named by its hash. -/
  heights : f.blockHash = none →
    l.blockNumber.toNat < UInt64.size ∧ first ≤ l.blockNumber.toNat ∧ l.blockNumber.toNat ≤ last
  address : ∀ address, f.address = some address → l.address = address
  topics : ∀ filters, f.topics = some filters → ∀ (i : Nat) (filter : Option TopicFilter),
    filters[i]? = some filter → TopicFilter.Passes filter l.topics[i]?

variable {f : LogFilter} {first last : Nat} {l : Log}

theorem passesBlock_iff : f.passesBlock first last l = true ↔
    (∀ hash, f.blockHash = some hash → l.blockHash = hash) ∧
      (f.blockHash = none → l.blockNumber.toNat < UInt64.size ∧ first ≤ l.blockNumber.toNat ∧
        l.blockNumber.toNat ≤ last) := by
  unfold passesBlock
  cases f.blockHash with
  | some hash => simp
  | none =>
      by_cases hfits : l.blockNumber.toNat < UInt64.size
      · have htoNat : (UInt64.ofNat l.blockNumber.toNat).toNat = l.blockNumber.toNat :=
          UInt64.toNat_ofNat_of_lt hfits
        simp [Word.toUInt64?, hfits, htoNat]
      · simp [Word.toUInt64?, hfits]

theorem passesAddress_iff :
    f.passesAddress l = true ↔ ∀ address, f.address = some address → l.address = address := by
  unfold passesAddress
  cases f.address <;> simp

theorem topicsPass_cons_iff {filter : Option TopicFilter} {filters : List (Option TopicFilter)}
    {topics : List Hash} : topicsPass (filter :: filters) topics = true ↔
      TopicFilter.Passes filter topics.head? ∧ topicsPass filters topics.tail = true := by
  cases filter with
  | none => simp [topicsPass, TopicFilter.Passes.notAsked]
  | some filter => simp [topicsPass, TopicFilter.matches?_iff]

theorem topicsPass_iff {filters : List (Option TopicFilter)} {topics : List Hash} :
    topicsPass filters topics = true ↔ ∀ (i : Nat) (filter : Option TopicFilter),
      filters[i]? = some filter → TopicFilter.Passes filter topics[i]? := by
  induction filters generalizing topics with
  | nil => simp [topicsPass]
  | cons filter filters ih =>
      rw [topicsPass_cons_iff, ih, List.head?_eq_getElem?]
      constructor
      · intro h i asked hasked
        obtain ⟨hfirst, hrest⟩ := h
        cases i with
        | zero =>
            rw [List.getElem?_cons_zero, Option.some.injEq] at hasked
            exact hasked ▸ hfirst
        | succ i =>
            have hpasses := hrest i asked hasked
            rwa [List.getElem?_tail] at hpasses
      · intro h
        refine ⟨h 0 filter rfl, fun i asked hasked => ?_⟩
        rw [List.getElem?_tail]
        exact h (i + 1) asked hasked

theorem passesTopics_iff : f.passesTopics l = true ↔ ∀ filters, f.topics = some filters →
    ∀ (i : Nat) (filter : Option TopicFilter),
      filters[i]? = some filter → TopicFilter.Passes filter l.topics[i]? := by
  unfold passesTopics
  cases f.topics with
  | none => simp
  | some filters => simp [topicsPass_iff]

theorem passes_iff : f.passes first last l = true ↔ f.Asks first last l := by
  rw [passes, Bool.and_eq_true, Bool.and_eq_true, passesBlock_iff, passesAddress_iff,
    passesTopics_iff]
  constructor
  · intro h
    obtain ⟨⟨⟨hblock, hheights⟩, haddress⟩, htopics⟩ := h
    exact ⟨hblock, hheights, haddress, htopics⟩
  · intro h
    exact ⟨⟨⟨h.blockHash, h.heights⟩, h.address⟩, h.topics⟩

instance : DecidablePred (f.Asks first last) := fun _ =>
  decidable_of_iff _ passes_iff

end LogFilter

/-! ### Sorting

Sorting looks at heights and places only, and a receipt may have two logs of one place. So what
sorting leaves open is the order of such logs, and nothing else.
-/

namespace Log

/-- The height of a log and its place in the block, by which logs are sorted. -/
def place (l : Log) : Nat ×ₗ Nat :=
  toLex (l.blockNumber.toNat, l.index.toNat)

theorem le_iff {a b : Log} : Log.le a b = true ↔ a.place ≤ b.place := by
  simp [Log.le, place, Prod.Lex.toLex_le_toLex, BitVec.toNat_inj]

theorem le_transitive (a b c : Log) (hab : Log.le a b = true) (hbc : Log.le b c = true) :
    Log.le a c = true :=
  le_iff.mpr ((le_iff.mp hab).trans (le_iff.mp hbc))

theorem le_either (a b : Log) : (Log.le a b || Log.le b a) = true := by
  simpa [le_iff] using le_total a.place b.place

theorem pairwise_mergeSort (logs : List Log) :
    (logs.mergeSort Log.le).Pairwise (·.place ≤ ·.place) :=
  (List.pairwise_mergeSort le_transitive le_either logs).imp le_iff.mp

end Log

/-- Two lists of logs have the same logs, and at each position logs of the same place. So they
differ at most in the order of logs of one place. -/
structure SameButTies (logs logs' : List Log) : Prop where
  perm : logs.Perm logs'
  places : logs.map Log.place = logs'.map Log.place

section Sorted

variable {logs logs' : List Log} (hperm : logs.Perm logs')
  (hsorted : logs.Pairwise (·.place ≤ ·.place)) (hsorted' : logs'.Pairwise (·.place ≤ ·.place))

include hperm hsorted hsorted'

theorem sameButTies_of_sorted : SameButTies logs logs' where
  perm := hperm
  places := by
    refine (hperm.map Log.place).eq_of_pairwise' (r := (· ≤ ·)) ?_ ?_
    · exact List.pairwise_map.mpr hsorted
    · exact List.pairwise_map.mpr hsorted'

theorem eq_of_sorted
    (hdiffer : ∀ l ∈ logs, ∀ l' ∈ logs, l.place = l'.place → l = l') : logs = logs' := by
  refine hperm.eq_of_pairwise ?_ hsorted hsorted'
  intro l l' hl hl' hle hge
  exact hdiffer l hl l' (hperm.mem_iff.mpr hl') (le_antisymm hle hge)

end Sorted

namespace Chain

open Rpc (ChainError)

variable {c : Chain}

/-! ### The receipts of a chain -/

/-- A chain that keeps its receipts in the given order. -/
def inOrder (c : Chain) (order : List (Hash × Receipt)) : Chain :=
  { c with receipts := ⟨order⟩ }

theorem inOrder_entries (c : Chain) : c.inOrder c.receipts.entries = c :=
  rfl

/-- How often a log stands in the receipts. -/
def held (c : Chain) (l : Log) : Nat :=
  (c.receipts.values.flatMap (·.logs)).count l

theorem nodup_effect [HashFunction] {op : Operation} {c' : Chain} (he : Effect op c c')
    (h : (c.receipts.entries.map (·.1)).Nodup) : (c'.receipts.entries.map (·.1)).Nodup := by
  cases he with
  | elsewhere _ _ receipts => rwa [receipts]
  | mined => exact h
  | accepted | logged => exact Table.nodup_insertEntry h

theorem nodup_after [HashFunction] (ops : List Operation)
    (h : (c.receipts.entries.map (·.1)).Nodup) :
    ((c.after ops).receipts.entries.map (·.1)).Nodup := by
  induction ops generalizing c with
  | nil => exact h
  | cons op ops ih => exact ih (nodup_effect (perform_effect op c) h)

/-- A chain that can be reached keeps every receipt once. -/
theorem Reachable.listedBy_entries [HashFunction] (h : Reachable c) :
    c.receipts.ListedBy c.receipts.entries := by
  obtain ⟨chainId, ops, rfl⟩ := h
  exact Table.listedBy_entries (nodup_after ops List.nodup_nil)

theorem held_inOrder {order : List (Hash × Receipt)} (h : c.receipts.ListedBy c.receipts.entries)
    (horder : c.receipts.ListedBy order) (l : Log) : (c.inOrder order).held l = c.held l := by
  have hperm := ((horder.perm h).map (·.2)).flatMap_right (·.logs)
  exact hperm.count_eq l

/-! ### Answers -/

/-- Where a range of heights begins or ends if it is asked for in this way. -/
inductive EndsAt (c : Chain) : Option BlockSelector → Nat → Prop
  | notGiven : EndsAt c none c.head
  | given {block : BlockSelector} {height : Nat} (found : c.resolve block = .ok height) :
      EndsAt c (some block) height

/-- The order of the receipts has no influence on heights. -/
theorem EndsAt.inOrder {block : Option BlockSelector} {height : Nat} (h : c.EndsAt block height)
    (order : List (Hash × Receipt)) : (c.inOrder order).EndsAt block height := by
  cases h with
  | notGiven => exact .notGiven
  | given found => exact .given found

theorem EndsAt.resolveOrHead {block : Option BlockSelector} {height : Nat}
    (h : c.EndsAt block height) : c.resolveOrHead block = .ok height := by
  cases h with
  | notGiven => rfl
  | given found => exact found

theorem count_selectLogs (f : LogFilter) (first last : Nat) (l : Log) :
    (selectLogs f first last c.receipts.values).count l =
      if f.Asks first last l then c.held l else 0 := by
  rw [selectLogs, (List.mergeSort_perm _ _).count_eq]
  by_cases hasks : f.Asks first last l
  · rw [if_pos hasks, List.count_filter (LogFilter.passes_iff.mpr hasks), held]
  · rw [if_neg hasks, List.count_eq_zero]
    intro hmem
    exact hasks (LogFilter.passes_iff.mp (List.mem_filter.mp hmem).2)

/-- A list answers a query: it has the logs in the receipts for which the filter asks, each as often
as it stands there, and it is sorted. -/
structure Answers (c : Chain) (f : LogFilter) (first last : Nat) (answer : List Log) : Prop where
  count : ∀ l, answer.count l = if f.Asks first last l then c.held l else 0
  sorted : answer.Pairwise (·.place ≤ ·.place)

/-- Logs in the receipts for which the filter asks have different places, unless they are the same
log. -/
def PlacesDiffer (c : Chain) (f : LogFilter) (first last : Nat) : Prop :=
  ∀ l l', f.Asks first last l → f.Asks first last l' → 0 < c.held l → 0 < c.held l' →
    l.place = l'.place → l = l'

namespace Answers

variable {f : LogFilter} {first last : Nat} {answer answer' : List Log}

theorem perm (h : c.Answers f first last answer) (h' : c.Answers f first last answer') :
    answer.Perm answer' := by
  rw [List.perm_iff_count]
  intro l
  rw [h.count, h'.count]

theorem sameButTies (h : c.Answers f first last answer) (h' : c.Answers f first last answer') :
    SameButTies answer answer' :=
  sameButTies_of_sorted (h.perm h') h.sorted h'.sorted

theorem asked_of_mem (h : c.Answers f first last answer) {l : Log} (hl : l ∈ answer) :
    f.Asks first last l ∧ 0 < c.held l := by
  have hcount := List.count_pos_iff.mpr hl
  rw [h.count] at hcount
  by_cases hasks : f.Asks first last l
  · rw [if_pos hasks] at hcount
    exact ⟨hasks, hcount⟩
  · rw [if_neg hasks] at hcount
    exact absurd hcount (lt_irrefl 0)

theorem unique (hdiffer : c.PlacesDiffer f first last) (h : c.Answers f first last answer)
    (h' : c.Answers f first last answer') : answer = answer' := by
  apply eq_of_sorted (h.perm h') h.sorted h'.sorted
  intro l hl l' hl' hplace
  obtain ⟨hasks, hheld⟩ := h.asked_of_mem hl
  obtain ⟨hasks', hheld'⟩ := h.asked_of_mem hl'
  exact hdiffer l l' hasks hasks' hheld hheld' hplace

end Answers

theorem answers_selectLogs (c : Chain) (f : LogFilter) (first last : Nat) :
    c.Answers f first last (selectLogs f first last c.receipts.values) where
  count := count_selectLogs f first last
  sorted := Log.pairwise_mergeSort _

theorem logs_eq_ok {f : LogFilter} {first last : Nat} (hfirst : c.EndsAt f.fromBlock first)
    (hlast : c.EndsAt f.toBlock last) :
    c.logs f = .ok (selectLogs f first last c.receipts.values) := by
  rw [logs, hfirst.resolveOrHead, hlast.resolveOrHead]
  rfl

theorem Answers.of_inOrder (hc : c.receipts.ListedBy c.receipts.entries)
    {order : List (Hash × Receipt)} (horder : c.receipts.ListedBy order) {f : LogFilter}
    {first last : Nat} {answer : List Log} (h : (c.inOrder order).Answers f first last answer) :
    c.Answers f first last answer where
  count := by
    intro l
    rw [h.count, held_inOrder hc horder]
  sorted := h.sorted

/-- What queries with a filter find, where its range goes from `first` to `last`. -/
structure FindsLogs (c : Chain) (f : LogFilter) (first last : Nat) : Prop where
  answered : ∀ order, c.receipts.ListedBy order →
    ∃ answer, (c.inOrder order).logs f = .ok answer ∧ c.Answers f first last answer
  reordered : ∀ order order' answer answer', c.receipts.ListedBy order →
    c.receipts.ListedBy order' → (c.inOrder order).logs f = .ok answer →
      (c.inOrder order').logs f = .ok answer' → SameButTies answer answer'
  settled : c.PlacesDiffer f first last → ∀ order order', c.receipts.ListedBy order →
    c.receipts.ListedBy order' → (c.inOrder order).logs f = (c.inOrder order').logs f

theorem findsLogs (hc : c.receipts.ListedBy c.receipts.entries) {f : LogFilter} {first last : Nat}
    (hfirst : c.EndsAt f.fromBlock first) (hlast : c.EndsAt f.toBlock last) :
    c.FindsLogs f first last := by
  have hlogs : ∀ order, c.receipts.ListedBy order →
      ∃ answer, (c.inOrder order).logs f = .ok answer ∧ c.Answers f first last answer := by
    intro order horder
    have hanswers := (c.inOrder order).answers_selectLogs f first last
    exact ⟨_, logs_eq_ok (hfirst.inOrder order) (hlast.inOrder order),
      hanswers.of_inOrder hc horder⟩
  refine ⟨hlogs, ?_, ?_⟩
  · intro order order' answer answer' horder horder' hok hok'
    obtain ⟨found, hfound, hanswers⟩ := hlogs order horder
    obtain ⟨found', hfound', hanswers'⟩ := hlogs order' horder'
    rw [hfound, Except.ok.injEq] at hok
    rw [hfound', Except.ok.injEq] at hok'
    rw [← hok, ← hok']
    exact hanswers.sameButTies hanswers'
  · intro hdiffer order order' horder horder'
    obtain ⟨found, hfound, hanswers⟩ := hlogs order horder
    obtain ⟨found', hfound', hanswers'⟩ := hlogs order' horder'
    rw [hfound, hfound', hanswers.unique hdiffer hanswers']

/-! ### Ranges that are not there

The lower end is looked up first. If neither end is there, the error is about the lower one.
-/

/-- A selector that stands for no height is a number, and the failure names it. -/
theorem resolve_eq_error {block : BlockSelector} {e : ChainError} (h : c.resolve block = .error e) :
    ∃ height, block = .number height ∧ e = .notFound ("block " ++ Quantity.encode height) := by
  cases block with
  | tag tag => cases tag <;> cases h
  | number height =>
      rw [resolve] at h
      split at h
      · cases h
      · cases h
        exact ⟨height, rfl, rfl⟩

theorem resolveOrHead_eq_error {block : Option BlockSelector} {e : ChainError}
    (h : c.resolveOrHead block = .error e) :
    ∃ height, block = some (.number height) ∧
      e = .notFound ("block " ++ Quantity.encode height) := by
  cases block with
  | none => cases h
  | some block =>
      obtain ⟨height, hblock, he⟩ := resolve_eq_error h
      exact ⟨height, by rw [hblock], he⟩

/-- A query fails with the end of its range that is not there, the first one if both are not. -/
theorem logs_eq_error {f : LogFilter} {block : BlockSelector}
    (hgiven : f.fromBlock = some block ∨ f.toBlock = some block)
    (hblock : ∀ height, c.resolve block ≠ .ok height) :
    ∃ height, (f.fromBlock = some (.number height) ∨ f.toBlock = some (.number height)) ∧
      c.logs f = .error (.notFound ("block " ++ Quantity.encode height)) := by
  rw [logs]
  cases hfirst : c.resolveOrHead f.fromBlock with
  | error e =>
      obtain ⟨height, hheight, rfl⟩ := resolveOrHead_eq_error hfirst
      exact ⟨height, .inl hheight, rfl⟩
  | ok first =>
      cases hlast : c.resolveOrHead f.toBlock with
      | error e =>
          obtain ⟨height, hheight, rfl⟩ := resolveOrHead_eq_error hlast
          exact ⟨height, .inr hheight, rfl⟩
      | ok last =>
          exfalso
          rcases hgiven with h | h
          · rw [h] at hfirst
            exact hblock first hfirst
          · rw [h] at hlast
            exact hblock last hlast

/-! ### Queries -/

/-- **A query finds the logs for which it asks, all of them and sorted.** If both ends of the range
are there, the answer has every log of the receipts that passes the filter as often as it stands
there, by height and place. In whatever order the receipts are gone through, answers differ at most
in the order of logs of one place, and they are the same if no two logs share their place. If an end
of the range is not there, the query fails, also if it names a block by its hash. -/
theorem logs_found [HashFunction] (hc : Reachable c) (f : LogFilter) :
    (∃ order, c.receipts.ListedBy order ∧ c.inOrder order = c) ∧
    (∀ first last, c.EndsAt f.fromBlock first → c.EndsAt f.toBlock last →
      c.FindsLogs f first last) ∧
    ∀ block, (f.fromBlock = some block ∨ f.toBlock = some block) →
      (∀ height, c.resolve block ≠ .ok height) →
        ∃ height, (f.fromBlock = some (.number height) ∨ f.toBlock = some (.number height)) ∧
          c.logs f = .error (.notFound ("block " ++ Quantity.encode height)) := by
  have hentries := hc.listedBy_entries
  refine ⟨⟨_, hentries, c.inOrder_entries⟩, ?_, ?_⟩
  · intro first last hfirst hlast
    exact findsLogs hentries hfirst hlast
  · intro block hgiven hblock
    exact logs_eq_error hgiven hblock

/-- Of two logs that were appended to a receipt, the second one is found once from the first block
on. A height that is not there is an error, although the block is named by its hash. -/
theorem logs_found_appended :
    let data : Data := ⟨[0xf8, 0x6b]⟩
    let logs : List Log := [{ blockNumber := 1 }, { index := 3 }]
    let c := (new 1337).after [.command (.sendRawTransaction data), .addLogs (hashOf data) logs]
    let f : LogFilter := { fromBlock := some (.tag .earliest) }
    let far : LogFilter := { toBlock := some (.number 7), blockHash := some .zero }
    Reachable c ∧ Reachable (new 1337) ∧
    (∃ answer, c.logs f = .ok answer ∧ c.Answers f 0 c.head answer ∧
      answer.count { index := 3 } = 1) ∧
    ∃ what, (new 1337).logs far = .error (.notFound what) := by
  intro data logs c f far
  have hc : Reachable c := ⟨1337, _, rfl⟩
  have hnew : Reachable (new 1337) := ⟨1337, [], rfl⟩
  -- The hash is the same wherever it stands, so it is not worked out.
  have hfound : ((new 1337).accept data).receipts.get? (hashOf data) =
      some ((new 1337).sentReceipt data) := Table.get?_insert_self _ _ _
  have hreceipts : c.receipts.values = [{ (new 1337).sentReceipt data with logs := logs }] := by
    show (((new 1337).accept data).addLogs (hashOf data) logs).2.receipts.values = _
    rw [addLogs, hfound]
    show (Table.insertEntry (hashOf data) _ [(hashOf data, _)]).map (·.2) = _
    rw [Table.insertEntry, if_pos rfl]
    rfl
  have hheld : c.held { index := 3 } = 1 := by
    rw [held, hreceipts]
    rfl
  have hasks : f.Asks 0 c.head { index := 3 } := by
    refine ⟨?_, fun _ => ⟨by decide, Nat.zero_le _, Nat.zero_le _⟩, ?_, ?_⟩ <;>
      · intro _ h
        cases h
  obtain ⟨⟨order, horder, hsame⟩, hfinds, -⟩ := logs_found hc f
  obtain ⟨answer, hlogs, hanswers⟩ :=
    (hfinds 0 c.head (.given rfl) .notGiven).answered order horder
  rw [hsame] at hlogs
  obtain ⟨height, -, hfar⟩ := (logs_found hnew far).2.2 (.number 7) (.inr rfl) (by
    intro height h
    cases h)
  refine ⟨hc, hnew, ⟨answer, hlogs, hanswers, ?_⟩, _, hfar⟩
  rw [hanswers.count, if_pos hasks, hheld]

end Chain

end LocalNode
