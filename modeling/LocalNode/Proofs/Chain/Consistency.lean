import Mathlib.Data.List.Basic
import LocalNode.Proofs.Chain.Operations

/-!
How blocks, transactions and receipts fit together.

The chain keeps them apart: a list of blocks and two tables. `Consistent` says what ties them
together in every chain that can be reached. Blocks are numbered and linked, both tables have the
same hashes, and every hash in them stands in exactly one block, which its transaction and its
receipt name. `GasAgrees` adds that all of them state the same gas, as long as no transaction is so
long that its gas does not fit 64 bits.

Both are kept by every effect of an operation. The block that an accepted transaction gets is named
before it is there, by the height of the last block. That this is the height of the new block needs
that there is a first one. The new block is the only one with the new hash because every hash that
stands in a block is known, and a known hash is not accepted again.
-/

namespace LocalNode

/-- The hashes of the transactions of a block, in order. -/
def BlockTransactions.listed : BlockTransactions → List Hash
  | .hashes list => list
  | .full list => list.map (·.hash)

namespace Chain

open Rpc (ChainError Command)

variable {c : Chain}

/-! ### Blocks and receipts -/

theorem head_succ (h : c.blocks ≠ []) : c.head + 1 = c.blocks.length :=
  Nat.succ_pred_eq_of_pos (List.length_pos_iff.mpr h)

theorem block_of_getElem? {height : Nat} {b : Block} (h : c.blocks[height]? = some b)
    (full : Bool) : c.block height full = .ok (if full then c.expandBlock b else b) := by
  rw [block, h]

/-- After logs were appended to a receipt, each receipt is one from before, with more logs at
most. -/
theorem receipt_of_logged {hash hash' : Hash} {receipt r : Receipt} {logs : List Log}
    (hfound : c.receipts.get? hash = some receipt)
    (hr : (c.receipts.insert hash { receipt with logs := receipt.logs ++ logs }).get? hash' =
      some r) :
    ∃ r', c.receipts.get? hash' = some r' ∧ ∃ more, r = { r' with logs := r'.logs ++ more } := by
  by_cases heq : hash' = hash
  · rw [heq, Table.get?_insert_self] at hr
    cases hr
    rw [heq]
    exact ⟨receipt, hfound, logs, rfl⟩
  · rw [Table.get?_insert_of_ne _ heq] at hr
    refine ⟨r, hr, [], ?_⟩
    rw [List.append_nil]

section AnyHash

variable [HashFunction]

/-! ### The invariant

What is said of gas is kept apart, since it needs that data are short enough for their gas to fit 64
bits. All else holds whatever was sent.
-/

/-- Blocks are numbered from zero, and each names the one before it. -/
structure Linked (blocks : List Block) : Prop where
  header : ∀ i b, blocks[i]? = some b →
    b.number = Word.ofNat i ∧ b.timestamp = Word.ofNat i ∧
      b.hash = HashFunction.hash (Bytes.ofNat 8 i)
  /-- Nothing is before the first block. -/
  first : ∀ b, blocks[0]? = some b → b.parentHash = .zero
  parent : ∀ i p b, blocks[i]? = some p → blocks[i + 1]? = some b → b.parentHash = p.hash

/-- The block at a height lists a transaction, and no other block does. -/
structure OnlyAt (blocks : List Block) (h : Hash) (i : Nat) (b : Block) : Prop where
  notFirst : i ≠ 0
  found : blocks[i]? = some b
  listed : h ∈ b.transactions.listed
  unique : ∀ j b', blocks[j]? = some b' → h ∈ b'.transactions.listed → j = i

/-- A transaction and its receipt name their hash and their block. -/
structure Names (t : Transaction) (r : Receipt) (h : Hash) (b : Block) : Prop where
  transactionHash : t.hash = h ∧ r.transactionHash = h
  blockNumber : t.blockNumber = some b.number ∧ r.blockNumber = b.number
  blockHash : t.blockHash = some b.hash ∧ r.blockHash = b.hash
  index : t.index = some 0 ∧ r.transactionIndex = 0

/-- What holds of every chain that can be reached. -/
structure Consistent (c : Chain) : Prop where
  nonempty : c.blocks ≠ []
  linked : Linked c.blocks
  /-- A block lists hashes, and at most one. -/
  atMostOne : ∀ b ∈ c.blocks, ∃ list, b.transactions = .hashes list ∧ list.length ≤ 1
  /-- Transactions and receipts are there for the same hashes. -/
  sameKeys : ∀ h, (c.transactions.get? h).isSome = (c.receipts.get? h).isSome
  /-- Whatever a block lists is there. -/
  listed : ∀ b ∈ c.blocks, ∀ h ∈ b.transactions.listed, (c.transactions.get? h).isSome = true
  /-- Whatever is there stands in one block. -/
  stored : ∀ h t r, c.transactions.get? h = some t → c.receipts.get? h = some r →
    ∃ i b, OnlyAt c.blocks h i b ∧ Names t r h b

/-- The number of bytes, 2⁵⁹, from which on the gas of a transaction is not sure to fit 64 bits. -/
def lengthBound : Nat :=
  576460752303423488

/-- A block states the gas that its transaction and the receipt of it state, and none if it has no
transaction. -/
structure GasAgrees (c : Chain) : Prop where
  idle : ∀ b ∈ c.blocks, b.transactions.listed = [] → b.gasUsed = 0
  used : ∀ b ∈ c.blocks, ∀ h ∈ b.transactions.listed, ∀ t r, c.transactions.get? h = some t →
    c.receipts.get? h = some r →
      t.gas = b.gasUsed ∧ r.gasUsed = b.gasUsed ∧ r.cumulativeGasUsed = b.gasUsed

/-! ### A block more -/

theorem getElem?_pushBlock {transactions : List Hash} {i : Nat} {b : Block} :
    (c.pushBlock transactions).blocks[i]? = some b ↔
      c.blocks[i]? = some b ∨ i = c.blocks.length ∧ c.nextBlock transactions = b := by
  show (c.blocks ++ [c.nextBlock transactions])[i]? = some b ↔ _
  rcases Nat.lt_trichotomy i c.blocks.length with hlt | heq | hgt
  · rw [List.getElem?_append_left hlt]
    exact ⟨.inl, fun h => h.elim id fun hnew => absurd hnew.1 (Nat.ne_of_lt hlt)⟩
  · subst heq
    simp
  · have hnone : (c.blocks ++ [c.nextBlock transactions])[i]? = none := by
      rw [List.getElem?_eq_none_iff, List.length_append, List.length_singleton]
      omega
    rw [hnone, List.getElem?_eq_none (Nat.le_of_lt hgt)]
    simp [Nat.ne_of_gt hgt]

theorem mem_pushBlock {transactions : List Hash} {b : Block} :
    b ∈ (c.pushBlock transactions).blocks ↔ b ∈ c.blocks ∨ b = c.nextBlock transactions := by
  show b ∈ c.blocks ++ [c.nextBlock transactions] ↔ _
  rw [List.mem_append, List.mem_singleton]

theorem Linked.nil : Linked [] where
  header _ _ h := by cases h
  first _ h := by cases h
  parent _ _ _ h := by cases h

theorem parentHash_nextBlock (c : Chain) (transactions : List Hash) :
    (c.nextBlock transactions).parentHash = (c.blocks.getLast?.map (·.hash)).getD .zero :=
  rfl

theorem Linked.pushBlock (h : Linked c.blocks) (transactions : List Hash) :
    Linked (c.pushBlock transactions).blocks where
  header i b hb := by
    rcases getElem?_pushBlock.mp hb with hold | ⟨rfl, rfl⟩
    · exact h.header i b hold
    · exact ⟨rfl, rfl, rfl⟩
  first b hb := by
    rcases getElem?_pushBlock.mp hb with hold | ⟨hzero, rfl⟩
    · exact h.first b hold
    · have hnil : c.blocks = [] := List.eq_nil_of_length_eq_zero hzero.symm
      rw [parentHash_nextBlock, hnil]
      rfl
  parent i p b hp hb := by
    rcases getElem?_pushBlock.mp hp with hpold | ⟨hlast, -⟩
    · rcases getElem?_pushBlock.mp hb with hold | ⟨hnext, rfl⟩
      · exact h.parent i p b hpold hold
      · have hlast : c.blocks.getLast? = some p := by
          rw [List.getLast?_eq_getElem?, ← hnext, Nat.add_sub_cancel]
          exact hpold
        rw [parentHash_nextBlock, hlast]
        rfl
    · have hbound := (List.getElem?_eq_some_iff.mp hb).1
      have hsize : (c.pushBlock transactions).blocks.length = c.blocks.length + 1 :=
        List.length_append
      omega

/-- A hash that the new block does not list stands in the same block as before. -/
theorem OnlyAt.pushBlock {h : Hash} {i : Nat} {b : Block} (hat : OnlyAt c.blocks h i b)
    {transactions : List Hash} (hnot : h ∉ transactions) :
    OnlyAt (c.pushBlock transactions).blocks h i b where
  notFirst := hat.notFirst
  found := getElem?_pushBlock.mpr (.inl hat.found)
  listed := hat.listed
  unique j b' hb' hlisted := by
    rcases getElem?_pushBlock.mp hb' with hold | ⟨-, rfl⟩
    · exact hat.unique j b' hold hlisted
    · exact absurd hlisted hnot

/-! ### Each effect keeps the invariant

Whatever a block lists is known, and an accepted transaction was not known before. So the new block
lists it and no other block does.
-/

namespace Consistent

theorem new (chainId : UInt64) : Consistent (new chainId) where
  nonempty := List.cons_ne_nil _ _
  linked := Linked.pushBlock (c := { chainId, gasPrice := defaultGasPrice }) Linked.nil []
  atMostOne b hb := by
    rw [List.mem_singleton.mp hb]
    exact ⟨[], rfl, Nat.zero_le 1⟩
  sameKeys _ := rfl
  listed b hb h hlisted := by
    rw [List.mem_singleton.mp hb] at hlisted
    cases hlisted
  stored h t r ht := by
    have hnone : (Chain.new chainId).transactions.get? h = none := Table.get?_empty h
    rw [hnone] at ht
    cases ht

/-- Only blocks, transactions and receipts matter. -/
theorem elsewhere (h : Consistent c) {c' : Chain} (hblocks : c'.blocks = c.blocks)
    (htransactions : c'.transactions = c.transactions) (hreceipts : c'.receipts = c.receipts) :
    Consistent c' := by
  obtain ⟨chainId, gasPrice, balances, nonces, code, storage, blocks, transactions, receipts,
    callResult, requests⟩ := c'
  cases hblocks
  cases htransactions
  cases hreceipts
  exact ⟨h.nonempty, h.linked, h.atMostOne, h.sameKeys, h.listed, h.stored⟩

/-- A block without transactions changes nothing for the others. -/
theorem mined (h : Consistent c) : Consistent (c.pushBlock []) where
  nonempty := List.concat_ne_nil _ _
  linked := h.linked.pushBlock []
  atMostOne b hb := by
    rcases mem_pushBlock.mp hb with hold | rfl
    · exact h.atMostOne b hold
    · exact ⟨[], rfl, Nat.zero_le 1⟩
  sameKeys := h.sameKeys
  listed b hb hash hlisted := by
    rcases mem_pushBlock.mp hb with hold | rfl
    · exact h.listed b hold hash hlisted
    · cases hlisted
  stored hash t r ht hr := by
    obtain ⟨i, b, hat, hnames⟩ := h.stored hash t r ht hr
    exact ⟨i, b, hat.pushBlock List.not_mem_nil, hnames⟩

/-- A hash that is not known stands in no block. -/
theorem not_listed (h : Consistent c) {hash : Hash} (hunknown : c.transactions.get? hash = none)
    {b : Block} (hb : b ∈ c.blocks) : hash ∉ b.transactions.listed := by
  intro hlisted
  have hknown := h.listed b hb hash hlisted
  rw [hunknown] at hknown
  cases hknown

theorem receipts_get?_eq_none (h : Consistent c) {hash : Hash}
    (hunknown : c.transactions.get? hash = none) : c.receipts.get? hash = none := by
  have hkeys := h.sameKeys hash
  rw [hunknown] at hkeys
  exact Option.isNone_iff_eq_none.mp (Option.isSome_eq_false_iff.mp hkeys.symm)

/-- The block of an accepted transaction is the one that its transaction and its receipt name, and
the only one that lists it. -/
theorem accepted (h : Consistent c) {data : Data}
    (hunknown : c.transactions.get? (hashOf data) = none) : Consistent (c.accept data) where
  nonempty := List.concat_ne_nil _ _
  linked := Linked.pushBlock (c := c.enter data) h.linked [hashOf data]
  atMostOne b hb := by
    rcases mem_pushBlock.mp hb with hold | rfl
    · exact h.atMostOne b hold
    · exact ⟨[hashOf data], rfl, Nat.le_refl 1⟩
  sameKeys hash := by
    show ((c.transactions.insert _ _).get? hash).isSome = ((c.receipts.insert _ _).get? hash).isSome
    by_cases heq : hash = hashOf data
    · rw [heq, Table.get?_insert_self, Table.get?_insert_self]
      rfl
    · rw [Table.get?_insert_of_ne _ heq, Table.get?_insert_of_ne _ heq]
      exact h.sameKeys hash
  listed b hb hash hlisted := by
    show ((c.transactions.insert _ _).get? hash).isSome = true
    by_cases heq : hash = hashOf data
    · rw [heq, Table.get?_insert_self]
      rfl
    · rw [Table.get?_insert_of_ne _ heq]
      rcases mem_pushBlock.mp hb with hold | rfl
      · exact h.listed b hold hash hlisted
      · exact absurd (List.mem_singleton.mp hlisted) heq
  stored hash t r ht hr := by
    change (c.transactions.insert _ _).get? hash = some t at ht
    change (c.receipts.insert _ _).get? hash = some r at hr
    by_cases heq : hash = hashOf data
    · rw [heq, Table.get?_insert_self] at ht hr
      cases ht
      cases hr
      have hheight := head_succ h.nonempty
      refine ⟨c.blocks.length, (c.enter data).nextBlock [hashOf data], ?_, ?_⟩
      · exact
          { notFirst := fun hzero => h.nonempty (List.eq_nil_of_length_eq_zero hzero)
            found := getElem?_pushBlock.mpr (.inr ⟨rfl, rfl⟩)
            listed := by
              rw [heq]
              exact List.mem_singleton.mpr rfl
            unique := by
              intro j b' hb' hlisted
              rcases getElem?_pushBlock.mp hb' with hold | ⟨hnew, -⟩
              · rw [heq] at hlisted
                exact absurd hlisted (h.not_listed hunknown (List.mem_of_getElem? hold))
              · exact hnew }
      · exact
          { transactionHash := ⟨heq.symm, heq.symm⟩
            blockNumber := by simp only [sentTransaction, sentReceipt, hheight]; exact ⟨rfl, rfl⟩
            blockHash := by simp only [sentTransaction, sentReceipt, hheight]; exact ⟨rfl, rfl⟩
            index := ⟨rfl, rfl⟩ }
    · rw [Table.get?_insert_of_ne _ heq] at ht hr
      obtain ⟨i, b, hat, hnames⟩ := h.stored hash t r ht hr
      have hother : hash ∉ [hashOf data] := fun hmem => heq (List.mem_singleton.mp hmem)
      exact ⟨i, b, OnlyAt.pushBlock (c := c.enter data) hat hother, hnames⟩

/-- Logs are no part of what a receipt names. -/
theorem logged (h : Consistent c) {hash : Hash} {receipt : Receipt}
    (hfound : c.receipts.get? hash = some receipt) (logs : List Log) :
    Consistent { c with
      receipts := c.receipts.insert hash { receipt with logs := receipt.logs ++ logs } } where
  nonempty := h.nonempty
  linked := h.linked
  atMostOne := h.atMostOne
  sameKeys hash' := by
    show (c.transactions.get? hash').isSome = ((c.receipts.insert _ _).get? hash').isSome
    rw [h.sameKeys hash']
    by_cases heq : hash' = hash
    · rw [heq, Table.get?_insert_self, hfound]
      rfl
    · rw [Table.get?_insert_of_ne _ heq]
  listed := h.listed
  stored hash' t r ht hr := by
    obtain ⟨r', hr', more, rfl⟩ := receipt_of_logged hfound hr
    obtain ⟨i, b, hat, hnames⟩ := h.stored hash' t r' ht hr'
    exact ⟨i, b, hat,
      ⟨hnames.transactionHash, hnames.blockNumber, hnames.blockHash, hnames.index⟩⟩

theorem effect (h : Consistent c) {op : Operation} {c' : Chain} (he : Effect op c c') :
    Consistent c' := by
  cases he with
  | elsewhere blocks transactions receipts => exact h.elsewhere blocks transactions receipts
  | mined => exact h.mined
  | accepted isSend unknown => exact h.accepted unknown
  | logged found logs => exact h.logged found logs

theorem after (ops : List Operation) : ∀ {c : Chain}, Consistent c → Consistent (c.after ops) := by
  induction ops with
  | nil => intro c h; exact h
  | cons op ops ih => intro c h; exact ih (h.effect (perform_effect op c))

end Consistent

theorem Reachable.consistent (h : Reachable c) : Consistent c := by
  obtain ⟨chainId, ops, rfl⟩ := h
  exact (Consistent.new chainId).after ops

/-! ### Gas

A block takes over the gas of its receipts when it is made and is not changed any more. Logs that
are added to a receipt later leave its gas as it is.
-/

/-- The gas of a transaction that is short enough, read back from its receipt, is its gas. -/
theorem gasUsed_enter (c : Chain) {data : Data} (hshort : data.bytes.length < lengthBound) :
    (c.enter data).gasUsed [hashOf data] = transactionGas data.bytes.length := by
  have hfits : transactionGas data.bytes.length < UInt64.size := by
    unfold lengthBound at hshort
    unfold transactionGas UInt64.size
    omega
  have hread : Word.toUInt64? (c.sentReceipt data).gasUsed =
      some (UInt64.ofNat (transactionGas data.bytes.length)) :=
    Word.toUInt64?_ofNat hfits
  have hfound : (c.enter data).receipts.get? (hashOf data) = some (c.sentReceipt data) :=
    Table.get?_insert_self _ _ _
  simp only [gasUsed, List.filterMap_cons, List.filterMap_nil, hfound, Option.bind_some, hread,
    Option.map_some, List.foldl_cons, List.foldl_nil, Nat.zero_add]
  exact UInt64.toNat_ofNat_of_lt' hfits

namespace GasAgrees

theorem new (chainId : UInt64) : GasAgrees (new chainId) where
  idle b hb _ := by
    rw [List.mem_singleton.mp hb]
    rfl
  used b hb h hlisted := by
    rw [List.mem_singleton.mp hb] at hlisted
    cases hlisted

omit [HashFunction] in
theorem elsewhere (h : GasAgrees c) {c' : Chain} (hblocks : c'.blocks = c.blocks)
    (htransactions : c'.transactions = c.transactions) (hreceipts : c'.receipts = c.receipts) :
    GasAgrees c' := by
  obtain ⟨chainId, gasPrice, balances, nonces, code, storage, blocks, transactions, receipts,
    callResult, requests⟩ := c'
  cases hblocks
  cases htransactions
  cases hreceipts
  exact ⟨h.idle, h.used⟩

theorem mined (h : GasAgrees c) : GasAgrees (c.pushBlock []) where
  idle b hb hnone := by
    rcases mem_pushBlock.mp hb with hold | rfl
    · exact h.idle b hold hnone
    · rfl
  used b hb hash hlisted := by
    rcases mem_pushBlock.mp hb with hold | rfl
    · exact h.used b hold hash hlisted
    · cases hlisted

/-- The new block reads its gas from the new receipt. The blocks before it do not list the new hash,
so for them the tables are as before. -/
theorem accepted (h : GasAgrees c) (hc : Consistent c) {data : Data}
    (hunknown : c.transactions.get? (hashOf data) = none)
    (hshort : data.bytes.length < lengthBound) : GasAgrees (c.accept data) where
  idle b hb hnone := by
    rcases mem_pushBlock.mp hb with hold | rfl
    · exact h.idle b hold hnone
    · cases hnone
  used b hb hash hlisted t r ht hr := by
    change (c.transactions.insert _ _).get? hash = some t at ht
    change (c.receipts.insert _ _).get? hash = some r at hr
    rcases mem_pushBlock.mp hb with hold | rfl
    · have hne : hash ≠ hashOf data := by
        rintro rfl
        exact hc.not_listed hunknown hold hlisted
      rw [Table.get?_insert_of_ne _ hne] at ht hr
      exact h.used b hold hash hlisted t r ht hr
    · rw [List.mem_singleton.mp hlisted, Table.get?_insert_self] at ht hr
      cases ht
      cases hr
      have hgas : ((c.enter data).nextBlock [hashOf data]).gasUsed =
          Word.ofNat (transactionGas data.bytes.length) := by
        rw [← c.gasUsed_enter hshort]
        rfl
      rw [hgas]
      exact ⟨rfl, rfl, rfl⟩

omit [HashFunction] in
theorem logged (h : GasAgrees c) {hash : Hash} {receipt : Receipt}
    (hfound : c.receipts.get? hash = some receipt) (logs : List Log) :
    GasAgrees { c with
      receipts := c.receipts.insert hash { receipt with logs := receipt.logs ++ logs } } where
  idle := h.idle
  used b hb hash' hlisted t r ht hr := by
    obtain ⟨r', hr', more, rfl⟩ := receipt_of_logged hfound hr
    exact h.used b hb hash' hlisted t r' ht hr'

theorem effect (h : GasAgrees c) (hc : Consistent c) {op : Operation}
    (hshort : ∀ data, op = .command (.sendRawTransaction data) → data.bytes.length < lengthBound)
    {c' : Chain} (he : Effect op c c') : GasAgrees c' := by
  cases he with
  | elsewhere blocks transactions receipts => exact h.elsewhere blocks transactions receipts
  | mined => exact h.mined
  | accepted isSend unknown => exact h.accepted hc unknown (hshort _ isSend)
  | logged found logs => exact h.logged found logs

theorem after {ops : List Operation}
    (hshort : ∀ data, .command (.sendRawTransaction data) ∈ ops → data.bytes.length < lengthBound) :
    ∀ {c : Chain}, GasAgrees c → Consistent c → GasAgrees (c.after ops) := by
  induction ops with
  | nil => intro c h _; exact h
  | cons op ops ih =>
      intro c h hc
      have he := perform_effect op c
      have hop : GasAgrees (op.perform c) :=
        h.effect hc (fun data heq => hshort data (heq ▸ List.mem_cons_self)) he
      exact ih (fun data hmem => hshort data (List.mem_cons_of_mem op hmem)) hop (hc.effect he)

end GasAgrees

/-! ### Queries for blocks -/

theorem lt_of_resolve (hc : Consistent c) {selector : BlockSelector} {height : Nat}
    (h : c.resolve selector = .ok height) : height < c.blocks.length := by
  have hhead := head_succ hc.nonempty
  cases selector with
  | tag name =>
      cases name with
      | earliest =>
          cases h
          omega
      | latest | pending =>
          cases h
          omega
  | number n =>
      rw [resolve] at h
      split at h
      · cases h
        omega
      · cases h

/-- Two answers to a query for a block, one with hashes and one in full: both fail alike, or both
give the same block, the second with the transactions whose hashes the first has. -/
inductive SameListing : Except ChainError Block → Except ChainError Block → Prop
  | failed (e : ChainError) : SameListing (.error e) (.error e)
  | found {b : Block} {transactions : List Transaction}
      (hashes : b.transactions = .hashes (transactions.map (·.hash))) :
      SameListing (.ok b) (.ok { b with transactions := .full transactions })

/-- A transaction has the hash under which it is found. -/
theorem hash_of_get? (hc : Consistent c) {h : Hash} {t : Transaction}
    (ht : c.transactions.get? h = some t) : t.hash = h := by
  obtain ⟨r, hr⟩ : ∃ r, c.receipts.get? h = some r := by
    rw [← Option.isSome_iff_exists, ← hc.sameKeys h, ht]
    rfl
  obtain ⟨i, b, -, hnames⟩ := hc.stored h t r ht hr
  exact hnames.transactionHash.1

/-- The transactions that are looked up for some hashes have these hashes. -/
theorem map_hash_filterMap (hc : Consistent c) {list : List Hash}
    (hknown : ∀ h ∈ list, (c.transactions.get? h).isSome = true) :
    (list.filterMap c.transactions.get?).map (·.hash) = list := by
  have hfound : ∀ h ∈ list, (c.transactions.get? h).map (·.hash) = some h := by
    intro h hmem
    obtain ⟨t, ht⟩ := Option.isSome_iff_exists.mp (hknown h hmem)
    rw [ht, Option.map_some, hash_of_get? hc ht]
  calc (list.filterMap c.transactions.get?).map (·.hash)
    _ = list.filterMap fun h => (c.transactions.get? h).map (·.hash) := List.map_filterMap
    _ = list.filterMap some := List.filterMap_congr hfound
    _ = list := List.filterMap_some

theorem sameListing_block (hc : Consistent c) (height : Nat) :
    SameListing (c.block height false) (c.block height true) := by
  cases hb : c.blocks[height]? with
  | none =>
      rw [block, block, hb]
      exact .failed _
  | some b =>
      rw [block_of_getElem? hb, block_of_getElem? hb]
      have hmem : b ∈ c.blocks := List.mem_of_getElem? hb
      obtain ⟨list, hlist, -⟩ := hc.atMostOne b hmem
      have hmap : (list.filterMap c.transactions.get?).map (·.hash) = list := by
        refine map_hash_filterMap hc fun h hh => hc.listed b hmem h ?_
        rw [hlist]
        exact hh
      have hexpand : c.expandBlock b =
          { b with transactions := .full (list.filterMap c.transactions.get?) } := by
        simp only [expandBlock, hlist]
      simp only [if_true, Bool.false_eq_true, if_false, hexpand]
      refine .found ?_
      rw [hlist, hmap]

/-- **Blocks, transactions and receipts always fit together.** Whatever is done to a chain, blocks
are numbered and linked, transactions and receipts are there for the same hashes, each in one block,
and all state the same gas, if no raw transaction has 2⁵⁹ bytes or more. A selector that stands for
a height finds a block there, and a block in full has the transactions whose hashes it has
otherwise, in the same order. -/
theorem after_new_consistent (chainId : UInt64) (ops : List Operation)
    (hshort : ∀ data, .command (.sendRawTransaction data) ∈ ops → data.bytes.length < lengthBound) :
    let c := (new chainId).after ops
    Consistent c ∧ GasAgrees c ∧
    (∀ selector height, c.resolve selector = .ok height →
      ∀ full, ∃ b, c.block height full = .ok b) ∧
    (∀ selector, SameListing (answer (.getBlockByNumber selector false) c).1
      (answer (.getBlockByNumber selector true) c).1) ∧
    ∀ hash, SameListing (answer (.getBlockByHash hash false) c).1
      (answer (.getBlockByHash hash true) c).1 := by
  intro c
  have hc : Consistent c := (Consistent.new chainId).after ops
  refine ⟨hc, (GasAgrees.new chainId).after hshort (Consistent.new chainId), ?_, ?_, ?_⟩
  · intro selector height hresolve full
    have hlt := lt_of_resolve hc hresolve
    exact ⟨_, block_of_getElem? (List.getElem?_eq_getElem hlt) full⟩
  · intro selector
    show SameListing (c.resolve selector >>= (c.block · false))
      (c.resolve selector >>= (c.block · true))
    cases c.resolve selector with
    | error e => exact .failed e
    | ok height => exact sameListing_block hc height
  · intro hash
    show SameListing (c.heightOf hash >>= (c.block · false)) (c.heightOf hash >>= (c.block · true))
    cases c.heightOf hash with
    | error e => exact .failed e
    | ok height => exact sameListing_block hc height

end AnyHash

/-- Two transactions, one of them sent twice, a block without transactions between them, and logs
for a receipt. -/
theorem after_new_consistent_sent_twice :
    let ops : List Operation :=
      [.command (.sendRawTransaction ⟨[0xf8, 0x6b]⟩), .command .mine,
        .addLogs (hashOf ⟨[0xf8, 0x6b]⟩) [{}], .command (.sendRawTransaction ⟨[0xf8, 0x6b]⟩),
        .setGasPrice 7, .command (.sendRawTransaction ⟨[1]⟩)]
    (∀ data, .command (.sendRawTransaction data) ∈ ops → data.bytes.length < lengthBound) ∧
      Consistent ((new 1337).after ops) ∧ GasAgrees ((new 1337).after ops) := by
  intro ops
  have hshort : ∀ data, .command (.sendRawTransaction data) ∈ ops →
      data.bytes.length < lengthBound := by
    intro data hmem
    simp only [ops, List.mem_cons, Operation.command.injEq, Command.sendRawTransaction.injEq,
      reduceCtorEq, List.not_mem_nil, or_false, false_or] at hmem
    rcases hmem with rfl | rfl | rfl <;> decide
  have h := after_new_consistent 1337 ops hshort
  exact ⟨hshort, h.1, h.2.1⟩

end Chain

end LocalNode
