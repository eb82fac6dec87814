import LocalNode.Proofs.Chain.Consistency
import LocalNode.Proofs.Wire.Conformance

/-!
What was once there stays.

`Extends` compares a chain with a later one: blocks and transactions are only added, and a receipt
can only get more logs. Every effect of an operation extends the chain, so every run does, and each
query about the past keeps its answer.

Two of these queries need more. A block in full is put together when it is asked for, from the
transactions that are known then. It stays the same because everything that a block lists is known
as soon as the block is there. And a block is found by its hash as the first one that has it, which
blocks behind it do not change.
-/

namespace LocalNode

open Rpc (ChainError Command)

/-- Whether a command asks for a block at a fixed height or by its hash, or for a transaction. -/
def Rpc.Command.isHistorical : Command → Bool
  | .getBlockByNumber (.number _) _ | .getBlockByNumber (.tag .earliest) _ => true
  | .getBlockByHash _ _ | .getTransactionByHash _ => true
  | _ => false

namespace Chain

variable {c c' c'' : Chain}

theorem orNotFound_eq_ok {α : Type} {what : String} {found : Option α} {a : α} :
    orNotFound what found = .ok a ↔ found = some a := by
  cases found <;> simp [orNotFound]

/-- Whatever a chain has, a later one has as well, where receipts may have more logs. -/
structure Extends (c c' : Chain) : Prop where
  blocks : c.blocks <+: c'.blocks
  transactions : ∀ h t, c.transactions.get? h = some t → c'.transactions.get? h = some t
  receipts : ∀ h r, c.receipts.get? h = some r →
    ∃ logs, c'.receipts.get? h = some { r with logs := r.logs ++ logs }

namespace Extends

theorem refl (c : Chain) : c.Extends c where
  blocks := List.prefix_refl _
  transactions _ _ h := h
  receipts h r hr := ⟨[], by rw [List.append_nil]; exact hr⟩

theorem trans (h : c.Extends c') (h' : c'.Extends c'') : c.Extends c'' where
  blocks := h.blocks.trans h'.blocks
  transactions hash t ht := h'.transactions hash t (h.transactions hash t ht)
  receipts hash r hr := by
    obtain ⟨logs, hlogs⟩ := h.receipts hash r hr
    obtain ⟨logs', hlogs'⟩ := h'.receipts hash _ hlogs
    refine ⟨logs ++ logs', ?_⟩
    rw [hlogs', List.append_assoc]

/-- A transaction is accepted only if its hash had no transaction, and so no receipt. -/
theorem accepted [HashFunction] (hc : Consistent c) {data : Data}
    (hunknown : c.transactions.get? (hashOf data) = none) : c.Extends (c.accept data) where
  blocks := List.prefix_append _ _
  transactions _ _ ht := Table.get?_insert_of_unknown hunknown ht
  receipts h r hr := by
    refine ⟨[], ?_⟩
    rw [List.append_nil]
    exact Table.get?_insert_of_unknown (hc.receipts_get?_eq_none hunknown) hr

theorem logged {hash : Hash} {receipt : Receipt} (hfound : c.receipts.get? hash = some receipt)
    (logs : List Log) :
    c.Extends { c with
      receipts := c.receipts.insert hash { receipt with logs := receipt.logs ++ logs } } where
  blocks := List.prefix_refl _
  transactions _ _ h := h
  receipts h r hr := by
    show ∃ more, (c.receipts.insert _ _).get? h = some { r with logs := r.logs ++ more }
    by_cases heq : h = hash
    · rw [heq, hfound] at hr
      cases hr
      rw [heq, Table.get?_insert_self]
      exact ⟨logs, rfl⟩
    · rw [Table.get?_insert_of_ne _ heq]
      exact (refl c).receipts h r hr

theorem effect [HashFunction] (hc : Consistent c) {op : Operation} (he : Effect op c c') :
    c.Extends c' := by
  cases he with
  | elsewhere blocks transactions receipts =>
      refine ⟨?_, ?_, ?_⟩
      · exact blocks ▸ List.prefix_refl c.blocks
      · rw [transactions]
        exact (refl c).transactions
      · rw [receipts]
        exact (refl c).receipts
  | mined => exact { refl c with blocks := List.prefix_append _ _ }
  | accepted isSend unknown => exact accepted hc unknown
  | logged found logs => exact logged found logs

theorem after [HashFunction] (ops : List Operation) :
    ∀ {c : Chain}, Consistent c → c.Extends (c.after ops) := by
  induction ops with
  | nil => intro c _; exact refl c
  | cons op ops ih =>
      intro c hc
      have he := perform_effect op c
      exact (effect hc he).trans (ih (hc.effect he))

/-! ### Queries

Blocks are only ever appended, so a height names the same block for ever, and the first block with a
hash stays the first one.
-/

theorem head_le (h : c.Extends c') : c.head ≤ c'.head :=
  Nat.sub_le_sub_right h.blocks.length_le 1

theorem getElem? (h : c.Extends c') {height : Nat} {b : Block} (hb : c.blocks[height]? = some b) :
    c'.blocks[height]? = some b := by
  obtain ⟨hlt, rfl⟩ := List.getElem?_eq_some_iff.mp hb
  exact List.prefix_iff_getElem?.mp h.blocks height hlt

/-- Known hashes are looked up as before. -/
theorem filterMap_get? (h : c.Extends c') {list : List Hash}
    (hknown : ∀ h ∈ list, (c.transactions.get? h).isSome = true) :
    list.filterMap c'.transactions.get? = list.filterMap c.transactions.get? := by
  refine List.filterMap_congr fun hash hmem => ?_
  obtain ⟨t, ht⟩ := Option.isSome_iff_exists.mp (hknown hash hmem)
  rw [ht, h.transactions hash t ht]

theorem block [HashFunction] (h : c.Extends c') (hc : Consistent c) {height : Nat} {full : Bool}
    {b : Block} (hb : c.block height full = .ok b) : c'.block height full = .ok b := by
  cases hfound : c.blocks[height]? with
  | none =>
      rw [Chain.block, hfound] at hb
      cases hb
  | some b₀ =>
      have hmem : b₀ ∈ c.blocks := List.mem_of_getElem? hfound
      obtain ⟨list, hlist, -⟩ := hc.atMostOne b₀ hmem
      have hexpand : c'.expandBlock b₀ = c.expandBlock b₀ := by
        simp only [expandBlock, hlist]
        rw [h.filterMap_get? fun hash hh => hc.listed b₀ hmem hash (by rw [hlist]; exact hh)]
      rw [block_of_getElem? hfound] at hb
      rw [block_of_getElem? (h.getElem? hfound), hexpand]
      exact hb

theorem resolve_number (h : c.Extends c') {n : Word} {height : Nat}
    (hr : c.resolve (.number n) = .ok height) : c'.resolve (.number n) = .ok height := by
  have hhead := h.head_le
  rw [resolve] at hr ⊢
  split at hr
  · rename_i hle
    rw [if_pos (Nat.le_trans hle hhead)]
    exact hr
  · cases hr

theorem heightOf (h : c.Extends c') {hash : Hash} {height : Nat}
    (hh : c.heightOf hash = .ok height) : c'.heightOf hash = .ok height := by
  unfold Chain.heightOf at hh ⊢
  cases hfound : c.blocks.findIdx? fun b => b.hash = hash with
  | none =>
      rw [hfound] at hh
      cases hh
  | some i =>
      rw [hfound] at hh
      rw [h.blocks.findIdx?_eq_some hfound]
      exact hh

/-- A query about the past keeps its answer. -/
theorem answer_historical [HashFunction] (h : c.Extends c') (hc : Consistent c) {cmd : Command}
    (hcmd : cmd.isHistorical = true) {a : cmd.Answer} (ha : (answer cmd c).1 = .ok a) :
    (answer cmd c').1 = .ok a := by
  cases cmd with
  | getBlockByNumber selector full =>
      obtain ⟨height, hresolve, hb⟩ := bind_eq_ok.mp ha
      refine bind_eq_ok.mpr ⟨height, ?_, h.block hc hb⟩
      cases selector with
      | number n => exact h.resolve_number hresolve
      | tag name =>
          cases name with
          | earliest => exact hresolve
          | latest | pending => cases hcmd
  | getBlockByHash hash full =>
      obtain ⟨height, hheight, hb⟩ := bind_eq_ok.mp ha
      exact bind_eq_ok.mpr ⟨height, h.heightOf hheight, h.block hc hb⟩
  | getTransactionByHash hash =>
      exact orNotFound_eq_ok.mpr (h.transactions hash a (orNotFound_eq_ok.mp ha))
  | clientVersion | netVersion | chainId | gasPrice | blockNumber | getBalance
  | getTransactionCount | getCode | getStorageAt | sendRawTransaction | call | estimateGas
  | getTransactionReceipt | getLogs | mine => cases hcmd

theorem answer_receipt [HashFunction] (h : c.Extends c') {hash : Hash} {r : Receipt}
    (hr : (answer (.getTransactionReceipt hash) c).1 = .ok r) :
    ∃ logs, (answer (.getTransactionReceipt hash) c').1 =
      .ok { r with logs := r.logs ++ logs } := by
  obtain ⟨logs, hlogs⟩ := h.receipts hash r (orNotFound_eq_ok.mp hr)
  exact ⟨logs, orNotFound_eq_ok.mpr hlogs⟩

/-- Heights that fit 64 bits are ordered as the words that stand for them. -/
theorem word_head_le (h : c.Extends c') (hfits : c'.head < UInt64.size) :
    Word.ofNat c.head ≤ Word.ofNat c'.head := by
  have hle := h.head_le
  rw [BitVec.le_def, Word.toNat_ofNat hfits, Word.toNat_ofNat (Nat.lt_of_le_of_lt hle hfits)]
  exact hle

end Extends

/-! ### Sending again -/

theorem send_of_known [HashFunction] {data : Data} {t : Transaction}
    (h : c.transactions.get? (hashOf data) = some t) :
    ∃ text, c.send data = (.error (.rejected text), c) := by
  rcases c.send_cases data with hrejected | ⟨hunknown, -⟩
  · exact hrejected
  · rw [hunknown] at h
    cases h

/-- A transaction that was sent is known, and the chain still fits together. -/
theorem known_of_sent [HashFunction] (hc : Consistent c) {data : Data} {hash : Hash}
    (h : (answer (.sendRawTransaction data) c).1 = .ok hash) :
    Consistent (answer (.sendRawTransaction data) c).2 ∧
      ∃ t, (answer (.sendRawTransaction data) c).2.transactions.get? (hashOf data) = some t := by
  rw [answer] at h ⊢
  rcases c.send_cases data with ⟨text, hsend⟩ | ⟨hunknown, hsend⟩
  · rw [hsend] at h
    cases h
  · rw [hsend]
    exact ⟨hc.accepted hunknown, c.sentTransaction data, Table.get?_insert_self _ _ _⟩

/-- **History is only ever appended to.** Take a chain that can be reached, and whatever is done to
it later. Blocks at a fixed height, blocks by hash and transactions that were found are found again
as they were, receipts with more logs at most, and the last height does not go down. A transaction
with the hash of one that was accepted is rejected from then on and changes nothing. -/
theorem history_append_only [HashFunction] (chainId : UInt64) (ops later : List Operation) :
    let c := (new chainId).after ops
    let c' := c.after later
    (∀ cmd : Command, cmd.isHistorical = true → ∀ a, (answer cmd c).1 = .ok a →
      (answer cmd c').1 = .ok a) ∧
    (∀ hash r, (answer (.getTransactionReceipt hash) c).1 = .ok r →
      ∃ logs, (answer (.getTransactionReceipt hash) c').1 =
        .ok { r with logs := r.logs ++ logs }) ∧
    ((answer .blockNumber c).1 = .ok (Word.ofNat c.head) ∧
      (answer .blockNumber c').1 = .ok (Word.ofNat c'.head) ∧ c.head ≤ c'.head ∧
      (c'.head < UInt64.size → Word.ofNat c.head ≤ Word.ofNat c'.head)) ∧
    ∀ data hash, (answer (.sendRawTransaction data) c).1 = .ok hash →
      ∀ data', HashFunction.hash (Bytes.ofList data'.bytes) =
          HashFunction.hash (Bytes.ofList data.bytes) →
        ∃ text, answer (.sendRawTransaction data')
            (c.after (.command (.sendRawTransaction data) :: later)) =
          (.error (.rejected text), c.after (.command (.sendRawTransaction data) :: later)) := by
  intro c c'
  have hc : Consistent c := (Consistent.new chainId).after ops
  have hextends : c.Extends c' := Extends.after later hc
  refine ⟨fun cmd hcmd a ha => hextends.answer_historical hc hcmd ha,
    fun hash r hr => hextends.answer_receipt hr, ⟨rfl, rfl, hextends.head_le,
    hextends.word_head_le⟩, ?_⟩
  intro data hash hsent data' hsame
  obtain ⟨hsound, t, ht⟩ := known_of_sent hc hsent
  have hlater := (Extends.after later hsound).transactions _ t ht
  have hhash : hashOf data' = hashOf data := hsame
  rw [← hhash] at hlater
  exact send_of_known hlater

/-- The block of a transaction is the same after a block more and a new price of gas, and the
transaction is not accepted again. -/
theorem history_append_only_sent :
    let send : Operation := .command (.sendRawTransaction ⟨[0xf8, 0x6b]⟩)
    let later : List Operation := [.command .mine, .setGasPrice 7]
    (∃ b, (answer (.getBlockByNumber (.number 1) true) ((new 1337).after [send])).1 = .ok b ∧
      (answer (.getBlockByNumber (.number 1) true) (((new 1337).after [send]).after later)).1 =
        .ok b) ∧
    ∃ text, answer (.sendRawTransaction ⟨[0xf8, 0x6b]⟩) ((new 1337).after (send :: later)) =
      (.error (.rejected text), (new 1337).after (send :: later)) := by
  intro send later
  refine ⟨⟨_, rfl, (history_append_only 1337 [send] later).1 _ rfl _ rfl⟩, ?_⟩
  exact (history_append_only 1337 [] later).2.2.2 ⟨[0xf8, 0x6b]⟩ (hashOf ⟨[0xf8, 0x6b]⟩) rfl _ rfl

end Chain

end LocalNode
