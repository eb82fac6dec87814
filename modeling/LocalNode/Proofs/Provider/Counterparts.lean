import LocalNode.Proofs.Provider.Reading

/-!
The provider understands what the node understands.

Most methods of the node have a counterpart among those of the provider, which takes the same
parameters by name. The provider has readers of its own for them: it strips zeros, knows the names
of the block tags and goes through a transaction field by field. Still, parameters that the node
understands become the same command when they are given by name.

There is one exception. A transaction may have a member `gasLimit`, which the node does not know and
the provider takes for the gas.
-/

namespace LocalNode.Provider

open Schema Wire
open Rpc (Command)

variable {α : Type}

/-! ### Fields with a wire form

The provider has a reader of its own for each type. That it takes what the codec of the type reads
is known of each of them, and passes to the fields of a record.
-/

section Fields

variable {read : String → Json → Except Error α} {w : Wire α}

theorem Bag.required_of_decode {bag : Bag} {name : String} {v : Json} {a : α}
    (hread : Extends read w) (hmember : Json.member? bag name = some v)
    (hdecode : w.decode v = .ok a) : bag.required name read = .ok a := by
  rw [Bag.required, present?_of_written hmember (hread.written hdecode)]
  exact hread.agrees hdecode name

theorem optionalField_of_absent {members : List (String × Json)} {name : String} (path : String)
    (h : present? members name = none) : optionalField members name path read = .ok none := by
  rw [optionalField, h]

theorem optionalField_of_decode {members : List (String × Json)} {name : String} {v : Json} {a : α}
    (hread : Extends read w) (hmember : Json.member? members name = some v)
    (hdecode : w.decode v = .ok a) (path : String) :
    optionalField members name path read = .ok (some a) := by
  rw [optionalField, present?_of_written hmember (hread.written hdecode)]
  dsimp only
  rw [hread.agrees hdecode path]
  rfl

/-- An optional member of a record is read by name as the record reads it. In both cases `null` is
nothing. -/
theorem optionalField_of_readMember {members : List (String × Json)} {name : String}
    {o : Option α} (hread : Extends read w)
    (h : Members.readMember w.option (.optional name) (Json.member? members name) = .ok o)
    (path : String) : optionalField members name path read = .ok o := by
  cases hmember : Json.member? members name with
  | none =>
      rw [hmember] at h
      cases h
      exact optionalField_of_absent path (by rw [present?, hmember])
  | some v =>
      rw [hmember] at h
      by_cases hnull : v = .null
      · subst hnull
        cases h
        exact optionalField_of_absent path (by rw [present?, hmember])
      · have hmap : (w.decode v).map some = .ok o := (decode_option hnull).symm.trans h
        cases hdecode : w.decode v with
        | error fault =>
            rw [hdecode] at hmap
            cases hmap
        | ok a =>
            rw [hdecode] at hmap
            cases hmap
            exact optionalField_of_decode hread hmember hdecode path

end Fields

/-! ### Transactions -/

theorem readObject_of_decode {R : Type} {r : Record Wire R} {given : List (String × Json)} {x : R}
    (h : r.decode (.obj given) = .ok x) :
    ∃ as, r.members.readObject given = .ok as ∧ r.build as = x := by
  rw [Record.decode] at h
  split at h
  · cases h
  · cases hread : r.members.readObject given with
    | error fault =>
        rw [hread] at h
        cases h
    | ok as =>
        rw [hread] at h
        cases h
        exact ⟨as, rfl, rfl⟩

/-- A transaction that the node reads from an object is read alike field by field, unless the object
gives the gas under its other name. -/
theorem toCallRequest_of_decode {given : List (String × Json)} {request : CallRequest}
    (h : decode (.obj given) = .ok request) (hlimit : present? given "gasLimit" = none)
    (field : String) : toCallRequest field (.obj given) = .ok request := by
  obtain ⟨⟨sender, recipient, gas, gasPrice, nonce, value, data, _⟩, hread, rfl⟩ :=
    readObject_of_decode (r := CallRequest.record) h
  obtain ⟨hsender, hread⟩ := Members.readObject_cons_eq_ok.mp hread
  obtain ⟨hrecipient, hread⟩ := Members.readObject_cons_eq_ok.mp hread
  obtain ⟨hgas, hread⟩ := Members.readObject_cons_eq_ok.mp hread
  obtain ⟨hgasPrice, hread⟩ := Members.readObject_cons_eq_ok.mp hread
  obtain ⟨hnonce, hread⟩ := Members.readObject_cons_eq_ok.mp hread
  obtain ⟨hvalue, hread⟩ := Members.readObject_cons_eq_ok.mp hread
  obtain ⟨hdata, -⟩ := Members.readObject_cons_eq_ok.mp hread
  have hgasField : gasField given field = .ok gas := by
    rw [gasField, optionalField_of_absent _ hlimit]
    exact optionalField_of_readMember extends_word hgas _
  rw [toCallRequest_obj, hgasField,
    optionalField_of_readMember extends_address hsender,
    optionalField_of_readMember extends_address hrecipient,
    optionalField_of_readMember extends_word hgasPrice,
    optionalField_of_readMember extends_word hnonce,
    optionalField_of_readMember extends_word hvalue,
    optionalField_of_readMember extends_data hdata]
  rfl

theorem Bag.transaction_of_decode {bag : Bag} {v : Json} {request : CallRequest}
    (hmember : Json.member? bag "transaction" = some v)
    (hconforms : (Wire.schema CallRequest).Conforms (some v)) (hdecode : decode v = .ok request)
    (hlimit : ∀ members, v = .obj members → present? members "gasLimit" = none) :
    bag.required "transaction" toCallRequest = .ok request := by
  obtain ⟨given, hgiven, -⟩ := conforms_record.mp hconforms
  cases hgiven
  rw [Bag.required, present?_of_written hmember ⟨nofun, nofun⟩]
  exact toCallRequest_of_decode hdecode (hlimit given rfl) "transaction"

/-! ### Blocks

The provider looks for a tag first and the node for a height. As no text is both, the order makes no
difference.
-/

theorem eq_render_of_ofName? {s : String} {tag : BlockTag} (h : BlockTag.ofName? s = some tag) :
    s = tag.render := by
  grind [BlockTag.ofName?, BlockTag.render]

/-- A string that is read as a height names no tag. -/
theorem ofName?_of_height {s : String} {height : Word}
    (h : decode (α := Word) (.str s) = .ok height) : BlockTag.ofName? s = none := by
  cases hname : BlockTag.ofName? s with
  | none => rfl
  | some tag =>
      obtain ⟨fault, hfault⟩ := BlockSelector.decode_render tag
      rw [eq_render_of_ofName? hname, hfault] at h
      cases h

theorem Bag.blockTag?_of_decode {bag : Bag} {v : Json} {block : BlockSelector}
    (hmember : Json.member? bag "blockTag" = some v) (hconforms : Conforms .block (some v))
    (hdecode : decode v = .ok block) : bag.blockTag? = .ok (some block) := by
  obtain ⟨s, hs, hform⟩ := conforms_block.mp hconforms
  cases hs
  have hwritten : Written (.str s) := by
    refine ⟨nofun, ?_⟩
    rintro ⟨⟩
    cases hdecode
  rw [Bag.blockTag?, present?_of_written hmember hwritten]
  rcases hform with htag | ⟨height, hheight⟩
  · simp only [blockTags, List.mem_cons, List.not_mem_nil, or_false] at htag
    rcases htag with rfl | rfl | rfl
    all_goals
      cases hdecode
      rfl
  · have hword : decode (α := Word) (.str s) = .ok height := by
      show decodeText Quantity.decode (.str s) = _
      rw [decodeText, hheight]
    have hnumber : decode (.str s) = .ok (BlockSelector.number height) := firstForm_map_ok hword
    rw [hnumber] at hdecode
    cases hdecode
    dsimp only
    rw [ofName?_of_height hword, extends_word.agrees hword]
    rfl

theorem Bag.block_of_decode {bag : Bag} {v : Json} {block : BlockSelector}
    (hmember : Json.member? bag "blockTag" = some v) (hconforms : Conforms .block (some v))
    (hdecode : decode v = .ok block) (default : BlockSelector) :
    bag.block default = .ok block := by
  rw [Bag.block, Bag.blockTag?_of_decode hmember hconforms hdecode]
  rfl

theorem Bag.includeTransactions_of_decode {bag : Bag} {v : Json} {full : Bool}
    (hmember : Json.member? bag "includeTransactions" = some v) (hdecode : decode v = .ok full) :
    bag.includeTransactions = .ok full := by
  cases v with
  | bool value =>
      cases hdecode
      rw [Bag.includeTransactions, present?_of_written hmember ⟨nofun, nofun⟩]
  | _ => cases hdecode

theorem Bag.filter_of_decode {bag : Bag} {v : Json} {filter : LogFilter}
    (hmember : Json.member? bag "filter" = some v)
    (hconforms : (Wire.schema LogFilter).Conforms (some v)) (hdecode : decode v = .ok filter) :
    bag.filter = .ok filter := by
  obtain ⟨given, hgiven, -⟩ := conforms_record.mp hconforms
  cases hgiven
  rw [Bag.filter, present?_of_written hmember ⟨nofun, nofun⟩]
  dsimp only
  rw [hdecode]

/-! ### Calls -/

/-- What stands for a method of the node among the calls of the provider, if anything does: a method
and the names of its parameters in their order. -/
def counterpart? : Rpc.Method → Option (Method × List String)
  | .clientVersion => none
  | .netVersion => none
  | .chainId => some (.getChainId, [])
  | .gasPrice => some (.getGasPrice, [])
  | .blockNumber => some (.getBlockNumber, [])
  | .getBalance => some (.getBalance, ["address", "blockTag"])
  | .getTransactionCount => some (.getTransactionCount, ["address", "blockTag"])
  | .getCode => some (.getCode, ["address", "blockTag"])
  | .getStorageAt => some (.getStorageAt, ["address", "position", "blockTag"])
  | .sendRawTransaction => some (.sendTransaction, ["signedTransaction"])
  | .call => some (.call, ["transaction", "blockTag"])
  | .estimateGas => some (.estimateGas, ["transaction"])
  | .getBlockByNumber => some (.getBlock, ["blockTag", "includeTransactions"])
  | .getBlockByHash => some (.getBlock, ["blockHash", "includeTransactions"])
  | .getTransactionByHash => some (.getTransaction, ["transactionHash"])
  | .getTransactionReceipt => some (.getTransactionReceipt, ["transactionHash"])
  | .getLogs => some (.getLogs, ["filter"])
  | .mine => some (.mineBlock, [])

theorem route_of_commandOf {m : Method} {params : Json} {bag : Bag} {default : BlockSelector}
    {c : Command} (hbag : m.bag params = .ok bag) (hc : commandOf bag default m = .ok c) :
    route m.name params default = .ok (.command m c) := by
  rw [route_name]
  exact bind_eq_ok.mpr ⟨bag, hbag, bind_eq_ok.mpr ⟨c, hc, rfl⟩⟩

/-- **What the node understands, the provider understands alike.** If a request to the node is
understood as a command, then the call of the provider that gives the same parameters by name is
carried out as that command, whatever block is meant where none is named. Only a transaction that
gives its gas as `gasLimit` is left out. -/
theorem route_counterpart {m : Rpc.Method} {b : Method} {names : List String} {params : Json}
    {c : Command} (hm : counterpart? m = some (b, names))
    (hc : Command.ofRequest m.name params = .ok c)
    (hgas : m = .call ∨ m = .estimateGas → ∀ members,
      params.items.head? = some (.obj members) → present? members "gasLimit" = none)
    (default : BlockSelector) :
    route b.name (.obj (names.zip params.items)) default = .ok (.command b c) := by
  obtain ⟨args, hconforms, hargs, rfl⟩ := Command.ofRequest_ok hc
  have hread := Rpc.Method.readAs_of_decodeArgs hconforms hargs
  generalize params.items = items at hread hgas
  cases m with
  | clientVersion | netVersion => cases hm
  | chainId | gasPrice | blockNumber | mine =>
      cases hm
      exact route_of_commandOf rfl rfl
  | getBalance | getTransactionCount | getCode =>
      cases hm
      obtain ⟨_, _, rfl, -, haddress, _, _, rfl, hconforms, hblock, rfl⟩ := hread
      exact route_of_commandOf rfl <| bind_eq_ok.mpr
        ⟨_, Bag.required_of_decode extends_address rfl haddress, bind_eq_ok.mpr
        ⟨_, Bag.block_of_decode rfl hconforms hblock default, rfl⟩⟩
  | getStorageAt =>
      cases hm
      obtain ⟨_, _, rfl, -, haddress, _, _, rfl, -, hposition, _, _, rfl, hconforms, hblock, rfl⟩ :=
        hread
      exact route_of_commandOf rfl <| bind_eq_ok.mpr
        ⟨_, Bag.required_of_decode extends_address rfl haddress, bind_eq_ok.mpr
        ⟨_, Bag.required_of_decode extends_word rfl hposition, bind_eq_ok.mpr
        ⟨_, Bag.block_of_decode rfl hconforms hblock default, rfl⟩⟩⟩
  | sendRawTransaction =>
      cases hm
      obtain ⟨_, _, rfl, -, hdata, rfl⟩ := hread
      exact route_of_commandOf rfl <| bind_eq_ok.mpr
        ⟨_, Bag.required_of_decode extends_data rfl hdata, rfl⟩
  | call =>
      cases hm
      obtain ⟨v, _, rfl, hobject, hrequest, _, _, rfl, hconforms, hblock, rfl⟩ := hread
      have hlimit : ∀ members, v = .obj members → present? members "gasLimit" = none :=
        fun members hv => hgas (.inl rfl) members (congrArg some hv)
      exact route_of_commandOf rfl <| bind_eq_ok.mpr
        ⟨_, Bag.transaction_of_decode rfl hobject hrequest hlimit, bind_eq_ok.mpr
        ⟨_, Bag.block_of_decode rfl hconforms hblock default, rfl⟩⟩
  | estimateGas =>
      cases hm
      obtain ⟨v, _, rfl, hobject, hrequest, rfl⟩ := hread
      have hlimit : ∀ members, v = .obj members → present? members "gasLimit" = none :=
        fun members hv => hgas (.inr rfl) members (congrArg some hv)
      exact route_of_commandOf rfl <| bind_eq_ok.mpr
        ⟨_, Bag.transaction_of_decode rfl hobject hrequest hlimit, rfl⟩
  | getBlockByNumber =>
      cases hm
      obtain ⟨_, _, rfl, hconforms, hblock, _, _, rfl, -, hfull, rfl⟩ := hread
      exact route_of_commandOf rfl <| bind_eq_ok.mpr
        ⟨_, Bag.blockTag?_of_decode rfl hconforms hblock, bind_eq_ok.mpr
        ⟨_, Bag.includeTransactions_of_decode rfl hfull, rfl⟩⟩
  | getBlockByHash =>
      cases hm
      obtain ⟨_, _, rfl, -, hhash, _, _, rfl, -, hfull, rfl⟩ := hread
      -- Nothing is given as `blockTag`, so the hash is looked at.
      exact route_of_commandOf rfl <| bind_eq_ok.mpr
        ⟨none, rfl, bind_eq_ok.mpr
        ⟨_, optionalField_of_decode extends_hash rfl hhash _, bind_eq_ok.mpr
        ⟨_, Bag.includeTransactions_of_decode rfl hfull, rfl⟩⟩⟩
  | getTransactionByHash | getTransactionReceipt =>
      cases hm
      obtain ⟨_, _, rfl, -, hhash, rfl⟩ := hread
      exact route_of_commandOf rfl <| bind_eq_ok.mpr
        ⟨_, Bag.required_of_decode extends_hash rfl hhash, rfl⟩
  | getLogs =>
      cases hm
      obtain ⟨_, _, rfl, hconforms, hfilter, rfl⟩ := hread
      exact route_of_commandOf rfl <| bind_eq_ok.mpr
        ⟨_, Bag.filter_of_decode rfl hconforms hfilter, rfl⟩

/-- An empty `gasLimit` counts as not given, so the gas is the same on both sides. -/
theorem route_counterpart_call :
    Command.ofRequest "eth_call"
        (.arr [.obj [("gas", .str "0x5208"), ("gasLimit", .str "")], .str "0xA"]) =
      .ok (.call { gas := some 21000 } (.number 10)) ∧
    route "call"
        (.obj [("transaction", .obj [("gas", .str "0x5208"), ("gasLimit", .str "")]),
          ("blockTag", .str "0xA")]) (.tag .pending) =
      .ok (.command .call (.call { gas := some 21000 } (.number 10))) := by
  have hrequest : CallRequest.record.decode
      (.obj [("gas", .str "0x5208"), ("gasLimit", .str "")]) =
        .ok (CallRequest.record.build (none, none, some 21000, none, none, none, none, ())) :=
    Record.decode_obj rfl
  have hargs : Rpc.Method.decodeArgs .call
      (.arr [.obj [("gas", .str "0x5208"), ("gasLimit", .str "")], .str "0xA"]) =
        .ok ({ gas := some 21000 }, .number 10, ()) :=
    Members.readArray_eq_ok (Members.readItems_cons_eq_ok.mpr ⟨hrequest, rfl⟩)
  have hc := Command.ofRequest_eq_ok (accepts_iff.mp rfl) hargs
  refine ⟨hc, route_counterpart (m := .call) rfl hc ?_ (.tag .pending)⟩
  rintro - members ⟨⟩
  rfl

end LocalNode.Provider
