import LocalNode.Proofs.Rpc.Commands
import LocalNode.Provider.Route

/-!
What the readers of loosely written values do.

Two things are needed of them. Whatever goes wrong while a call is read is put down to one of its
fields, so a caller never sees an error of the node for a call that the node did not get. And a
reader takes every wire form of its type and reads it as the codec does, so being loose only ever
adds forms.

A wire form is a string that is not empty, so it never counts as not written.
-/

namespace LocalNode.Provider

open Schema Wire

variable {α β : Type}

/-! ### Errors

What is said of the errors of a reader passes through the steps of a computation. So it holds of a
reader if it holds of the readers that it is made of.
-/

/-- An error that is about a field of a call. -/
inductive Error.IsField : Error → Prop
  | missing (name : String) : IsField (.missingField name)
  | invalid (field : String) (reason : Reason) : IsField (.invalidField field reason)

/-- If anything goes wrong it is about a field. -/
def FailsOnFields (r : Except Error α) : Prop :=
  ∀ e, r = .error e → e.IsField

namespace FailsOnFields

theorem ok (a : α) : FailsOnFields (.ok a) :=
  fun _ => nofun

theorem invalid (field : String) (reason : Reason) :
    FailsOnFields (.error (.invalidField field reason) : Except Error α) := by
  rintro _ ⟨⟩
  exact .invalid field reason

theorem missing (name : String) :
    FailsOnFields (.error (.missingField name) : Except Error α) := by
  rintro _ ⟨⟩
  exact .missing name

theorem bind {r : Except Error α} {next : α → Except Error β} (h : FailsOnFields r)
    (hnext : ∀ a, FailsOnFields (next a)) : FailsOnFields (r >>= next) := by
  cases r with
  | ok a => exact hnext a
  | error e =>
      rintro _ ⟨⟩
      exact h e rfl

theorem map {r : Except Error α} {f : α → β} (h : FailsOnFields r) : FailsOnFields (r.map f) := by
  cases r with
  | ok a => exact ok (f a)
  | error e =>
      rintro _ ⟨⟩
      exact h e rfl

end FailsOnFields

/-- If anything goes wrong it is put down to the given field. -/
def Blames (field : String) (r : Except Error α) : Prop :=
  ∀ e, r = .error e → ∃ reason, e = .invalidField field reason

namespace Blames

variable {field : String}

theorem ok (a : α) : Blames field (.ok a) :=
  fun _ => nofun

theorem invalid (reason : Reason) :
    Blames field (.error (.invalidField field reason) : Except Error α) := by
  rintro _ ⟨⟩
  exact ⟨reason, rfl⟩

theorem map {r : Except Error α} {f : α → β} (h : Blames field r) : Blames field (r.map f) := by
  cases r with
  | ok a => exact ok (f a)
  | error e =>
      rintro _ ⟨⟩
      exact h e rfl

theorem failsOnFields {r : Except Error α} (h : Blames field r) : FailsOnFields r := by
  intro e he
  obtain ⟨reason, rfl⟩ := h e he
  exact .invalid field reason

end Blames

/-! ### Transactions -/

/-- Reads the gas of a transaction, under either of its names. -/
def gasField (members : List (String × Json)) (field : String) : Except Error (Option Word) := do
  match ← optionalField members "gasLimit" (field ++ "." ++ "gasLimit") toQuantity with
  | some gas => return some gas
  | none => optionalField members "gas" (field ++ "." ++ "gas") toQuantity

/-- A transaction is read field by field. -/
theorem toCallRequest_obj (members : List (String × Json)) (field : String) :
    toCallRequest field (.obj members) = (do
      let gas ← gasField members field
      let sender ← optionalField members "from" (field ++ "." ++ "from") toFixed
      let recipient ← optionalField members "to" (field ++ "." ++ "to") toFixed
      let gasPrice ← optionalField members "gasPrice" (field ++ "." ++ "gasPrice") toQuantity
      let nonce ← optionalField members "nonce" (field ++ "." ++ "nonce") toQuantity
      let value ← optionalField members "value" (field ++ "." ++ "value") toQuantity
      let data ← optionalField members "data" (field ++ "." ++ "data") toData
      return { sender, recipient, gas, gasPrice, nonce, value, data }) := by
  unfold toCallRequest gasField
  dsimp only
  rcases optionalField members "gasLimit" _ toQuantity with e | _ | gas <;> rfl

/-! ### Where readers fail -/

theorem quantityOfText_blames (field s : String) : Blames field (quantityOfText field s) := by
  unfold quantityOfText
  split
  · exact .invalid _
  · exact .invalid _
  · dsimp only
    split
    · exact .ok _
    · exact .invalid _

theorem toQuantity_blames (field : String) (v : Json) : Blames field (toQuantity field v) := by
  fun_induction toQuantity field v with
  | case1 => exact .ok _
  | case2 => exact .invalid _
  | case3 s => exact quantityOfText_blames field s
  | case4 _ _ _ ih => exact ih
  | case5 => exact .invalid _
  | case6 => exact .invalid _

theorem toFixed_blames {n : Nat} (field : String) (v : Json) :
    Blames field (toFixed (n := n) field v) := by
  unfold toFixed
  split
  · split
    · exact .ok _
    · exact .invalid _
  · exact .invalid _

theorem toBytes_blames (field : String) (items : List Json) :
    Blames field (toBytes field items) := by
  induction items with
  | nil => exact .ok []
  | cons item rest ih =>
      unfold toBytes
      split
      · exact ih.map
      · exact .invalid _

theorem toData_blames (field : String) (v : Json) : Blames field (toData field v) := by
  unfold toData
  split
  · split
    · exact .ok _
    · exact .invalid _
  · exact (toBytes_blames field _).map
  · exact .invalid _

theorem toQuantity_failsOnFields (field : String) (v : Json) :
    FailsOnFields (toQuantity field v) :=
  (toQuantity_blames field v).failsOnFields

theorem toFixed_failsOnFields {n : Nat} (field : String) (v : Json) :
    FailsOnFields (toFixed (n := n) field v) :=
  (toFixed_blames field v).failsOnFields

theorem toData_failsOnFields (field : String) (v : Json) : FailsOnFields (toData field v) :=
  (toData_blames field v).failsOnFields

theorem optionalField_failsOnFields {read : String → Json → Except Error α}
    (h : ∀ field v, FailsOnFields (read field v)) (members : List (String × Json))
    (name path : String) : FailsOnFields (optionalField members name path read) := by
  unfold optionalField
  split
  · exact (h path _).map
  · exact .ok none

theorem gasField_failsOnFields (members : List (String × Json)) (field : String) :
    FailsOnFields (gasField members field) := by
  refine .bind (optionalField_failsOnFields toQuantity_failsOnFields members _ _) fun limit => ?_
  cases limit with
  | some gas => exact .ok _
  | none => exact optionalField_failsOnFields toQuantity_failsOnFields members _ _

theorem toCallRequest_failsOnFields (field : String) (v : Json) :
    FailsOnFields (toCallRequest field v) := by
  cases v with
  | obj members =>
      have hquantity := optionalField_failsOnFields toQuantity_failsOnFields members
      have haddress := optionalField_failsOnFields (toFixed_failsOnFields (n := 20)) members
      have hdata := optionalField_failsOnFields toData_failsOnFields members
      rw [toCallRequest_obj]
      exact .bind (gasField_failsOnFields members field) fun _ =>
        .bind (haddress _ _) fun _ => .bind (haddress _ _) fun _ =>
        .bind (hquantity _ _) fun _ => .bind (hquantity _ _) fun _ =>
        .bind (hquantity _ _) fun _ => .bind (hdata _ _) fun _ => .ok _
  | _ => exact .invalid field _

section Bag

variable (bag : Bag)

theorem Bag.required_failsOnFields {read : String → Json → Except Error α}
    (h : ∀ field v, FailsOnFields (read field v)) (name : String) :
    FailsOnFields (bag.required name read) := by
  unfold Bag.required
  split
  · exact h name _
  · exact .missing name

theorem Bag.blockTag?_failsOnFields : FailsOnFields bag.blockTag? := by
  unfold Bag.blockTag?
  split
  · exact .ok none
  · dsimp only
    split
    · exact .ok _
    · exact (toQuantity_failsOnFields "blockTag" _).map

theorem Bag.includeTransactions_failsOnFields : FailsOnFields bag.includeTransactions := by
  unfold Bag.includeTransactions
  split
  · exact .ok false
  · exact .ok _
  · exact .invalid _ _

theorem Bag.filter_failsOnFields : FailsOnFields bag.filter := by
  unfold Bag.filter
  split
  · exact .ok _
  · split
    · exact .ok _
    · exact .invalid _ _

theorem blockCommand_failsOnFields (default : BlockSelector) :
    FailsOnFields (blockCommand bag default) := by
  refine .bind bag.blockTag?_failsOnFields fun block? => ?_
  cases block? with
  | some block => exact .bind bag.includeTransactions_failsOnFields fun _ => .ok _
  | none =>
      refine .bind (optionalField_failsOnFields toFixed_failsOnFields bag _ _) fun hash? => ?_
      cases hash? with
      | some hash => exact .bind bag.includeTransactions_failsOnFields fun _ => .ok _
      | none => exact .bind bag.includeTransactions_failsOnFields fun _ => .ok _

/-- Whatever is wrong with the parameters of a call is put down to one of them. -/
theorem commandOf_failsOnFields (default : BlockSelector) (m : Method) :
    FailsOnFields (commandOf bag default m) := by
  have hblock : FailsOnFields (bag.block default) := bag.blockTag?_failsOnFields.map
  cases m with
  | getChainId | getBlockNumber | getGasPrice | mineBlock => exact .ok _
  | getBalance | getTransactionCount | getCode =>
      exact .bind (bag.required_failsOnFields toFixed_failsOnFields _) fun _ =>
        .bind hblock fun _ => .ok _
  | getStorageAt =>
      exact .bind (bag.required_failsOnFields toFixed_failsOnFields _) fun _ =>
        .bind (bag.required_failsOnFields toQuantity_failsOnFields _) fun _ =>
        .bind hblock fun _ => .ok _
  | sendTransaction =>
      exact .bind (bag.required_failsOnFields toData_failsOnFields _) fun _ => .ok _
  | call =>
      exact .bind (bag.required_failsOnFields toCallRequest_failsOnFields _) fun _ =>
        .bind hblock fun _ => .ok _
  | estimateGas =>
      exact .bind (bag.required_failsOnFields toCallRequest_failsOnFields _) fun _ => .ok _
  | getBlock => exact blockCommand_failsOnFields bag default
  | getTransaction | getTransactionReceipt =>
      exact .bind (bag.required_failsOnFields toFixed_failsOnFields _) fun _ => .ok _
  | getLogs => exact .bind bag.filter_failsOnFields fun _ => .ok _

end Bag

theorem bagOf_failsOnFields (params : Json) : FailsOnFields (bagOf params) := by
  unfold bagOf
  split
  · exact .ok _
  · exact .ok _
  · exact .invalid _ _

/-! ### Names

A name is looked up twice on the way to a command. The two lists of names agree, so what was found
by the first is found by the second, and no call is forwarded after its parameters were looked at.
-/

namespace Method

theorem bagNames_eq : bagNames = reading.map name :=
  rfl

theorem mem_plain_or_reading (m : Method) : m ∈ plain ∨ m ∈ reading := by
  cases m <;> decide

theorem not_mem_plain {m : Method} (h : m ∈ reading) : m ∉ plain := by
  cases m <;> revert h <;> decide

theorem name_injective {m m' : Method} (h : m.name = m'.name) : m = m' := by
  have hfound : (plain ++ reading).find? (fun k => k.name = m.name) = some m := by
    cases m <;> simp [plain, reading, name]
  have hfound' : (plain ++ reading).find? (fun k => k.name = m'.name) = some m' := by
    cases m' <;> simp [plain, reading, name]
  rw [h, hfound'] at hfound
  exact (Option.some.inj hfound).symm

theorem named?_name {methods : List Method} {m : Method} (h : m ∈ methods) :
    named? methods m.name = some m := by
  cases hfound : named? methods m.name with
  | none =>
      have hdiffers := List.find?_eq_none.mp hfound m h
      simp at hdiffers
  | some k =>
      have hname := List.find?_some hfound
      exact congrArg some (name_injective (of_decide_eq_true hname))

theorem named?_eq_none {methods : List Method} {method : String}
    (h : ∀ m ∈ methods, m.name ≠ method) : named? methods method = none := by
  rw [named?, List.find?_eq_none]
  intro m hm hname
  exact h m hm (of_decide_eq_true hname)

/-- The fields that a method gets from the parameters of a call. -/
def bag (m : Method) (params : Json) : Except Error Bag :=
  if m ∈ reading then bagOf params else .ok []

end Method

theorem routeBag_name {m : Method} (h : m ∈ Method.reading) (bag : Bag) (default : BlockSelector) :
    routeBag m.name bag default = (do
      let c ← commandOf bag default m
      return .command m c) := by
  rw [routeBag, Method.named?_name h]

/-- A call whose parameters were looked at is not forwarded. -/
theorem routeBag_ne_forward {method : String} (h : method ∈ Method.bagNames) (bag : Bag)
    (default : BlockSelector) (name : String) (params : Json) :
    routeBag method bag default ≠ .ok (.forward name params) := by
  rw [Method.bagNames_eq, List.mem_map] at h
  obtain ⟨m, hm, rfl⟩ := h
  rw [routeBag_name hm]
  intro hforward
  obtain ⟨c, -, hroute⟩ := bind_eq_ok.mp hforward
  cases hroute

/-- A call to a method of the provider is read in two steps: the fields, and then the command. -/
theorem route_name (m : Method) (params : Json) (default : BlockSelector) :
    route m.name params default = (do
      let bag ← m.bag params
      let c ← commandOf bag default m
      return .command m c) := by
  rcases m.mem_plain_or_reading with hplain | hreading
  · have hother : m ∉ Method.reading := fun hreading => Method.not_mem_plain hreading hplain
    rw [route, Method.named?_name hplain, Method.bag, if_neg hother]
    rfl
  · have hother : ∀ k ∈ Method.plain, k.name ≠ m.name := by
      intro k hk hname
      rw [Method.name_injective hname] at hk
      exact Method.not_mem_plain hreading hk
    have hname : m.name ∈ Method.bagNames := by
      rw [Method.bagNames_eq]
      exact List.mem_map_of_mem hreading
    simp only [route, Method.named?_eq_none hother, if_pos hname, routeBag_name hreading,
      Method.bag, if_pos hreading]

/-- A call to any other method is forwarded as it stands. -/
theorem route_of_unknown {method : String} (h : ∀ m : Method, m.name ≠ method) (params : Json)
    (default : BlockSelector) : route method params default = .ok (.forward method params) := by
  have hname : method ∉ Method.bagNames := by
    rw [Method.bagNames_eq, List.mem_map]
    rintro ⟨m, -, hm⟩
    exact h m hm
  rw [route, Method.named?_eq_none fun m _ => h m]
  exact if_neg hname

theorem route_failsOnFields (m : Method) (params : Json) (default : BlockSelector) :
    FailsOnFields (route m.name params default) := by
  have hbag : FailsOnFields (m.bag params) := by
    unfold Method.bag
    split
    · exact bagOf_failsOnFields params
    · exact .ok _
  rw [route_name]
  exact .bind hbag fun bag => .bind (commandOf_failsOnFields bag default m) fun _ => .ok _

/-! ### What readers take

A field that is `null` or empty counts as not given. No codec reads such a value, so what a codec
reads gets as far as the reader of the field.
-/

/-- A value that counts as written wherever it is given for a field. -/
def Written (v : Json) : Prop :=
  v ≠ .null ∧ v ≠ .str ""

/-- A reader takes whatever a codec reads and reads it as the same value, and nothing that the codec
reads counts as not written. -/
structure Extends (read : String → Json → Except Error α) (w : Wire α) : Prop where
  written : ∀ {v a}, w.decode v = .ok a → Written v
  agrees : ∀ {v a}, w.decode v = .ok a → ∀ field, read field v = .ok a

theorem present?_of_written {members : List (String × Json)} {name : String} {v : Json}
    (h : Json.member? members name = some v) (hv : Written v) :
    present? members name = some v := by
  unfold present?
  rw [h]
  cases v with
  | null => exact (hv.1 rfl).elim
  | str s =>
      have hs : s.isEmpty = false :=
        String.isEmpty_eq_false_iff.mpr fun hempty => hv.2 (congrArg Json.str hempty)
      simp only [hs, Bool.false_eq_true, if_false]
  | _ => rfl

/-- Types of text have readers of one form: a string is read as the codec reads it. -/
theorem extends_text {w : Wire α} {ofText : String → Except CodecError α}
    {read : String → Json → Except Error α} (hdecode : w.decode = decodeText ofText)
    (hempty : ∀ a, ofText "" ≠ .ok a)
    (hread : ∀ s a, ofText s = .ok a → ∀ field, read field (.str s) = .ok a) : Extends read w := by
  have htext : ∀ {v a}, w.decode v = .ok a → ∃ s, v = .str s ∧ ofText s = .ok a := by
    intro v a h
    rw [hdecode, decodeText.eq_def] at h
    split at h
    · rename_i s
      split at h
      · rename_i hs
        cases h
        exact ⟨s, rfl, hs⟩
      · cases h
    · cases h
  constructor
  · intro v a h
    obtain ⟨s, rfl, hs⟩ := htext h
    refine ⟨nofun, ?_⟩
    rintro ⟨⟩
    exact hempty a hs
  · intro v a h
    obtain ⟨s, rfl, hs⟩ := htext h
    exact hread s a hs

/-- A quantity has no zeros in front, so there is nothing to be stripped. -/
theorem quantityOfText_of_decode {s : String} {w : Word} (h : Quantity.decode s = .ok w)
    (field : String) : quantityOfText field s = .ok w := by
  have hdecode := h
  unfold Quantity.decode at h
  unfold quantityOfText
  cases hdigits : unmark s.toList with
  | none =>
      rw [hdigits] at h
      cases h
  | some digits =>
      rw [eq_mark_of_unmark hdigits] at hdecode
      rw [hdigits] at h
      cases digits with
      | nil => cases h
      | cons first rest =>
          have hcanonical : (if ((first :: rest).dropWhile (· = '0')).isEmpty then ['0']
              else (first :: rest).dropWhile (· = '0')) = first :: rest := by
            by_cases hzero : first = '0'
            · by_cases hrest : rest = []
              · subst hzero hrest
                rfl
              · dsimp only at h
                rw [if_pos ⟨hzero, hrest⟩] at h
                cases h
            · simp [hzero]
          dsimp only
          rw [hcanonical, hdecode]

theorem extends_word : Extends toQuantity (inferInstance : Wire Word) :=
  extends_text rfl (fun _ => nofun) fun s w h field => by
    rw [toQuantity]
    exact quantityOfText_of_decode h field

theorem toFixed_of_decode {n : Nat} {s : String} {b : FixedBytes n}
    (h : FixedBytes.decode s = .ok b) (field : String) : toFixed field (.str s) = .ok b := by
  rw [toFixed, h]

theorem extends_address : Extends toFixed (inferInstance : Wire Address) :=
  extends_text rfl (fun _ => nofun) fun _ _ h => toFixed_of_decode h

theorem extends_hash : Extends toFixed (inferInstance : Wire Hash) :=
  extends_text rfl (fun _ => nofun) fun _ _ h => toFixed_of_decode h

theorem extends_data : Extends toData (inferInstance : Wire Data) :=
  extends_text rfl (fun _ => nofun) fun s d h field => by rw [toData, h]

end LocalNode.Provider
