import LocalNode.Proofs.Provider.Counterparts

/-!
How transactions are read.

A transaction is read from eight keys, two of which give its gas. Each key has a reader of its own,
so what is read, what goes wrong and what does not matter can be said key by key, without following
the reading of the whole object.

Reading stops at the first key whose value has a fault. The fault of a key is a function of the
object here, `Key.fault`, and the error of the whole is the first of these faults in the order of
the keys. That is one equation for each step, put together in the order of the definition.
-/

namespace LocalNode.Provider

open Wire

variable {α β : Type} {members : List (String × Json)} {field : String}

/-! ### Keys -/

/-- The keys of a transaction. -/
inductive Key where
  | gasLimit
  | gas
  | sender
  | recipient
  | gasPrice
  | nonce
  | value
  | data
  deriving DecidableEq

/-- An object has a value for a name, and it counts as written. -/
def Given (members : List (String × Json)) (name : String) (v : Json) : Prop :=
  Json.member? members name = some v ∧ Written v

namespace Key

/-- The keys in the order in which they are read. -/
def all : List Key :=
  [.gasLimit, .gas, .sender, .recipient, .gasPrice, .nonce, .value, .data]

/-- The name of a key in an object. -/
def name : Key → String
  | .gasLimit => "gasLimit"
  | .gas => "gas"
  | .sender => "from"
  | .recipient => "to"
  | .gasPrice => "gasPrice"
  | .nonce => "nonce"
  | .value => "value"
  | .data => "data"

/-- What the value of a key is read as. -/
def Value : Key → Type
  | .sender | .recipient => Address
  | .data => Data
  | .gasLimit | .gas | .gasPrice | .nonce | .value => Word

/-- The reader of a key. -/
def read : (k : Key) → String → Json → Except Error k.Value
  | .sender | .recipient => toFixed
  | .data => toData
  | .gasLimit | .gas | .gasPrice | .nonce | .value => toQuantity

/-- The path under which errors of a key are reported. -/
def path (k : Key) (field : String) : String :=
  field ++ "." ++ k.name

/-- A key is read from a value. The second key of the gas is only looked at if the first one has no
value. -/
def Source (members : List (String × Json)) (k : Key) (v : Json) : Prop :=
  Given members k.name v ∧ (k = .gas → ∀ limit, ¬ Given members "gasLimit" limit)

/-- A value can be read for a key. -/
def Converts (k : Key) (field : String) (v : Json) : Prop :=
  ∃ a, k.read (k.path field) v = .ok a

/-- The value that a key is read from, if any. -/
def source? (members : List (String × Json)) : Key → Option Json
  | .gas => if (present? members "gasLimit").isSome then none else present? members "gas"
  | k => present? members k.name

end Key

theorem present?_eq_some_iff {name : String} {v : Json} :
    present? members name = some v ↔ Given members name v := by
  constructor
  · intro h
    unfold present? at h
    split at h
    · cases h
    · cases h
    · rename_i s hmember
      split at h
      · cases h
      · rename_i hs
        cases h
        refine ⟨hmember, nofun, ?_⟩
        rintro ⟨⟩
        exact hs rfl
    · rename_i w hnull hstr hmember
      cases h
      refine ⟨hmember, ?_, ?_⟩
      · rintro rfl
        exact hnull rfl
      · rintro rfl
        exact hstr _ rfl
  · rintro ⟨hmember, hwritten⟩
    exact present?_of_written hmember hwritten

theorem present?_eq_none_iff {name : String} :
    present? members name = none ↔ ∀ v, ¬ Given members name v := by
  simp only [Option.eq_none_iff_forall_ne_some, ne_eq, present?_eq_some_iff]

/-- All keys but the second one of the gas are looked at in any case. -/
theorem Key.source?_of_ne {k : Key} (h : k ≠ .gas) :
    k.source? members = present? members k.name := by
  cases k with
  | gas => exact absurd rfl h
  | _ => rfl

theorem Key.source?_eq_some_iff {k : Key} {v : Json} :
    k.source? members = some v ↔ k.Source members v := by
  by_cases hgas : k = .gas
  · subst hgas
    rw [source?, Source]
    by_cases hlimit : (present? members "gasLimit").isSome
    · obtain ⟨limit, hgiven⟩ := Option.isSome_iff_exists.mp hlimit
      have hnot : ¬ ∀ limit, ¬ Given members "gasLimit" limit :=
        fun hnone => hnone limit (present?_eq_some_iff.mp hgiven)
      simp [hlimit, hnot]
    · have hnone := present?_eq_none_iff.mp (Option.not_isSome_iff_eq_none.mp hlimit)
      simp [hlimit, hnone, present?_eq_some_iff, name]
  · rw [source?_of_ne hgas, present?_eq_some_iff, Source]
    simp [hgas]

/-! ### Faults -/

/-- The error of a result, if it is one. -/
def errorOf : Except Error α → Option Error
  | .ok _ => none
  | .error e => some e

theorem errorOf_eq_some_iff {r : Except Error α} {e : Error} :
    errorOf r = some e ↔ r = .error e := by
  cases r <;> simp [errorOf]

theorem errorOf_eq_none_iff {r : Except Error α} : errorOf r = none ↔ ∃ a, r = .ok a := by
  cases r <;> simp [errorOf]

theorem errorOf_map {r : Except Error α} {f : α → β} : errorOf (r.map f) = errorOf r := by
  cases r <;> rfl

/-- What is wrong with the value that a key is read from. -/
def Key.fault (members : List (String × Json)) (field : String) (k : Key) : Option Error :=
  (k.source? members).bind fun v => errorOf (k.read (k.path field) v)

theorem Key.fault_eq_some_iff {k : Key} {e : Error} :
    k.fault members field = some e ↔
      ∃ v, k.Source members v ∧ k.read (k.path field) v = .error e := by
  simp only [fault, Option.bind_eq_some_iff, source?_eq_some_iff, errorOf_eq_some_iff]

theorem Key.fault_eq_none_iff {k : Key} :
    k.fault members field = none ↔ ∀ v, k.Source members v → k.Converts field v := by
  simp only [fault, Option.bind_eq_none_iff, source?_eq_some_iff, errorOf_eq_none_iff, Converts]

theorem errorOf_optionalField {name path : String} {read : String → Json → Except Error α} :
    errorOf (optionalField members name path read) =
      (present? members name).bind fun v => errorOf (read path v) := by
  rw [optionalField]
  cases present? members name with
  | none => rfl
  | some v =>
      show errorOf ((read path v).map some) = errorOf (read path v)
      exact errorOf_map

/-- The first fault among some keys, in their order. -/
def firstFault (members : List (String × Json)) (field : String) (ks : List Key) : Option Error :=
  ks.findSome? (·.fault members field)

theorem firstFault_cons (k : Key) (ks : List Key) :
    firstFault members field (k :: ks) =
      (k.fault members field).or (firstFault members field ks) := by
  rw [firstFault, List.findSome?_cons]
  cases k.fault members field <;> rfl

/-- Of two steps, the second is not taken if the first one has an error. -/
theorem errorOf_bind {r : Except Error α} {next : α → Except Error β} {o : Option Error}
    (h : ∀ a, errorOf (next a) = o) : errorOf (r >>= next) = (errorOf r).or o := by
  cases r with
  | ok a => exact h a
  | error e => rfl

/-- A key other than the second one of the gas is read in one step. -/
theorem errorOf_key {k : Key} (hk : k ≠ .gas) {ks : List Key}
    {next : Option k.Value → Except Error β}
    (h : ∀ o, errorOf (next o) = firstFault members field ks) :
    errorOf (optionalField members k.name (k.path field) k.read >>= next) =
      firstFault members field (k :: ks) := by
  rw [errorOf_bind h, firstFault_cons, errorOf_optionalField, Key.fault, Key.source?_of_ne hk]

theorem gasField_of_absent (h : present? members "gasLimit" = none) :
    gasField members field = optionalField members "gas" (field ++ "." ++ "gas") toQuantity := by
  rw [gasField, optionalField_of_absent _ h]
  rfl

/-- If the first key of the gas has a value, the second one is not read. -/
theorem gasField_of_given {v : Json} (h : present? members "gasLimit" = some v) :
    gasField members field =
      optionalField members "gasLimit" (field ++ "." ++ "gasLimit") toQuantity := by
  rw [gasField, optionalField, h]
  dsimp only
  cases toQuantity (field ++ "." ++ "gasLimit") v <;> rfl

theorem errorOf_gasField :
    errorOf (gasField members field) = firstFault members field [.gasLimit, .gas] := by
  have hfirst : Key.gasLimit.source? members = present? members "gasLimit" := rfl
  rw [firstFault_cons, firstFault_cons, Key.fault, Key.fault, hfirst, Key.source?]
  cases hlimit : present? members "gasLimit" with
  | none =>
      rw [gasField_of_absent hlimit, errorOf_optionalField]
      exact (Option.or_none).symm
  | some v =>
      rw [gasField_of_given hlimit, errorOf_optionalField, hlimit]
      exact (Option.or_none).symm

/-- **The error of a transaction is the first fault among its keys.** -/
theorem errorOf_toCallRequest :
    errorOf (toCallRequest field (.obj members)) = firstFault members field Key.all := by
  have hgas : ∀ ks, firstFault members field (.gasLimit :: .gas :: ks) =
      (errorOf (gasField members field)).or (firstFault members field ks) := by
    intro ks
    simp only [errorOf_gasField, firstFault_cons, Option.or_assoc]
    rfl
  rw [toCallRequest_obj, Key.all, hgas]
  refine errorOf_bind fun gas => ?_
  refine errorOf_key (k := .sender) nofun fun sender => ?_
  refine errorOf_key (k := .recipient) nofun fun recipient => ?_
  refine errorOf_key (k := .gasPrice) nofun fun gasPrice => ?_
  refine errorOf_key (k := .nonce) nofun fun nonce => ?_
  refine errorOf_key (k := .value) nofun fun value => ?_
  refine errorOf_key (k := .data) nofun fun data => ?_
  rfl

/-! ### Fields -/

/-- A field is taken from a key: it is there exactly if the key has a value, and then it is what
that value is read as. -/
structure Key.Fills (k : Key) (members : List (String × Json)) (field : String)
    (o : Option k.Value) : Prop where
  none_iff : o = none ↔ ∀ v, ¬ Given members k.name v
  some_iff : ∀ a, o = some a ↔ ∃ v, Given members k.name v ∧ k.read (k.path field) v = .ok a

theorem Key.fills_of_optionalField {k : Key} {o : Option k.Value}
    (h : optionalField members k.name (k.path field) k.read = .ok o) : k.Fills members field o := by
  rw [optionalField] at h
  cases hsource : present? members k.name with
  | none =>
      rw [hsource] at h
      cases h
      have hnone := present?_eq_none_iff.mp hsource
      exact ⟨by simp [hnone], by simp [hnone]⟩
  | some v =>
      rw [hsource] at h
      dsimp only at h
      have hgiven := present?_eq_some_iff.mp hsource
      -- No other value is given for the key.
      have hunique : ∀ v', Given members k.name v' → v' = v := by
        intro v' hv'
        rw [present?_eq_some_iff.mpr hv'] at hsource
        exact Option.some.inj hsource
      cases hread : k.read (k.path field) v with
      | error e =>
          rw [hread] at h
          cases h
      | ok a =>
          rw [hread] at h
          cases h
          constructor
          · simp only [reduceCtorEq, false_iff]
            intro hnone
            exact hnone v hgiven
          · intro a'
            constructor
            · intro ha
              cases ha
              exact ⟨v, hgiven, hread⟩
            · intro h
              obtain ⟨v', hv', hread'⟩ := h
              rw [hunique v' hv', hread] at hread'
              exact congrArg some (Except.ok.inj hread')

/-- Every field of a transaction is taken from its key, and the gas from the first of its two keys
that has a value. -/
structure TakenFrom (members : List (String × Json)) (field : String) (t : CallRequest) :
    Prop where
  gasLimit : (∃ v, Given members "gasLimit" v) → Key.gasLimit.Fills members field t.gas
  gas : (∀ v, ¬ Given members "gasLimit" v) → Key.gas.Fills members field t.gas
  sender : Key.sender.Fills members field t.sender
  recipient : Key.recipient.Fills members field t.recipient
  gasPrice : Key.gasPrice.Fills members field t.gasPrice
  nonce : Key.nonce.Fills members field t.nonce
  value : Key.value.Fills members field t.value
  data : Key.data.Fills members field t.data

theorem takenFrom_of_toCallRequest {t : CallRequest}
    (h : toCallRequest field (.obj members) = .ok t) : TakenFrom members field t := by
  rw [toCallRequest_obj] at h
  obtain ⟨gas, hgas, h⟩ := bind_eq_ok.mp h
  obtain ⟨sender, hsender, h⟩ := bind_eq_ok.mp h
  obtain ⟨recipient, hrecipient, h⟩ := bind_eq_ok.mp h
  obtain ⟨gasPrice, hgasPrice, h⟩ := bind_eq_ok.mp h
  obtain ⟨nonce, hnonce, h⟩ := bind_eq_ok.mp h
  obtain ⟨value, hvalue, h⟩ := bind_eq_ok.mp h
  obtain ⟨data, hdata, h⟩ := bind_eq_ok.mp h
  cases h
  exact
    { gasLimit := by
        intro h
        obtain ⟨v, hv⟩ := h
        rw [gasField_of_given (present?_eq_some_iff.mpr hv)] at hgas
        exact Key.fills_of_optionalField (k := .gasLimit) hgas
      gas := by
        intro hnone
        rw [gasField_of_absent (present?_eq_none_iff.mpr hnone)] at hgas
        exact Key.fills_of_optionalField (k := .gas) hgas
      sender := Key.fills_of_optionalField (k := .sender) hsender
      recipient := Key.fills_of_optionalField (k := .recipient) hrecipient
      gasPrice := Key.fills_of_optionalField (k := .gasPrice) hgasPrice
      nonce := Key.fills_of_optionalField (k := .nonce) hnonce
      value := Key.fills_of_optionalField (k := .value) hvalue
      data := Key.fills_of_optionalField (k := .data) hdata }

/-! ### What matters -/

theorem optionalField_congr {members' : List (String × Json)} (name : String)
    (h : Json.member? members name = Json.member? members' name) (path : String)
    (read : String → Json → Except Error α) :
    optionalField members name path read = optionalField members' name path read := by
  rw [optionalField, optionalField, present?, present?, h]

/-- Only the keys of a transaction matter. -/
theorem toCallRequest_congr {members' : List (String × Json)}
    (h : ∀ k : Key, Json.member? members k.name = Json.member? members' k.name) :
    toCallRequest field (.obj members) = toCallRequest field (.obj members') := by
  have hgas : gasField members field = gasField members' field := by
    rw [gasField, gasField, optionalField_congr "gasLimit" (h .gasLimit),
      optionalField_congr "gas" (h .gas)]
  rw [toCallRequest_obj, toCallRequest_obj, hgas, optionalField_congr "from" (h .sender),
    optionalField_congr "to" (h .recipient), optionalField_congr "gasPrice" (h .gasPrice),
    optionalField_congr "nonce" (h .nonce), optionalField_congr "value" (h .value),
    optionalField_congr "data" (h .data)]

/-- What the node writes has no second key for the gas, and reads back. -/
theorem toCallRequest_encode (t : CallRequest) : toCallRequest field (encode t) = .ok t := by
  have hdecode := CallRequest.lawful.roundTrips.decode_encode t
  refine toCallRequest_of_decode hdecode ?_ field
  rw [present?, Members.member?_encode_of_not_mem (by decide)]

/-! ### All transactions -/

theorem Key.mem_all (k : Key) : k ∈ all := by
  cases k <;> decide

theorem Key.read_blames (k : Key) (path : String) (v : Json) : Blames path (k.read path v) := by
  cases k with
  | sender | recipient => exact toFixed_blames path v
  | data => exact toData_blames path v
  | gasLimit | gas | gasPrice | nonce | value => exact toQuantity_blames path v

theorem toCallRequest_eq_ok_iff :
    (∃ t, toCallRequest field (.obj members) = .ok t) ↔
      ∀ (k : Key) v, k.Source members v → k.Converts field v := by
  rw [← errorOf_eq_none_iff, errorOf_toCallRequest, firstFault, List.findSome?_eq_none_iff]
  constructor
  · intro hall k
    exact Key.fault_eq_none_iff.mp (hall k k.mem_all)
  · intro hall k _
    exact Key.fault_eq_none_iff.mpr (hall k)

/-- What is reported is the first key, in their order, whose value cannot be read. -/
theorem toCallRequest_eq_error_iff {e : Error} :
    toCallRequest field (.obj members) = .error e ↔
      ∃ before k after, Key.all = before ++ k :: after ∧
        (∀ k' ∈ before, ∀ v, k'.Source members v → k'.Converts field v) ∧
        ∃ v, k.Source members v ∧ k.read (k.path field) v = .error e := by
  rw [← errorOf_eq_some_iff, errorOf_toCallRequest, firstFault, List.findSome?_eq_some_iff]
  constructor
  · intro h
    obtain ⟨before, k, after, hall, hfault, hbefore⟩ := h
    exact ⟨before, k, after, hall, fun k' hk' => Key.fault_eq_none_iff.mp (hbefore k' hk'),
      Key.fault_eq_some_iff.mp hfault⟩
  · intro h
    obtain ⟨before, k, after, hall, hbefore, hfault⟩ := h
    exact ⟨before, k, after, hall, Key.fault_eq_some_iff.mpr hfault,
      fun k' hk' => Key.fault_eq_none_iff.mpr (hbefore k' hk')⟩

/-- What is known of the transactions that are read for a field. -/
structure Normalizes (field : String) : Prop where
  /-- What is written for a transaction is read as that transaction, so reading twice changes
  nothing. -/
  fixes : ∀ t : CallRequest, toCallRequest field (encode t) = .ok t
  /-- Objects that agree on the keys of a transaction are read alike. -/
  depends : ∀ members members',
    (∀ k : Key, Json.member? members k.name = Json.member? members' k.name) →
      toCallRequest field (.obj members) = toCallRequest field (.obj members')
  /-- A transaction is read exactly if every value that is looked at can be read. -/
  succeeds_iff : ∀ members, (∃ t, toCallRequest field (.obj members) = .ok t) ↔
    ∀ (k : Key) v, k.Source members v → k.Converts field v
  /-- A field is left out exactly if its key has no value, so an explicit zero is kept. -/
  taken : ∀ members t, toCallRequest field (.obj members) = .ok t → TakenFrom members field t
  /-- What is reported is the path of the first key whose value cannot be read. -/
  fails_iff : ∀ members e, toCallRequest field (.obj members) = .error e ↔
    ∃ before k after, Key.all = before ++ k :: after ∧
      (∀ k' ∈ before, ∀ v, k'.Source members v → k'.Converts field v) ∧
      ∃ v reason, k.Source members v ∧ k.read (k.path field) v = .error e ∧
        e = .invalidField (field ++ "." ++ k.name) reason

/-- **A transaction is read key by key**: what is read, what goes wrong and what does not matter are
settled by the values of its keys. -/
theorem toCallRequest_normalizes (field : String) : Normalizes field where
  fixes := toCallRequest_encode
  depends := fun members members' h => toCallRequest_congr h
  succeeds_iff := fun members => toCallRequest_eq_ok_iff
  taken := fun members t h => takenFrom_of_toCallRequest h
  fails_iff := by
    intro members e
    rw [toCallRequest_eq_error_iff]
    constructor
    · intro h
      obtain ⟨before, k, after, hall, hbefore, v, hsource, hread⟩ := h
      obtain ⟨reason, he⟩ := k.read_blames (k.path field) v e hread
      exact ⟨before, k, after, hall, hbefore, v, reason, hsource, hread, he⟩
    · intro h
      obtain ⟨before, k, after, hall, hbefore, v, reason, hsource, hread, he⟩ := h
      exact ⟨before, k, after, hall, hbefore, v, hsource, hread⟩

-- A zero and empty data are values, `null` and the empty string are not.
example : toCallRequest "t" (.obj [("value", Json.nat 0), ("data", .str "0x"), ("nonce", .null),
    ("from", .str "")]) = .ok { value := some 0, data := some .empty } := by
  cbv

end LocalNode.Provider
