import LocalNode.Proofs.Rpc.Commands
import LocalNode.Proofs.Wire.Readings

/-!
Requests that differ only in their spelling.

The parameters of every method are read up to spelling: selectors, where digits and the names of
tags stand side by side, filters, where a topic may be a text or an array of texts, and the objects
that hold them. A method without parameters takes `null` for the empty array besides.

So two requests for a method that are the same but for their spelling are understood as the same
command, or both are refused, and requests that are understood as the same command differ in nothing
else.
-/

namespace LocalNode

open Schema Wire

/-! ### Unions

A union is read as the first form that takes the value, and its schema asks for any of the forms. If
a change of spelling could move a value from one form to the other, the two would not agree.
-/

section Union

variable {α β γ : Type} {union : String} {u : Wire α} {w₁ : Wire β} {w₂ : Wire γ} {f : β → α}
  {g : γ → α}

/-- A union of two forms is read in the form that accepts the value, if what the second accepts is
not read in the first. -/
theorem reads_union
    (hdecode : ∀ v, u.decode v =
      firstForm union v [fun v => (w₁.decode v).map f, fun v => (w₂.decode v).map g])
    (hschema : ∀ found, u.schema.Conforms found ↔
      w₁.schema.Conforms found ∨ w₂.schema.Conforms found)
    (h₁ : Readable w₁) (h₂ : Readable w₂)
    (hapart : ∀ v, w₂.schema.Conforms (some v) → ∃ fault, w₁.decode v = .error fault)
    {v : Json} {x : α} :
    Reads u v x ↔ (∃ b, f b = x ∧ Reads w₁ v b) ∨ ∃ c, g c = x ∧ Reads w₂ v c := by
  rw [Reads, hschema, hdecode]
  constructor
  · rintro ⟨hv | hv, hread⟩
    · obtain ⟨b, hb⟩ := h₁ v hv
      rw [firstForm_map_ok hb] at hread
      exact .inl ⟨b, Except.ok.inj hread, hv, hb⟩
    · obtain ⟨fault, hfault⟩ := hapart v hv
      obtain ⟨c, hc⟩ := h₂ v hv
      rw [firstForm_map_error hfault, firstForm_map_ok hc] at hread
      exact .inr ⟨c, Except.ok.inj hread, hv, hc⟩
  · rintro (⟨b, rfl, hv, hb⟩ | ⟨c, rfl, hv, hc⟩)
    · exact ⟨.inl hv, firstForm_map_ok hb⟩
    · obtain ⟨fault, hfault⟩ := hapart v hv
      exact ⟨.inr hv, (firstForm_map_error hfault).trans (firstForm_map_ok hc)⟩

/-- A union of two forms is read up to spelling if both are, and no change of spelling in the one
form makes or meets a value of the other. -/
theorem upToSpelling_union
    (hreads : ∀ {v x}, Reads u v x ↔ (∃ b, f b = x ∧ Reads w₁ v b) ∨ ∃ c, g c = x ∧ Reads w₂ v c)
    (hrespelled : ∀ {v v'}, u.schema.Respelled v v' ↔
      w₁.schema.Respelled v v' ∨ w₂.schema.Respelled v v')
    (hf : Function.Injective f) (hg : Function.Injective g) (hne : ∀ b c, f b ≠ g c)
    (hfirst : ∀ {v v'}, w₁.schema.Respelled v v' →
      ¬ w₂.schema.Conforms (some v) ∧ ¬ w₂.schema.Conforms (some v'))
    (hsecond : ∀ {v v'}, w₂.schema.Respelled v v' →
      ¬ w₁.schema.Conforms (some v) ∧ ¬ w₁.schema.Conforms (some v'))
    (h₁ : UpToSpelling w₁) (h₂ : UpToSpelling w₂) : UpToSpelling u where
  reads_iff := by
    intro v v' h x
    rw [hreads, hreads]
    rcases hrespelled.mp h with h | h
    · have hother : ∀ c, Reads w₂ v c ↔ Reads w₂ v' c :=
        fun c => iff_of_false (fun hc => (hfirst h).1 hc.1) (fun hc => (hfirst h).2 hc.1)
      simp only [h₁.reads_iff h, hother]
    · have hother : ∀ b, Reads w₁ v b ↔ Reads w₁ v' b :=
        fun b => iff_of_false (fun hb => (hsecond h).1 hb.1) (fun hb => (hsecond h).2 hb.1)
      simp only [h₂.reads_iff h, hother]
  alike := by
    intro v v' x hv hv'
    rcases hreads.mp hv with ⟨b, rfl, hb⟩ | ⟨c, rfl, hc⟩
    · rcases hreads.mp hv' with ⟨b', hsame, hb'⟩ | ⟨c, hsame, -⟩
      · rw [hf hsame] at hb'
        exact (h₁.alike hb hb').mono (fun _ _ h => hrespelled.mpr (.inl h)) _ _
      · exact (hne b c hsame.symm).elim
    · rcases hreads.mp hv' with ⟨b, hsame, -⟩ | ⟨c', hsame, hc'⟩
      · exact (hne b c hsame).elim
      · rw [hg hsame] at hc'
        exact (h₂.alike hc hc').mono (fun _ _ h => hrespelled.mpr (.inr h)) _ _

end Union

/-! ### The types of parameters -/

namespace BlockTag

variable {v v' : Json}

theorem exists_render (h : Schema.tag.Conforms (some v)) :
    ∃ tag : BlockTag, v = .str tag.render := by
  obtain ⟨s, heq, hs⟩ := conforms_tag.mp h
  cases heq
  simp only [blockTags, List.mem_cons, List.not_mem_nil, or_false] at hs
  rcases hs with rfl | rfl | rfl
  · exact ⟨.earliest, rfl⟩
  · exact ⟨.latest, rfl⟩
  · exact ⟨.pending, rfl⟩

theorem not_respelled : ¬ Schema.tag.Respelled v v' := by
  intro h
  cases h with
  | digits hs => cases hs

/-- No tag is marked as digits are. -/
theorem not_conforms_mark (cs : List Char) : ¬ Schema.tag.Conforms (some (.str (mark cs))) := by
  intro h
  obtain ⟨tag, htag⟩ := exists_render h
  refine ne_mark_of_unmark ?_ cs (Json.str.inj htag).symm
  cases tag <;> rfl

theorem upToSpelling : UpToSpelling (inferInstance : Wire BlockTag) where
  reads_iff := fun h => (not_respelled h).elim
  alike := by
    rintro v v' tag ⟨hv, hread⟩ ⟨hv', hread'⟩
    obtain ⟨first, rfl⟩ := exists_render hv
    obtain ⟨second, rfl⟩ := exists_render hv'
    have hround := lawful.roundTrips.decode_encode
    have hfirst : first = tag := Except.ok.inj ((hround first).symm.trans hread)
    have hsecond : second = tag := Except.ok.inj ((hround second).symm.trans hread')
    rw [hfirst, hsecond]
    exact .refl _

end BlockTag

theorem BlockSelector.upToSpelling : UpToSpelling (inferInstance : Wire BlockSelector) := by
  have hapart : ∀ v, Schema.tag.Conforms (some v) →
      ∃ fault, decode (α := Word) v = .error fault := by
    intro v hv
    obtain ⟨tag, rfl⟩ := BlockTag.exists_render hv
    exact decode_render tag
  refine upToSpelling_union
    (reads_union (fun _ => rfl) (fun _ => conforms_iff) lawful_word.readable
      BlockTag.lawful.readable hapart)
    ?_ (fun _ _ => BlockSelector.number.inj) (fun _ _ => BlockSelector.tag.inj) nofun ?_
    (fun h => (BlockTag.not_respelled h).elim) upToSpelling_word BlockTag.upToSpelling
  · intro v v'
    show Schema.block.Respelled v v' ↔ Schema.quantity.Respelled v v' ∨ Schema.tag.Respelled v v'
    rw [respelled_digits rfl, respelled_digits rfl, iff_false_intro BlockTag.not_respelled,
      or_false]
  · intro v v' h
    obtain ⟨cs, cs', rfl, rfl, -⟩ := (respelled_digits rfl).mp h
    exact ⟨BlockTag.not_conforms_mark cs, BlockTag.not_conforms_mark cs'⟩

theorem upToSpelling_hashes : UpToSpelling (inferInstance : Wire (List Hash)) :=
  upToSpelling_hash.list

theorem TopicFilter.upToSpelling : UpToSpelling (inferInstance : Wire TopicFilter) := by
  have hapart : ∀ v, (Schema.array .hash).Conforms (some v) →
      ∃ fault, decode (α := Hash) v = .error fault := by
    intro v hv
    obtain ⟨items, heq, -⟩ := conforms_array.mp hv
    cases heq
    exact ⟨_, rfl⟩
  refine upToSpelling_union
    (reads_union (fun _ => rfl) (fun _ => conforms_oneOf_pair) lawful_hash.readable
      lawful_hashes.readable hapart)
    ?_ (fun _ _ => TopicFilter.exact.inj) (fun _ _ => TopicFilter.anyOf.inj) nofun ?_ ?_
    upToSpelling_hash upToSpelling_hashes
  · intro v v'
    constructor
    · intro h
      cases h with
      | digits hs => cases hs
      | form hs h =>
          rcases List.mem_cons.mp hs with rfl | hs
          · exact .inl h
          · rw [List.mem_singleton.mp hs] at h
            exact .inr h
    · rintro (h | h)
      · exact .form (List.mem_cons_self) h
      · exact .form (List.mem_cons_of_mem _ List.mem_cons_self) h
  · -- A topic is a text, and alternatives are an array.
    intro v v' h
    obtain ⟨cs, cs', rfl, rfl, -⟩ := (respelled_digits rfl).mp h
    exact ⟨not_conforms rfl, not_conforms rfl⟩
  · intro v v' h
    cases h with
    | digits hs => cases hs
    | item h => exact ⟨not_conforms rfl, not_conforms rfl⟩

theorem CallRequest.upToSpelling : UpToSpelling (inferInstance : Wire CallRequest) :=
  Record.upToSpelling (r := CallRequest.record)
    (.cons upToSpelling_address <| .cons upToSpelling_address <| .cons upToSpelling_word <|
      .cons upToSpelling_word <| .cons upToSpelling_word <| .cons upToSpelling_word <|
      .cons upToSpelling_data .nil)
    (by decide) (fun _ => rfl)

theorem LogFilter.upToSpelling : UpToSpelling (inferInstance : Wire LogFilter) :=
  Record.upToSpelling (r := LogFilter.record)
    (.cons BlockSelector.upToSpelling <| .cons BlockSelector.upToSpelling <|
      .cons upToSpelling_address <| .cons TopicFilter.upToSpelling.option.list <|
      .cons upToSpelling_hash .nil)
    (by decide) (fun _ => rfl)

/-! ### Arrays of parameters

The items of an array are respelled one at a time, from the left. So the induction is about arrays
of which some first items have been changed already.
-/

namespace Wire.Members

variable {α : Type} {ms : Members Wire α}

theorem ReadAs.conforms : ∀ {items : List Json} {as : α}, ms.ReadAs items as →
    items.length = (ms.schemas.map (·.2)).length ∧
      ∀ p ∈ (ms.schemas.map (·.2)).zip items, p.1.Conforms (some p.2) := by
  induction ms with
  | nil =>
      rintro items as rfl
      exact ⟨rfl, nofun⟩
  | cons dict member rest ih =>
      rintro items as ⟨v, left, rfl, hv, -, hleft⟩
      obtain ⟨hlength, hall⟩ := ih hleft
      rw [schemas, List.map_cons, List.zip_cons_cons, List.forall_mem_cons]
      exact ⟨congrArg Nat.succ hlength, hv, hall⟩

theorem ReadAs.readItems {short : Nat → Fault} : ∀ {i : Nat} {items : List Json} {as : α},
    ms.ReadAs items as → ms.readItems short i items = .ok (as, []) := by
  induction ms with
  | nil =>
      rintro i items as rfl
      rfl
  | cons dict member rest ih =>
      rintro i items as ⟨v, left, rfl, -, hread, hleft⟩
      exact readItems_cons_eq_ok.mpr ⟨hread, ih hleft⟩

theorem reads_tuple {v : Json} {as : α} :
    Reads ms.tuple v as ↔ ∃ items, v = .arr items ∧ ms.ReadAs items as := by
  constructor
  · rintro ⟨hv, hread⟩
    obtain ⟨items, heq, -⟩ := conforms_tuple.mp hv
    cases heq
    exact ⟨items, rfl, readAs_of_readArray hv hread⟩
  · rintro ⟨items, rfl, hitems⟩
    exact ⟨conforms_tuple.mpr ⟨items, rfl, hitems.conforms⟩, readArray_eq_ok hitems.readItems⟩

theorem readAs_cons {β : Type} {dict : Wire α} {member : Member α} {rest : Members Wire β}
    {v : Json} {left : List Json} {p : α × β} :
    (cons dict member rest).ReadAs (v :: left) p ↔ Reads dict v p.1 ∧ rest.ReadAs left p.2 := by
  constructor
  · rintro ⟨w, left', heq, hv, hread, hleft⟩
    obtain ⟨rfl, rfl⟩ := List.cons.inj heq
    exact ⟨⟨hv, hread⟩, hleft⟩
  · rintro ⟨⟨hv, hread⟩, hleft⟩
    exact ⟨v, left, rfl, hv, hread, hleft⟩

/-- The values of all members are read up to spelling. -/
def EachUpToSpelling {α : Type} : Members Wire α → Prop
  | .nil => True
  | .cons dict _ rest => UpToSpelling dict ∧ rest.EachUpToSpelling

theorem EachUpToSpelling.readAs_iff (h : ms.EachUpToSpelling) {s : Schema} {v v' : Json}
    (hrespelled : s.Respelled v v') {last : List Schema} {after : List Json} :
    ∀ {first : List Schema} {before : List Json} {as : α},
      ms.schemas.map (·.2) = first ++ s :: last → before.length = first.length →
      (ms.ReadAs (before ++ v :: after) as ↔ ms.ReadAs (before ++ v' :: after) as) := by
  induction ms with
  | nil =>
      intro first before as hschemas
      cases first <;> cases hschemas
  | cons dict member rest ih =>
      intro first before as hschemas hplace
      rw [schemas, List.map_cons] at hschemas
      cases first with
      | nil =>
          obtain rfl := List.eq_nil_of_length_eq_zero hplace
          obtain ⟨rfl, -⟩ := List.cons.inj hschemas
          rw [List.nil_append, List.nil_append, readAs_cons, readAs_cons,
            h.1.reads_iff hrespelled]
      | cons t first =>
          cases before with
          | nil => cases hplace
          | cons b before =>
              rw [List.cons_append, List.cons_append, readAs_cons, readAs_cons,
                ih h.2 (List.cons.inj hschemas).2 (Nat.succ.inj hplace)]

/-- Arrays that are read as the same values are alike. As with arrays of one kind of item, they are
changed from the left to the right. -/
theorem EachUpToSpelling.alike (h : ms.EachUpToSpelling) :
    ∀ (first : List Schema) (before : List Json) {items items' : List Json} {as : α},
      before.length = first.length → ms.ReadAs items as → ms.ReadAs items' as →
      (Schema.tuple (first ++ ms.schemas.map (·.2))).Alike (.arr (before ++ items))
        (.arr (before ++ items')) := by
  induction ms with
  | nil =>
      rintro first before items items' as - rfl rfl
      exact .refl _
  | cons dict member rest ih =>
      rintro first before items items' as hplace ⟨v, left, rfl, hv, hread, hleft⟩
        ⟨v', left', rfl, hv', hread', hleft'⟩
      rw [schemas, List.map_cons]
      have hfirst : (Schema.tuple (first ++ dict.schema :: rest.schemas.map (·.2))).Alike
          (.arr (before ++ v :: left)) (.arr (before ++ v' :: left)) :=
        eqvGen_lift (fun v => Json.arr (before ++ v :: left))
          (fun _ _ hstep => .rel _ _ (.part hplace hstep)) (h.1.alike ⟨hv, hread⟩ ⟨hv', hread'⟩)
      have hrest := ih h.2 (first ++ [dict.schema]) (before ++ [v']) (by simp [hplace]) hleft hleft'
      rw [← List.append_cons, ← List.append_cons, ← List.append_cons] at hrest
      exact hfirst.trans _ _ _ hrest

theorem EachUpToSpelling.tuple (h : ms.EachUpToSpelling) : UpToSpelling ms.tuple where
  reads_iff := by
    intro v v' hrespelled as
    rw [reads_tuple, reads_tuple]
    change (Schema.tuple (ms.schemas.map (·.2))).Respelled v v' at hrespelled
    generalize hschemas : ms.schemas.map (·.2) = schemas at hrespelled
    cases hrespelled with
    | digits hs => cases hs
    | part hplace hpart =>
        simp only [Json.arr.injEq, exists_eq_left', h.readAs_iff hpart hschemas hplace]
  alike := by
    intro v v' as hv hv'
    obtain ⟨items, rfl, hitems⟩ := reads_tuple.mp hv
    obtain ⟨items', rfl, hitems'⟩ := reads_tuple.mp hv'
    exact h.alike [] [] rfl hitems hitems'

end Wire.Members

namespace Rpc

namespace Method

/-! ### The parameters of a method

To a method without parameters `null` says the same as the empty array. No schema counts this as a
change of spelling, so it is added here.
-/

variable {m : Method} {params params' : Json}

theorem params_upToSpelling (m : Method) : m.signature.params.EachUpToSpelling := by
  cases m with
  | clientVersion | netVersion | chainId | gasPrice | blockNumber | mine => trivial
  | getBalance | getTransactionCount | getCode =>
      exact ⟨upToSpelling_address, BlockSelector.upToSpelling, trivial⟩
  | getStorageAt =>
      exact ⟨upToSpelling_address, upToSpelling_word, BlockSelector.upToSpelling, trivial⟩
  | sendRawTransaction => exact ⟨upToSpelling_data, trivial⟩
  | call => exact ⟨CallRequest.upToSpelling, BlockSelector.upToSpelling, trivial⟩
  | estimateGas => exact ⟨CallRequest.upToSpelling, trivial⟩
  | getBlockByNumber => exact ⟨BlockSelector.upToSpelling, upToSpelling_bool, trivial⟩
  | getBlockByHash => exact ⟨upToSpelling_hash, upToSpelling_bool, trivial⟩
  | getTransactionByHash | getTransactionReceipt => exact ⟨upToSpelling_hash, trivial⟩
  | getLogs => exact ⟨LogFilter.upToSpelling, trivial⟩

/-- The parameters of a method with their spelling changed at one place. -/
inductive Respelled (m : Method) : Json → Json → Prop
  | params {params params' : Json} (h : m.paramsSchema.Respelled params params') :
      Respelled m params params'
  /-- Where there are no parameters, `null` stands for the empty array. -/
  | nothing (h : m.signature.params.length = 0) : Respelled m .null (.arr [])

/-- Two requests for a method are the same but for their spelling. -/
abbrev Alike (m : Method) : Json → Json → Prop :=
  Relation.EqvGen m.Respelled

/-- Parameters are accepted and read as values. -/
def Reads (m : Method) (params : Json) (args : m.Args) : Prop :=
  m.paramsSchema.Conforms (some params) ∧ m.decodeArgs params = .ok args

theorem reads_of_length_eq_zero (h : m.signature.params.length = 0) {args : m.Args} :
    m.Reads params args ↔ params = .null ∨ params = .arr [] := by
  rw [Reads, paramsSchema_eq_noParams h, conforms_noParams]
  constructor
  · rintro ⟨hnone | hnull | hempty, -⟩
    · cases hnone
    · exact .inl (Option.some.inj hnull)
    · exact .inr (Option.some.inj hempty)
  · rintro (rfl | rfl)
    · exact ⟨.inr (.inl rfl), (decodeArgs_nil h args).1⟩
    · exact ⟨.inr (.inr rfl), (decodeArgs_nil h args).2⟩

theorem reads_of_length_ne_zero (h : m.signature.params.length ≠ 0) {args : m.Args} :
    m.Reads params args ↔ Wire.Reads m.signature.params.tuple params args := by
  rw [Reads, paramsSchema_eq_tuple h, Wire.Reads]
  refine and_congr_right fun hconforms => ?_
  obtain ⟨items, heq, hitems, -⟩ := conforms_tuple.mp hconforms
  cases heq
  rw [List.length_map, Members.length_schemas] at hitems
  have hne : items ≠ [] := by
    rintro rfl
    exact h hitems.symm
  rw [decodeArgs_arr hne, if_neg h]
  rfl

theorem Respelled.reads_iff (h : m.Respelled params params') (args : m.Args) :
    m.Reads params args ↔ m.Reads params' args := by
  by_cases hlength : m.signature.params.length = 0
  · rw [reads_of_length_eq_zero hlength, reads_of_length_eq_zero hlength]
    cases h with
    | nothing => simp
    | params h =>
        -- There is no other spelling of nothing.
        rw [paramsSchema_eq_noParams hlength] at h
        cases h with
        | digits hs => cases hs
  · rw [reads_of_length_ne_zero hlength, reads_of_length_ne_zero hlength]
    cases h with
    | nothing hzero => exact (hlength hzero).elim
    | params h =>
        rw [paramsSchema_eq_tuple hlength] at h
        exact m.params_upToSpelling.tuple.reads_iff h args

theorem alike_of_reads {args : m.Args} (h : m.Reads params args) (h' : m.Reads params' args) :
    m.Alike params params' := by
  by_cases hlength : m.signature.params.length = 0
  · rw [reads_of_length_eq_zero hlength] at h h'
    have hnothing : m.Alike .null (.arr []) := .rel _ _ (.nothing hlength)
    rcases h with rfl | rfl <;> rcases h' with rfl | rfl
    · exact .refl _
    · exact hnothing
    · exact hnothing.symm _ _
    · exact .refl _
  · rw [reads_of_length_ne_zero hlength] at h h'
    refine (m.params_upToSpelling.tuple.alike h h').mono (fun _ _ hstep => .params ?_) _ _
    rw [paramsSchema_eq_tuple hlength]
    exact hstep

end Method

/-! ### Requests -/

namespace Command

variable {m : Method} {params params' : Json}

theorem args_ofArgs (m : Method) (args : m.Args) : (ofArgs m args).args ≍ args := by
  cases m <;> exact .rfl

theorem ofArgs_injective (m : Method) : Function.Injective (ofArgs m) := by
  intro args args' h
  have hargs : (ofArgs m args).args ≍ (ofArgs m args').args := by rw [h]
  exact eq_of_heq ((args_ofArgs m args).symm.trans (hargs.trans (args_ofArgs m args')))

theorem ofRequest_eq_ok_iff {c : Command} :
    ofRequest m.name params = .ok c ↔ ∃ args, m.Reads params args ∧ ofArgs m args = c := by
  constructor
  · intro h
    obtain ⟨args, hconforms, hread, rfl⟩ := ofRequest_ok h
    exact ⟨args, ⟨hconforms, hread⟩, rfl⟩
  · rintro ⟨args, ⟨hconforms, hread⟩, rfl⟩
    exact ofRequest_eq_ok hconforms hread

/-- One change of spelling makes no difference to what is understood. -/
theorem ofRequest_step (h : m.Respelled params params') (c : Command) :
    ofRequest m.name params = .ok c ↔ ofRequest m.name params' = .ok c := by
  simp only [ofRequest_eq_ok_iff, h.reads_iff]

/-- Neither does any number of changes. -/
theorem ofRequest_run (h : m.Alike params params') (c : Command) :
    ofRequest m.name params = .ok c ↔ ofRequest m.name params' = .ok c := by
  induction h with
  | rel _ _ hstep => exact ofRequest_step hstep c
  | refl => rfl
  | symm _ _ _ ih => exact ih.symm
  | trans _ _ _ _ _ ih ih' => exact ih.trans ih'

/-- **Spelling is what understanding a request forgets.** Requests for a method that are the same
but for their spelling are understood as the same command, or both are errors; and requests that are
understood as the same command are the same but for their spelling. -/
theorem ofRequest_spelling (m : Method) (params params' : Json) :
    (m.Alike params params' →
      (∃ c, ofRequest m.name params = .ok c ∧ ofRequest m.name params' = .ok c) ∨
        ∃ e e', ofRequest m.name params = .error e ∧ ofRequest m.name params' = .error e') ∧
    ∀ c, ofRequest m.name params = .ok c → ofRequest m.name params' = .ok c →
      m.Alike params params' := by
  constructor
  · intro halike
    have hrun := ofRequest_run halike
    cases h : ofRequest m.name params with
    | ok c => exact .inl ⟨c, rfl, (hrun c).mp h⟩
    | error e =>
        cases h' : ofRequest m.name params' with
        | ok c =>
            rw [(hrun c).mpr h'] at h
            cases h
        | error e' => exact .inr ⟨e, e', rfl, rfl⟩
  · intro c h h'
    obtain ⟨args, hargs, rfl⟩ := ofRequest_eq_ok_iff.mp h
    obtain ⟨args', hargs', hsame⟩ := ofRequest_eq_ok_iff.mp h'
    rw [ofArgs_injective m hsame] at hargs'
    exact Method.alike_of_reads hargs hargs'

/-- A filter for logs is respelled four times: it gets capital digits in its first block and in an
alternative for the second topic, an address that is `null`, and a member that filters do not have.
A request to mine has `null` or the empty array. -/
theorem ofRequest_spelling_filter :
    (∃ c, ofRequest "eth_getLogs" (.arr [.obj [("fromBlock", .str (mark ['a'])),
        ("topics", .arr [.null, .arr [.str (mark (List.replicate 64 'a'))]])]]) = .ok c ∧
      ofRequest "eth_getLogs" (.arr [.obj [("limit", .str "0x1"), ("address", .null),
        ("fromBlock", .str (mark ['A'])),
        ("topics", .arr [.null, .arr [.str (mark (List.replicate 64 'A'))]])]]) = .ok c) ∧
    Method.mine.Alike .null (.arr []) := by
  refine ⟨?_, (ofRequest_spelling .mine .null (.arr [])).2 .mine rfl rfl⟩
  have hstep : ∀ v v', (Schema.record [("fromBlock", .nullable .block),
        ("toBlock", .nullable .block), ("address", .nullable .address),
        ("topics", .nullable (.array (.nullable (.oneOf [.hash, .array .hash])))),
        ("blockHash", .nullable .hash)]).Respelled v v' →
      Method.getLogs.Alike (.arr [v]) (.arr [v']) :=
    fun v v' h => .rel _ _ (.params (@Schema.Respelled.part [] [] _ [] [] v v' rfl h))
  have hblock : ∀ rest,
      Method.getLogs.Alike (.arr [.obj (("fromBlock", .str (mark ['a'])) :: rest)])
        (.arr [.obj (("fromBlock", .str (mark ['A'])) :: rest)]) := by
    intro rest
    refine hstep _ _ (.member (fun other hother => ?_) List.lookup_cons_self
      List.lookup_cons_self fun s hs => ?_)
    · have hne : (other == "fromBlock") = false := beq_eq_false_iff_ne.mpr hother
      simp only [Json.member?, List.lookup_cons, hne]
    · obtain rfl : s = .nullable .block := by simpa using hs
      exact .nullable (.digits rfl rfl)
  have htopics : ∀ block, Method.getLogs.Alike
      (.arr [.obj [("fromBlock", block),
        ("topics", .arr [.null, .arr [.str (mark (List.replicate 64 'a'))]])]])
      (.arr [.obj [("fromBlock", block),
        ("topics", .arr [.null, .arr [.str (mark (List.replicate 64 'A'))]])]]) := by
    intro block
    have hothers : ∀ topics topics', ∀ other ≠ "topics",
        Json.member? [("fromBlock", block), ("topics", topics')] other =
          Json.member? [("fromBlock", block), ("topics", topics)] other := by
      intro topics topics' other hother
      have hne : (other == "topics") = false := beq_eq_false_iff_ne.mpr hother
      simp only [Json.member?, List.lookup_cons, hne]
    refine hstep _ _ (.member (hothers _ _) rfl rfl fun s hs => ?_)
    obtain rfl : s = .nullable (.array (.nullable (.oneOf [.hash, .array .hash]))) := by
      simpa using hs
    have halternative : (Schema.array .hash).Respelled
        (.arr [.str (mark (List.replicate 64 'a'))]) (.arr [.str (mark (List.replicate 64 'A'))]) :=
      @Schema.Respelled.item _ [] [] _ _ (.digits rfl rfl)
    exact .nullable (@Schema.Respelled.item _ [.null] [] _ _ (.nullable
      (.form (List.mem_cons_of_mem _ List.mem_cons_self) halternative)))
  have haddress : ∀ rest, Json.member? rest "address" = none →
      Method.getLogs.Alike (.arr [.obj rest]) (.arr [.obj (("address", .null) :: rest)]) := by
    intro rest habsent
    refine hstep _ _ (.leftOut (fun other hother => ?_) habsent List.lookup_cons_self
      fun s hs => ⟨.address, by simpa using hs⟩)
    have hne : (other == "address") = false := beq_eq_false_iff_ne.mpr hother
    simp only [Json.member?, List.lookup_cons, hne]
  have hlimit : ∀ rest,
      Method.getLogs.Alike (.arr [.obj rest]) (.arr [.obj (("limit", .str "0x1") :: rest)]) := by
    intro rest
    refine hstep _ _ (.unknown ?_)
    simp [Json.member?, List.lookup_cons]
  have halike := ((hblock _).trans _ _ _ (htopics _)).trans _ _ _
    ((haddress _ rfl).trans _ _ _ (hlimit _))
  rcases (ofRequest_spelling _ _ _).1 halike with hboth | ⟨e, -, he, -⟩
  · exact hboth
  · -- The filter as it was is accepted.
    have hnot : ∀ params, Method.getLogs.paramsSchema.accepts params = true →
        ofRequest Method.getLogs.name params ≠ .error e := by
      intro params haccepts he
      obtain ⟨c, hc, -⟩ := ofRequest_understood haccepts
      rw [hc] at he
      cases he
    refine (hnot _ ?_ he).elim
    rfl

end Command

end Rpc

end LocalNode
