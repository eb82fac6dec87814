import LocalNode.Proofs.Codec.Digits
import LocalNode.Proofs.Wire.Mismatches

/-!
How much of a string a mismatch shows.

A long string is cut. `IsCut` says where, not how the place is found: the part that is kept is made
of whole characters, has at most the given number of bytes, and every other such part is a front
part of it. There is only one, so two ways to find it agree.

  * Characters are taken from the front as long as they fit. This is how a description is made.
  * The bytes are searched from the limit downwards for a place between two characters. This is what
    keeps a cut that counts bytes from breaking a character.

A character has at most four bytes and the first one behind the cut does not fit, so the search
takes at most three steps.
-/

namespace LocalNode

open Text.Hex (byteCount byteCount_eq)

/-! ### Cuts -/

/-- A string cut behind its last character that ends within the first `limit` bytes. -/
structure IsCut (limit : Nat) (s front : String) : Prop where
  /-- What is kept are characters of the string, from the first one on. -/
  isFront : front.toList <+: s.toList
  /-- They fit. -/
  fits : front.utf8ByteSize ≤ limit
  /-- No more characters fit. -/
  longest : ∀ other : String, other.toList <+: s.toList → other.utf8ByteSize ≤ limit →
    other.toList <+: front.toList

namespace IsCut

variable {limit : Nat} {s front front' : String}

theorem unique (h : IsCut limit s front) (h' : IsCut limit s front') : front = front' := by
  have hle := h.longest front' h'.isFront h'.fits
  have hge := h'.longest front h.isFront h.fits
  exact String.toList_inj.mp (hge.eq_of_length_le hle.length_le)

/-- Behind the cut of a string that does not fit stands a character that does not fit either. -/
theorem exists_next (h : IsCut limit s front) (hlong : limit < s.utf8ByteSize) :
    ∃ next rest, s.toList = front.toList ++ next :: rest ∧
      limit < front.utf8ByteSize + next.utf8Size := by
  obtain ⟨rest, hrest⟩ := h.isFront
  cases rest with
  | nil =>
      have hwhole : front = s := String.toList_inj.mp (by simpa using hrest)
      have := h.fits
      rw [hwhole] at this
      omega
  | cons next rest =>
      refine ⟨next, rest, hrest.symm, Nat.lt_of_not_le fun hfits => ?_⟩
      -- with this character the cut would be longer than itself
      have hlonger :=
        h.longest (front.push next) ⟨rest, by simpa using hrest⟩ (by simpa using hfits)
      have := hlonger.length_le
      simp at this

/-- At most three bytes are given up. -/
theorem limit_le (h : IsCut limit s front) (hlong : limit < s.utf8ByteSize) :
    limit ≤ front.utf8ByteSize + 3 := by
  obtain ⟨next, rest, -, hnext⟩ := h.exists_next hlong
  have hsize := next.utf8Size_le_four
  omega

end IsCut

/-! ### Taking characters while they fit -/

theorem takeBytes_prefix (limit : Nat) (cs : List Char) : takeBytes limit cs <+: cs := by
  induction cs generalizing limit with
  | nil => exact List.prefix_rfl
  | cons c cs ih =>
      rw [takeBytes]
      split
      · exact (List.prefix_cons_inj c).mpr (ih _)
      · exact List.nil_prefix

theorem byteCount_takeBytes_le (limit : Nat) (cs : List Char) :
    byteCount (takeBytes limit cs) ≤ limit := by
  induction cs generalizing limit with
  | nil => exact Nat.zero_le limit
  | cons c cs ih =>
      rw [takeBytes]
      split
      · have hrest := ih (limit - c.utf8Size)
        rw [byteCount]
        omega
      · exact Nat.zero_le limit

/-- The induction is on the characters that are compared, for any number of bytes left. -/
theorem prefix_takeBytes {limit : Nat} {other cs : List Char} (h : other <+: cs)
    (hfits : byteCount other ≤ limit) : other <+: takeBytes limit cs := by
  induction other generalizing limit cs with
  | nil => exact List.nil_prefix
  | cons c other ih =>
      obtain ⟨rest, rfl⟩ := h
      rw [byteCount] at hfits
      rw [List.cons_append, takeBytes, if_pos (by omega)]
      exact (List.prefix_cons_inj c).mpr (ih (List.prefix_append other rest) (by omega))

theorem isCut_takeBytes (limit : Nat) (s : String) :
    IsCut limit s (String.ofList (takeBytes limit s.toList)) where
  isFront := by
    rw [String.toList_ofList]
    exact takeBytes_prefix limit s.toList
  fits := by
    rw [← byteCount_eq]
    exact byteCount_takeBytes_le limit s.toList
  longest := by
    intro other hfront hfits
    rw [String.toList_ofList]
    apply prefix_takeBytes hfront
    rwa [byteCount_eq, String.ofList_toList]

/-- One character of four bytes too many gives up three bytes. -/
example : byteCount (takeBytes 80 ('a' :: List.replicate 20 '😀')) = 77 := by decide

/-! ### Searching the bytes downwards -/

theorem isCut_of_splits {limit : Nat} {s front rest : String}
    (h : (s.posLE ⟨limit⟩).Splits front rest) : IsCut limit s front where
  isFront := ⟨rest.toList, by rw [← String.toList_append, ← h.eq_append]⟩
  fits := by
    have hle : (s.posLE ⟨limit⟩).offset ≤ ⟨limit⟩ := String.offset_posLE_le
    rw [h.offset_eq_rawEndPos] at hle
    exact hle
  longest := by
    intro other hfront hfits
    obtain ⟨after, hafter⟩ := hfront
    have heq : s = other ++ String.ofList after :=
      String.toList_inj.mp (by simpa using hafter.symm)
    -- the end of the other part is a place between two characters, so the search does not pass it
    have hother := String.Pos.splits_ofEqAppend heq
    have hle : String.Pos.ofEqAppend heq ≤ s.posLE ⟨limit⟩ := by
      rw [String.le_posLE_iff, hother.offset_eq_rawEndPos]
      exact hfits
    obtain ⟨more, hmore, -⟩ := (hother.le_iff_exists_eq_append h).mp hle
    exact ⟨more.toList, by rw [hmore, String.toList_append]⟩

/-- The cut is the place that the search finds. -/
theorem IsCut.exists_splits {limit : Nat} {s front : String} (h : IsCut limit s front) :
    ∃ rest, (s.posLE ⟨limit⟩).Splits front rest := by
  have hsplits := (s.posLE ⟨limit⟩).splits
  rw [← h.unique (isCut_of_splits hsplits)] at hsplits
  exact ⟨_, hsplits⟩

/-! ### What is shown -/

/-- A text shows a string. -/
structure ShownAs (s text : String) : Prop where
  /-- A string of at most eighty bytes is shown whole. -/
  whole : s.utf8ByteSize ≤ 80 → text = Text.quote s
  /-- A longer one is cut at the last place between two characters among its first eighty bytes,
  which is at most three bytes before the end of these. -/
  cut : 80 < s.utf8ByteSize → ∃ front rest, IsCut 80 s front ∧
    (s.posLE ⟨80⟩).Splits front rest ∧ 77 ≤ front.utf8ByteSize ∧ text = Text.quote front ++ "..."

theorem shownAs_describe (s : String) : ShownAs s (describe (some (.str s))) where
  whole := by
    intro hshort
    exact if_neg (Nat.not_lt.mpr hshort)
  cut := by
    intro hlong
    have hcut := isCut_takeBytes 80 s
    obtain ⟨rest, hsplits⟩ := hcut.exists_splits
    have hlimit := hcut.limit_le hlong
    exact ⟨_, rest, hcut, hsplits, by omega, if_pos hlong⟩

namespace Schema

/-- **Strings are cut between characters**, every one of them and wherever it stands in a value that
is refused because of it. -/
theorem validate_cuts_between_characters (s : String) :
    ShownAs s (describe (some (.str s))) ∧
    ∀ (schema part : Schema) (v : Json) (path : List Step),
      Culprit schema (some v) path part (some (.str s)) → ∀ method root : String,
        ∃ e, schema.validate method root v = .error e ∧ ShownAs s e.actual := by
  refine ⟨shownAs_describe s, ?_⟩
  intro schema part v path hculprit method root
  exact ⟨_, validate_eq_error_iff.mpr ⟨_, hculprit.check, rfl⟩, shownAs_describe s⟩

/-- A character of one byte and twenty of four bytes make 81 bytes, and the first eighty of them end
inside a character. The text is refused as an address, in a member of an object. -/
theorem validate_cuts_between_characters_member :
    (String.ofList ('a' :: List.replicate 20 '😀')).utf8ByteSize = 81 ∧
    ∃ e, validate (.record [("to", .address)]) "eth_call" "params[0]"
        (.obj [("to", .str (String.ofList ('a' :: List.replicate 20 '😀')))]) = .error e ∧
      ShownAs (String.ofList ('a' :: List.replicate 20 '😀')) e.actual := by
  refine ⟨by decide, (validate_cuts_between_characters _).2 _ .address _ [.field "to"] ?_ _ _⟩
  exact (check_eq_error_iff (m := ⟨[.field "to"], .address, some (.str _)⟩)).mp rfl

end Schema

end LocalNode
