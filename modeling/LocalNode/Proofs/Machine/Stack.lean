import LocalNode.Machine.Stack

/-!
The operand stack as a list.

A stack keeps its words in an array, the topmost last, and takes depths to positions by counting
from the end. `words` reads the array the other way round, and every operation is first described by
what it does to that list.

`Does` then says what each operation does to a list of words, the topmost first. Positions are not
counted there: a word at some depth is one that has so many words above it, so an operation applies
where the list can be split in this way. For every list exactly one rule applies, and it is the one
that the operation on the array follows. Whatever the rules keep, such as the bound on the length,
is therefore kept by every sequence of operations.
-/

namespace LocalNode.Machine.Stack

/-! ### The list of the words

An array and the list of its words determine each other, so a stack may be given by either.
-/

/-- The stack of the given words, the topmost first. -/
def ofWords (ws : List Word) : Stack :=
  ⟨ws.reverse.toArray⟩

/-- The stack with a word on top, whatever its depth. -/
def cons (w : Word) (s : Stack) : Stack :=
  ofWords (w :: s.words)

/-- The stack without its `n` topmost words. -/
def drop (n : Nat) (s : Stack) : Stack :=
  ofWords (s.words.drop n)

@[simp]
theorem words_ofWords (ws : List Word) : (ofWords ws).words = ws := by
  simp [words, ofWords]

@[simp]
theorem ofWords_words (s : Stack) : ofWords s.words = s := by
  simp [words, ofWords]

@[simp]
theorem size_ofWords (ws : List Word) : (ofWords ws).data.size = ws.length := by
  simp [ofWords]

/-- A stack is its words. -/
theorem eq_of_words {s s' : Stack} (h : s.words = s'.words) : s = s' := by
  rw [← ofWords_words s, h, ofWords_words]

theorem depth_eq (s : Stack) : s.depth = s.words.length := by
  simp [depth, words]

@[simp]
theorem words_cons (w : Word) (s : Stack) : (s.cons w).words = w :: s.words :=
  words_ofWords _

@[simp]
theorem words_drop (n : Nat) (s : Stack) : (s.drop n).words = s.words.drop n :=
  words_ofWords _

@[simp]
theorem depth_cons (w : Word) (s : Stack) : (s.cons w).depth = s.depth + 1 := by
  rw [depth_eq, depth_eq, words_cons, List.length_cons]

@[simp]
theorem depth_drop (n : Nat) (s : Stack) : (s.drop n).depth = s.depth - n := by
  rw [depth_eq, depth_eq, words_drop, List.length_drop]

/-- A word at a depth has so many words above it. -/
theorem exists_split {d : Nat} {ws : List Word} (h : d < ws.length) :
    ∃ above w below, ws = above ++ w :: below ∧ above.length = d :=
  ⟨ws.take d, ws[d], ws.drop (d + 1), by simp, by simp; omega⟩

/-! ### Operations on the array

Where an operation succeeds the list is given as it is split there. The position from the end of the
array is then the length of what lies below.
-/

section Array

variable {s : Stack}

theorem push_of_room (w : Word) (h : s.depth < limit) : s.push w = (.ok (), s.cons w) := by
  have hroom : ¬ limit ≤ s.data.size := Nat.not_le.mpr h
  have hwords : (⟨s.data.push w⟩ : Stack).words = (s.cons w).words := by
    simp [words, cons, ofWords]
  rw [push, if_neg hroom, eq_of_words hwords]

theorem push_of_full (w : Word) (h : limit ≤ s.depth) : s.push w = (.error .stackOverflow, s) :=
  if_pos h

theorem pop_cons (w : Word) (ws : List Word) : (ofWords (w :: ws)).pop = (.ok w, ofWords ws) := by
  simp [pop, ofWords]

theorem pop_of_short (h : s.depth < 1) : s.pop = (.error .stackUnderflow, s) := by
  have hnone : s.data.back? = none := by
    rw [Array.back?_eq_none_iff]
    exact Array.eq_empty_of_size_eq_zero (Nat.lt_one_iff.mp h)
  rw [pop, hnone]

theorem pop_of_enough (h : 1 ≤ s.depth) :
    ∃ w, s.pop = (.ok w, s.drop 1) ∧ s.words[0]? = some w := by
  rw [depth_eq] at h
  cases hwords : s.words with
  | nil => simp [hwords] at h
  | cons w ws =>
      refine ⟨w, ?_, rfl⟩
      have hpop := pop_cons w ws
      rw [← hwords, ofWords_words] at hpop
      rw [hpop, drop, hwords, List.drop_one, List.tail_cons]

/-- Taking words one after another takes the first ones of the list. The induction is on their
number: the last of them is on top when the others are gone. -/
theorem popEach_of_le {n : Nat} (h : n ≤ s.words.length) :
    ∃ ws : Vector Word n, s.popEach n = (.ok ws, s.drop n) ∧ ws.toList = s.words.take n := by
  induction n with
  | zero => exact ⟨#v[], by simp [popEach, drop], rfl⟩
  | succ n ih =>
      obtain ⟨ws, hpops, hws⟩ := ih (Nat.le_of_succ_le h)
      have hnext : (s.drop n).pop = (.ok s.words[n], s.drop (n + 1)) := by
        rw [drop, List.drop_eq_getElem_cons h, pop_cons, drop]
      refine ⟨ws.push s.words[n], ?_, ?_⟩
      · simp only [popEach, hpops, hnext]
      · rw [Vector.toList_push, hws, List.take_succ_eq_append_getElem h]

theorem popN_of_short {n : Nat} (h : s.depth < n) : s.popN n = (.error .stackUnderflow, s) :=
  if_pos h

theorem popN_of_enough {n : Nat} (h : n ≤ s.depth) :
    ∃ ws : Vector Word n, s.popN n = (.ok ws, s.drop n) ∧ ws.toList = s.words.take n := by
  have henough : ¬ s.data.size < n := Nat.not_lt.mpr h
  rw [popN, if_neg henough]
  exact popEach_of_le (by rwa [← depth_eq])

theorem peek_cons (w : Word) (ws : List Word) : (ofWords (w :: ws)).peek = .ok w := by
  simp [peek, ofWords]

theorem peekAt_split (above : List Word) (w : Word) (below : List Word) :
    (ofWords (above ++ w :: below)).peekAt above.length = .ok w := by
  have hinside : ¬ (ofWords (above ++ w :: below)).data.size ≤ above.length := by
    rw [size_ofWords, List.length_append, List.length_cons]
    omega
  rw [peekAt, dif_neg hinside]
  simp [ofWords]

theorem peekAt_of_short {d : Nat} (h : s.depth ≤ d) : s.peekAt d = .error .stackUnderflow :=
  dif_pos h

theorem swap_split (top : Word) (between : List Word) (other : Word) (below : List Word) :
    (ofWords (top :: between ++ other :: below)).swap (between.length + 1) =
      (.ok (), ofWords (other :: between ++ top :: below)) := by
  have hinside : ¬ (between.length + 1 = 0 ∨
      (ofWords (top :: between ++ other :: below)).data.size ≤ between.length + 1) := by
    rw [size_ofWords, List.length_append, List.length_cons, List.length_cons]
    omega
  rw [swap, dif_neg hinside]
  simp [ofWords]

theorem swap_of_short {d : Nat} (h : d = 0 ∨ s.depth ≤ d) :
    s.swap d = (.error .stackUnderflow, s) :=
  dif_pos h

theorem dup_split {above : List Word} {w : Word} {below : List Word}
    (h : (above ++ w :: below).length < limit) :
    (ofWords (above ++ w :: below)).dup (above.length + 1) =
      (.ok (), ofWords (w :: (above ++ w :: below))) := by
  have hinside : ¬ (above.length + 1 = 0 ∨
      (ofWords (above ++ w :: below)).data.size < above.length + 1) := by
    rw [size_ofWords, List.length_append, List.length_cons]
    omega
  have hroom : ¬ limit ≤ (ofWords (above ++ w :: below)).data.size := by
    rw [size_ofWords]
    omega
  rw [dup, dif_neg hinside, if_neg hroom]
  simp [ofWords]

theorem dup_of_short {place : Nat} (h : place = 0 ∨ s.depth < place) :
    s.dup place = (.error .stackUnderflow, s) :=
  dif_pos h

theorem dup_of_full {place : Nat} (hfound : 1 ≤ place ∧ place ≤ s.depth) (hfull : limit ≤ s.depth) :
    s.dup place = (.error .stackOverflow, s) := by
  have hinside : ¬ (place = 0 ∨ s.data.size < place) := by
    have hle : place ≤ s.data.size := hfound.2
    omega
  rw [dup, dif_neg hinside]
  exact if_pos hfull

/-- Where there is room, copying a word that is there puts it on top. -/
theorem dup_of_enough {d : Nat} (h : d < s.depth) (hroom : s.depth < limit) :
    ∃ w, s.dup (d + 1) = (.ok (), s.cons w) := by
  rw [depth_eq] at h hroom
  obtain ⟨above, w, below, hwords, rfl⟩ := exists_split h
  rw [hwords] at hroom
  refine ⟨w, ?_⟩
  rw [cons, hwords, ← dup_split hroom, ← hwords, ofWords_words]

/-- Exchanging two words keeps those below. -/
theorem swap_of_enough {d : Nat} (h : d + 1 < s.depth) :
    ∃ s', s.swap (d + 1) = (.ok (), s') ∧ s'.depth = s.depth ∧
      s'.words.drop (d + 2) = s.words.drop (d + 2) := by
  rw [depth_eq] at h
  obtain ⟨above, other, below, hwords, hlength⟩ := exists_split h
  cases above with
  | nil => exact absurd hlength.symm (Nat.succ_ne_zero d)
  | cons top between =>
      obtain rfl : between.length = d := Nat.succ.inj hlength
      have hswap := swap_split top between other below
      rw [← hwords, ofWords_words] at hswap
      refine ⟨_, hswap, ?_, ?_⟩
      · rw [depth_eq, depth_eq, words_ofWords, hwords]
        simp
      · rw [words_ofWords, hwords]
        simp

end Array

/-! ### Operations -/

/-- An operation on a stack. -/
inductive Op where
  | push (w : Word)
  | pop
  | popN (n : Nat)
  | peek
  | peekAt (d : Nat)
  | swap (d : Nat)
  | dup (place : Nat)

/-- What an operation answers. -/
inductive Reply where
  | done
  | word (w : Word)
  | words (ws : List Word)

/-- What an operation answers, and the stack that it leaves behind. -/
def Op.perform (s : Stack) : Op → Except Fault Reply × Stack
  | .push w => (s.push w).map (.map fun _ => .done) id
  | .pop => s.pop.map (.map .word) id
  | .popN n => (s.popN n).map (.map fun ws => .words ws.toList) id
  | .peek => (s.peek.map .word, s)
  | .peekAt d => ((s.peekAt d).map .word, s)
  | .swap d => (s.swap d).map (.map fun _ => .done) id
  | .dup place => (s.dup place).map (.map fun _ => .done) id

/-- The answers to operations that are carried out one after another, and the stack after them. -/
def performAll : List Op → Stack → List (Except Fault Reply) × Stack
  | [], s => ([], s)
  | op :: rest, s =>
    ((op.perform s).1 :: (performAll rest (op.perform s).2).1,
      (performAll rest (op.perform s).2).2)

/-! ### What operations do to a list

The rules name the parts of the list and no positions in it. There is a rule for every list and
every operation, failures included, so an operation that keeps to them is determined by them.
-/

/-- What an operation does to a list of words, the topmost first: the list before, the answer, and
the list after. -/
inductive Does : Op → List Word → Except Fault Reply → List Word → Prop
  | push {w : Word} {ws : List Word} (room : ws.length < 1024) :
      Does (.push w) ws (.ok .done) (w :: ws)
  | pushFull {w : Word} {ws : List Word} (full : 1024 ≤ ws.length) :
      Does (.push w) ws (.error .stackOverflow) ws
  | pop {w : Word} {ws : List Word} : Does .pop (w :: ws) (.ok (.word w)) ws
  | popShort : Does .pop [] (.error .stackUnderflow) []
  | popN {taken ws : List Word} :
      Does (.popN taken.length) (taken ++ ws) (.ok (.words taken)) ws
  | popNShort {n : Nat} {ws : List Word} (short : ws.length < n) :
      Does (.popN n) ws (.error .stackUnderflow) ws
  | peek {w : Word} {ws : List Word} : Does .peek (w :: ws) (.ok (.word w)) (w :: ws)
  | peekShort : Does .peek [] (.error .stackUnderflow) []
  | peekAt {above : List Word} {w : Word} {below : List Word} :
      Does (.peekAt above.length) (above ++ w :: below) (.ok (.word w)) (above ++ w :: below)
  | peekAtShort {d : Nat} {ws : List Word} (short : ws.length ≤ d) :
      Does (.peekAt d) ws (.error .stackUnderflow) ws
  | swap {top : Word} {between : List Word} {other : Word} {below : List Word} :
      Does (.swap (between.length + 1)) (top :: between ++ other :: below) (.ok .done)
        (other :: between ++ top :: below)
  | swapShort {d : Nat} {ws : List Word} (short : d = 0 ∨ ws.length ≤ d) :
      Does (.swap d) ws (.error .stackUnderflow) ws
  | dup {above : List Word} {w : Word} {below : List Word}
      (room : (above ++ w :: below).length < 1024) :
      Does (.dup (above.length + 1)) (above ++ w :: below) (.ok .done) (w :: (above ++ w :: below))
  | dupFull {place : Nat} {ws : List Word} (found : 1 ≤ place ∧ place ≤ ws.length)
      (full : 1024 ≤ ws.length) : Does (.dup place) ws (.error .stackOverflow) ws
  | dupShort {place : Nat} {ws : List Word} (short : place = 0 ∨ ws.length < place) :
      Does (.dup place) ws (.error .stackUnderflow) ws

/-- What operations do to a list one after another. -/
inductive DoesAll : List Op → List Word → List (Except Fault Reply) → List Word → Prop
  | nil {ws : List Word} : DoesAll [] ws [] ws
  | cons {op : Op} {ops : List Op} {ws ws' ws'' : List Word} {reply : Except Fault Reply}
      {replies : List (Except Fault Reply)} (first : Does op ws reply ws')
      (rest : DoesAll ops ws' replies ws'') : DoesAll (op :: ops) ws (reply :: replies) ws''

/-- Some rule applies to every list. -/
theorem exists_does (op : Op) (ws : List Word) : ∃ reply ws', Does op ws reply ws' := by
  cases op with
  | push w =>
      rcases Nat.lt_or_ge ws.length 1024 with hroom | hfull
      · exact ⟨_, _, .push hroom⟩
      · exact ⟨_, _, .pushFull hfull⟩
  | pop =>
      cases ws with
      | nil => exact ⟨_, _, .popShort⟩
      | cons w ws => exact ⟨_, _, .pop⟩
  | popN n =>
      rcases Nat.lt_or_ge ws.length n with hshort | henough
      · exact ⟨_, _, .popNShort hshort⟩
      · have hlength : (ws.take n).length = n := List.length_take_of_le henough
        have hdoes : Does (.popN (ws.take n).length) (ws.take n ++ ws.drop n)
            (.ok (.words (ws.take n))) (ws.drop n) := .popN
        rw [hlength, List.take_append_drop] at hdoes
        exact ⟨_, _, hdoes⟩
  | peek =>
      cases ws with
      | nil => exact ⟨_, _, .peekShort⟩
      | cons w ws => exact ⟨_, _, .peek⟩
  | peekAt d =>
      rcases Nat.lt_or_ge d ws.length with henough | hshort
      · obtain ⟨above, w, below, rfl, rfl⟩ := exists_split henough
        exact ⟨_, _, .peekAt⟩
      · exact ⟨_, _, .peekAtShort hshort⟩
  | swap d =>
      rcases Nat.eq_zero_or_pos d with hzero | hpos
      · exact ⟨_, _, .swapShort (.inl hzero)⟩
      rcases Nat.lt_or_ge d ws.length with henough | hshort
      · obtain ⟨above, other, below, rfl, rfl⟩ := exists_split henough
        cases above with
        | nil => exact absurd hpos (Nat.lt_irrefl 0)
        | cons top between => exact ⟨_, _, .swap⟩
      · exact ⟨_, _, .swapShort (.inr hshort)⟩
  | dup place =>
      rcases Nat.lt_or_ge ws.length place with hshort | henough
      · exact ⟨_, _, .dupShort (.inr hshort)⟩
      rcases Nat.lt_or_ge ws.length 1024 with hroom | hfull
      · cases place with
        | zero => exact ⟨_, _, .dupShort (.inl rfl)⟩
        | succ d =>
            obtain ⟨above, w, below, rfl, rfl⟩ := exists_split henough
            exact ⟨_, _, .dup hroom⟩
      · rcases Nat.eq_zero_or_pos place with hzero | hpos
        · exact ⟨_, _, .dupShort (.inl hzero)⟩
        · exact ⟨_, _, .dupFull ⟨hpos, henough⟩ hfull⟩

/-! ### What the rules say -/

namespace Does

variable {op : Op} {ws ws' : List Word} {reply : Except Fault Reply}

theorem length_le (h : Does op ws reply ws') (hws : ws.length ≤ 1024) : ws'.length ≤ 1024 := by
  cases h with
  | push room => exact room
  | dup room => exact room
  | pop => exact Nat.le_of_succ_le hws
  | popN =>
      rw [List.length_append] at hws
      exact Nat.le_trans (Nat.le_add_left ..) hws
  | swap => simpa using hws
  | _ => exact hws

theorem eq_of_error {fault : Fault} (h : Does op ws (.error fault) ws') : ws' = ws := by
  cases h <;> rfl

theorem swap_back {d : Nat} (h : Does (.swap d) ws (.ok .done) ws') :
    Does (.swap d) ws' (.ok .done) ws := by
  cases h with
  | swap => exact .swap

theorem swap_getElem? {d : Nat} (h : Does (.swap d) ws (.ok .done) ws') (i : Nat) :
    ws'[i]? = ws[if i = 0 then d else if i = d then 0 else i]? := by
  cases h with
  | @swap top between other below =>
      by_cases hzero : i = 0
      · simp [hzero]
      by_cases hd : i = between.length + 1
      · simp [hd]
      -- Behind the top the two lists differ in one place, which is not this one.
      obtain ⟨j, rfl⟩ := Nat.exists_eq_succ_of_ne_zero hzero
      have hj : j ≠ between.length := fun h => hd (congrArg Nat.succ h)
      simp only [if_neg hzero, if_neg hd, List.cons_append, List.getElem?_cons_succ,
        List.getElem?_append, List.getElem?_cons, Nat.sub_eq_zero_iff_le]
      split
      · rfl
      · rw [if_neg (by omega), if_neg (by omega)]

theorem exists_swap_iff {d : Nat} :
    (∃ ws', Does (.swap d) ws (.ok .done) ws') ↔ 1 ≤ d ∧ d < ws.length := by
  constructor
  · intro h
    obtain ⟨ws', hdoes⟩ := h
    cases hdoes with
    | swap => simp
  · intro h
    obtain ⟨reply, ws', hdoes⟩ := exists_does (.swap d) ws
    cases hdoes with
    | swap => exact ⟨_, .swap⟩
    | swapShort short => omega

theorem dup_pop {place : Nat} (h : Does (.dup place) ws (.ok .done) ws') :
    ∃ w, ws[place - 1]? = some w ∧ ws' = w :: ws ∧ Does .pop ws' (.ok (.word w)) ws := by
  cases h with
  | dup room => exact ⟨_, by simp, rfl, .pop⟩

theorem exists_dup_iff {place : Nat} :
    (∃ ws', Does (.dup place) ws (.ok .done) ws') ↔
      1 ≤ place ∧ place ≤ ws.length ∧ ws.length < 1024 := by
  constructor
  · intro h
    obtain ⟨ws', hdoes⟩ := h
    cases hdoes with
    | dup room => exact ⟨Nat.succ_pos _, by simp, room⟩
  · intro h
    obtain ⟨reply, ws', hdoes⟩ := exists_does (.dup place) ws
    cases hdoes with
    | dup room => exact ⟨_, .dup room⟩
    | dupFull found full => omega
    | dupShort short => omega

end Does

/-! ### One operation

The array does what each rule says, on the stack that is given by the list of the rule. That
suffices, as some rule applies to every stack.
-/

theorem perform_popN_split (taken ws : List Word) :
    (Op.popN taken.length).perform (ofWords (taken ++ ws)) =
      (.ok (.words taken), ofWords ws) := by
  have henough : taken.length ≤ (ofWords (taken ++ ws)).depth := by
    rw [depth_eq, words_ofWords, List.length_append]
    omega
  obtain ⟨taken', hpops, htaken⟩ := popN_of_enough henough
  rw [words_ofWords, List.take_left] at htaken
  rw [Op.perform, hpops, Prod.map_apply, Except.map, htaken, drop, words_ofWords, List.drop_left,
    id]

/-- The rule that applies to the words of a stack is what the operation does to it. -/
theorem Does.perform {op : Op} {ws ws' : List Word} {reply : Except Fault Reply}
    (h : Does op ws reply ws') : op.perform (ofWords ws) = (reply, ofWords ws') := by
  have hdepth : (ofWords ws).depth = ws.length := size_ofWords ws
  cases h with
  | @push w _ room =>
      rw [Op.perform, push_of_room w (by rw [hdepth]; exact room), cons, words_ofWords]
      rfl
  | @pushFull w _ full =>
      rw [Op.perform, push_of_full w (by rw [hdepth]; exact full)]
      rfl
  | pop =>
      rw [Op.perform, pop_cons]
      rfl
  | popShort => rfl
  | popN => exact perform_popN_split ..
  | popNShort short =>
      rw [Op.perform, popN_of_short (by rw [hdepth]; exact short)]
      rfl
  | peek =>
      rw [Op.perform, peek_cons]
      rfl
  | peekShort => rfl
  | peekAt =>
      rw [Op.perform, peekAt_split]
      rfl
  | peekAtShort short =>
      rw [Op.perform, peekAt_of_short (by rw [hdepth]; exact short)]
      rfl
  | swap =>
      rw [Op.perform, swap_split]
      rfl
  | swapShort short =>
      rw [Op.perform, swap_of_short (by rw [hdepth]; exact short)]
      rfl
  | dup room =>
      rw [Op.perform, dup_split room]
      rfl
  | dupFull found full =>
      rw [Op.perform, dup_of_full (by rw [hdepth]; exact found) (by rw [hdepth]; exact full)]
      rfl
  | dupShort short =>
      rw [Op.perform, dup_of_short (by rw [hdepth]; exact short)]
      rfl

/-- Every operation follows the one rule that applies. -/
theorem perform_iff {op : Op} {s s' : Stack} {reply : Except Fault Reply} :
    op.perform s = (reply, s') ↔ Does op s.words reply s'.words := by
  constructor
  · intro h
    obtain ⟨reply', ws', hdoes⟩ := exists_does op s.words
    have hperform := hdoes.perform
    rw [ofWords_words, h] at hperform
    obtain ⟨rfl, rfl⟩ := Prod.mk.inj hperform
    rwa [words_ofWords]
  · intro h
    have hperform := h.perform
    rwa [ofWords_words, ofWords_words] at hperform

/-! ### Many operations -/

theorem performAll_does (ops : List Op) (s : Stack) :
    DoesAll ops s.words (performAll ops s).1 (performAll ops s).2.words := by
  induction ops generalizing s with
  | nil => exact .nil
  | cons op ops ih => exact .cons (perform_iff.mp rfl) (ih (op.perform s).2)

theorem DoesAll.length_le {ops : List Op} {ws ws' : List Word}
    {replies : List (Except Fault Reply)} (h : DoesAll ops ws replies ws')
    (hws : ws.length ≤ 1024) : ws'.length ≤ 1024 := by
  induction h with
  | nil => exact hws
  | cons first rest ih => exact ih (first.length_le hws)

/-! ### Stacks as lists

The rules speak of answers, and so does `ActsAsList` where it speaks of all operations. What it says
of single ones is said of the operations themselves.
-/

theorem map_done_iff {s' : Stack} {r : Except Fault Unit × Stack} :
    r.map (Except.map fun _ => Reply.done) id = (.ok .done, s') ↔ r = (.ok (), s') := by
  obtain ⟨result, s⟩ := r
  cases result <;> simp [Except.map]

theorem swap_eq_ok_iff {d : Nat} {s s' : Stack} :
    s.swap d = (.ok (), s') ↔ Does (.swap d) s.words (.ok .done) s'.words := by
  rw [← perform_iff, Op.perform, map_done_iff]

theorem dup_eq_ok_iff {place : Nat} {s s' : Stack} :
    s.dup place = (.ok (), s') ↔ Does (.dup place) s.words (.ok .done) s'.words := by
  rw [← perform_iff, Op.perform, map_done_iff]

theorem pop_eq_ok_iff {s s' : Stack} {w : Word} :
    s.pop = (.ok w, s') ↔ Does .pop s.words (.ok (.word w)) s'.words := by
  rw [← perform_iff, Op.perform]
  obtain ⟨result, s''⟩ := s.pop
  cases result <;> simp [Except.map]

theorem peekAt_eq_ok_iff {d : Nat} {s : Stack} {w : Word} :
    s.peekAt d = .ok w ↔ s.words[d]? = some w := by
  by_cases h : d < s.words.length
  · obtain ⟨above, w', below, hwords, rfl⟩ := exists_split h
    have hpeek := peekAt_split above w' below
    rw [← hwords, ofWords_words] at hpeek
    simp [hpeek, hwords]
  · have hshort : s.depth ≤ d := by
      rw [depth_eq]
      exact Nat.le_of_not_lt h
    simp [peekAt_of_short hshort, Nat.le_of_not_lt h]

theorem popN_eq_ok_iff {n : Nat} {s s' : Stack} :
    (∃ ws, s.popN n = (.ok ws, s') ∧ ws.toList = s.words.take n) ↔
      n ≤ s.words.length ∧ s'.words = s.words.drop n := by
  by_cases h : n ≤ s.words.length
  · have henough : n ≤ s.depth := by rwa [depth_eq]
    obtain ⟨ws, hpops, hws⟩ := popN_of_enough henough
    constructor
    · intro hpopped
      obtain ⟨ws', hpops', -⟩ := hpopped
      rw [hpops] at hpops'
      cases hpops'
      exact ⟨h, words_drop n s⟩
    · intro hdropped
      have hs' : s' = s.drop n := eq_of_words (by rw [hdropped.2, words_drop])
      exact ⟨ws, by rw [hpops, hs'], hws⟩
  · have hshort : s.depth < n := by
      rw [depth_eq]
      exact Nat.lt_of_not_le h
    rw [popN_of_short hshort]
    simp [h]

/-- There is a stack for every list of words that an operation may leave. -/
theorem exists_stack_iff {r : Except Fault Unit × Stack} {P : List Word → Prop}
    (h : ∀ s', r = (.ok (), s') ↔ P s'.words) : (∃ s', r = (.ok (), s')) ↔ ∃ ws', P ws' := by
  constructor
  · intro hr
    obtain ⟨s', hs'⟩ := hr
    exact ⟨_, (h s').mp hs'⟩
  · intro hP
    obtain ⟨ws', hws'⟩ := hP
    refine ⟨ofWords ws', (h _).mpr ?_⟩
    rwa [words_ofWords]

/-- A stack cannot be told from the list of its words. -/
structure ActsAsList (s : Stack) : Prop where
  bounded : s.words.length ≤ 1024
  /-- Operations follow the rules for lists. -/
  follows : ∀ (op : Op) reply s', op.perform s = (reply, s') ↔ Does op s.words reply s'.words
  /-- Operations that fail leave the array behind as it was. -/
  failed : ∀ (op : Op) fault s', op.perform s = (.error fault, s') → s' = s
  /-- As many words are taken as were asked for, the topmost first, or none. -/
  popN_iff : ∀ n s', (∃ ws, s.popN n = (.ok ws, s') ∧ ws.toList = s.words.take n) ↔
    n ≤ s.words.length ∧ s'.words = s.words.drop n
  peekAt_iff : ∀ d w, s.peekAt d = .ok w ↔ s.words[d]? = some w
  swap_iff : ∀ d, (∃ s', s.swap d = (.ok (), s')) ↔ 1 ≤ d ∧ d < s.words.length
  /-- The first position and the given one are exchanged, and the others are kept. -/
  swapped : ∀ d s', s.swap d = (.ok (), s') →
    ∀ i, s'.words[i]? = s.words[if i = 0 then d else if i = d then 0 else i]?
  /-- Exchanging twice changes nothing. -/
  swap_back : ∀ d s', s.swap d = (.ok (), s') → s'.swap d = (.ok (), s)
  dup_iff : ∀ place, (∃ s', s.dup place = (.ok (), s')) ↔
    1 ≤ place ∧ place ≤ s.words.length ∧ s.words.length < 1024
  /-- What was copied to the top is taken from there again. -/
  dup_pop : ∀ place s', s.dup place = (.ok (), s') →
    ∃ w, s.words[place - 1]? = some w ∧ s'.words = w :: s.words ∧ s'.pop = (.ok w, s)

theorem actsAsList {s : Stack} (h : s.words.length ≤ 1024) : s.ActsAsList where
  bounded := h
  follows _ _ _ := perform_iff
  failed := by
    intro op fault s' hperform
    exact eq_of_words (perform_iff.mp hperform).eq_of_error
  popN_iff _ _ := popN_eq_ok_iff
  peekAt_iff _ _ := peekAt_eq_ok_iff
  swap_iff _ := (exists_stack_iff fun _ => swap_eq_ok_iff).trans Does.exists_swap_iff
  swapped := by
    intro d s' hswap
    exact (swap_eq_ok_iff.mp hswap).swap_getElem?
  swap_back := by
    intro d s' hswap
    exact swap_eq_ok_iff.mpr (swap_eq_ok_iff.mp hswap).swap_back
  dup_iff _ := (exists_stack_iff fun _ => dup_eq_ok_iff).trans Does.exists_dup_iff
  dup_pop := by
    intro place s' hdup
    obtain ⟨w, hw, hwords, hpop⟩ := (dup_eq_ok_iff.mp hdup).dup_pop
    exact ⟨w, hw, hwords, pop_eq_ok_iff.mpr hpop⟩

/-- **A stack cannot be told from a list of at most 1024 words.** Whatever operations are carried
out on the empty stack, their answers and the words left are those that the rules for lists give. So
it is with the operation that follows, and what the rules say of lists holds of stacks. -/
theorem performAll_actsAsList (ops : List Op) :
    DoesAll ops [] (performAll ops .empty).1 (performAll ops .empty).2.words ∧
      (performAll ops .empty).2.ActsAsList := by
  have hdoes := performAll_does ops .empty
  exact ⟨hdoes, actsAsList (hdoes.length_le (Nat.zero_le _))⟩

example : (performAll [.push 1, .push 2, .push 3, .swap 2, .dup 3, .swap 0] .empty).2.words =
    [3, 1, 2, 3] :=
  rfl

end LocalNode.Machine.Stack
