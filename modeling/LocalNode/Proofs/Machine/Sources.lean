import LocalNode.Proofs.Machine.Growth
import LocalNode.Proofs.Machine.Operators

/-!
What instructions read of code and of call data.

Code and call data end somewhere, and an instruction may read beyond. The machine takes the part
that is there, bounded by the end of the array, and puts it in its place among zeros. Read byte by
byte this is as if infinitely many zeros followed the array: what `Bytes.byteAt` gives at an offset
is what every instruction finds there. Offsets are words, which may be larger than any length. They
are never reduced, so nothing wraps around to the first bytes.

A push reads its immediate bytes from the code, however many of them the code has. A load reads one
word of the call data. The two copies write a range of memory, and what they write is found in
memory afterwards, seen as a tape.
-/

namespace LocalNode

namespace Bytes

theorem readNat_lt (a : ByteArray) (offset count : Nat) : readNat a offset count < 256 ^ count := by
  induction count with
  | zero => exact Nat.one_pos
  | succ count ih =>
      have hbyte := (byteAt a (offset + count)).toNat_lt
      rw [readNat, Nat.pow_succ]
      omega

/-- The same bytes stand for the same number, wherever they are. -/
theorem readNat_congr {a b : ByteArray} {offset place count : Nat}
    (h : ∀ i, i < count → byteAt a (offset + i) = byteAt b (place + i)) :
    readNat a offset count = readNat b place count := by
  induction count with
  | zero => rfl
  | succ count ih =>
      rw [readNat, readNat, ih fun i hi => h i (Nat.lt_succ_of_lt hi), h count (Nat.lt_succ_self _)]

theorem readNat_of_zeros {a : ByteArray} {count : Nat} (h : ∀ i, i < count → byteAt a i = 0) :
    readNat a 0 count = 0 := by
  induction count with
  | zero => rfl
  | succ count ih =>
      rw [readNat, Nat.zero_add, h count (Nat.lt_succ_self _),
        ih fun i hi => h i (Nat.lt_succ_of_lt hi)]
      rfl

/-- Zeros in front do not count. -/
theorem readNat_add_of_zeros {a : ByteArray} {lead : Nat} (h : ∀ i, i < lead → byteAt a i = 0)
    (count : Nat) : readNat a 0 (lead + count) = readNat a lead count := by
  induction count with
  | zero => exact readNat_of_zeros h
  | succ count ih => rw [← Nat.add_assoc, readNat, readNat, ih, Nat.zero_add]

/-! ### Parts among zeros

Both readers find the part that a range has in common with an array and copy it over zeros, to the
front or so far to the right that the range ends where the word ends. Where the array has nothing,
zeros remain.
-/

/-- The part of an array that a range has in common with it holds the bytes of the range, and no
others. -/
theorem byteAt_bounded (a : ByteArray) (offset count i : Nat) :
    byteAt (a.extract (min offset a.size) (min (offset + count) a.size)) i =
      if i < count then byteAt a (offset + i) else 0 := by
  rw [byteAt_extract]
  by_cases hinside : offset + i < a.size
  · have hstart : min offset a.size = offset := by omega
    rw [hstart]
    by_cases hcount : i < count
    · rw [if_pos (by omega), if_pos hcount]
    · rw [if_neg (by omega), if_neg hcount]
  · rw [if_neg (by omega), byteAt_of_size_le (a := a) (i := offset + i) (by omega), ite_self]

theorem size_bounded_le (a : ByteArray) (offset count : Nat) :
    (a.extract (min offset a.size) (min (offset + count) a.size)).size ≤ count := by
  rw [ByteArray.size_extract]
  omega

/-- From its place on, a part that was put among zeros is followed by zeros. -/
theorem byteAt_overwrite_zeros {size place : Nat} {part : ByteArray}
    (h : place + part.size ≤ size) (i : Nat) :
    byteAt (overwrite (zeros size) place part) (place + i) = byteAt part i := by
  rw [byteAt_overwrite (by rwa [size_zeros]), byteAt_zeros]
  by_cases hinside : i < part.size
  · rw [if_pos (by omega), Nat.add_sub_cancel_left]
  · rw [if_neg (by omega), byteAt_of_size_le (Nat.le_of_not_lt hinside)]

/-- Before its place there are zeros only. -/
theorem byteAt_overwrite_zeros_of_lt {size place i : Nat} {part : ByteArray}
    (h : place + part.size ≤ size) (hi : i < place) :
    byteAt (overwrite (zeros size) place part) i = 0 := by
  rw [byteAt_overwrite (by rwa [size_zeros]), byteAt_zeros, if_neg (by omega)]

/-- Bytes that are collected from an array are its bytes, with zeros behind its end. The length of
an array is a number of 64 bits, so an offset that is not lies behind the end. -/
theorem byteAt_padded {source : ByteArray} (hsource : source.size < UInt64.size) (offset : Word)
    {count i : Nat} (hi : i < count) :
    byteAt (padded source offset count) i = byteAt source (offset.toNat + i) := by
  rw [padded, Word.below?_eq (Nat.le_of_lt hsource)]
  by_cases hinside : offset.toNat < source.size
  · have hstart : min offset.toNat source.size = offset.toNat := by omega
    have hstop : min (Index.saturatingAdd offset.toNat count) source.size =
        min (offset.toNat + count) source.size := by
      rw [Index.saturatingAdd]
      omega
    have hfits : 0 + (source.extract (min offset.toNat source.size)
        (min (offset.toNat + count) source.size)).size ≤ count := by
      rw [Nat.zero_add]
      exact size_bounded_le ..
    have hbytes := byteAt_overwrite_zeros hfits i
    rw [Nat.zero_add, byteAt_bounded, if_pos hi, hstart] at hbytes
    simp only [if_pos hinside, hstop]
    exact hbytes
  · have hbehind : source.size ≤ offset.toNat + i := by omega
    simp only [if_neg hinside]
    rw [byteAt_zeros, byteAt_of_size_le hbehind]

/-- A word of collected bytes is the word that is read there. -/
theorem toWord_padded {source : ByteArray} (hsource : source.size < UInt64.size) (offset : Word)
    (count : Nat) :
    toWord (padded source offset count) = Word.ofNat (readLong source offset.toNat count) := by
  rw [toWord, size_padded, readLong_eq, readLong_eq]
  refine congrArg Word.ofNat (readNat_congr fun i hi => ?_)
  rw [Nat.zero_add, byteAt_padded hsource offset hi]

end Bytes

namespace Machine

/-- The number that `count` bytes of a tape from an offset on stand for, the first byte weighing
most. -/
def Memory.Tape.number (t : Tape) (offset count : Nat) : Nat :=
  natOfBytes ((List.range count).map fun i => t (offset + i))

/-- Up to 32 bytes make a word, and none of them is lost. -/
theorem toNat_readLong (a : ByteArray) (offset : Nat) {count : Nat} (h : count ≤ 32) :
    (Word.ofNat (Bytes.readLong a offset count)).toNat =
      Memory.Tape.number (Bytes.byteAt a) offset count := by
  have hlt : Bytes.readNat a offset count < 2 ^ 256 :=
    calc
      Bytes.readNat a offset count < 256 ^ count := Bytes.readNat_lt a offset count
      _ ≤ 256 ^ 32 := Nat.pow_le_pow_right (by decide) h
      _ = 2 ^ 256 := by decide
  rw [Bytes.readLong_eq, Word.toNat_ofNat_of_lt hlt]
  exact Memory.Tape.readNat_eq a offset count

/-- Immediate bytes are put at the end of a word, and so stand for the number that is read there. -/
theorem Program.immediate_eq (p : Program) (offset : Nat) {width : Nat} (h : width ≤ 32) :
    p.immediate offset width = Word.ofNat (Bytes.readLong p.code offset width) := by
  have hpart := Bytes.size_bounded_le p.code offset width
  have hfits : 32 - width + (p.code.extract (min offset p.code.size)
      (min (offset + width) p.code.size)).size ≤ 32 := by omega
  have hlead (i : Nat) (hi : i < 32 - width) := Bytes.byteAt_overwrite_zeros_of_lt hfits hi
  have hread := Bytes.readNat_add_of_zeros hlead width
  rw [Nat.sub_add_cancel h] at hread
  have hsize : (Bytes.overwrite (Bytes.zeros 32) (32 - width) (p.code.extract
      (min offset p.code.size) (min (offset + width) p.code.size))).size = 32 := by
    rw [Bytes.size_overwrite (by rwa [Bytes.size_zeros]), Bytes.size_zeros]
  simp only [immediate, Bytes.toWord, hsize, Bytes.readLong_eq, hread]
  refine congrArg Word.ofNat (Bytes.readNat_congr fun i hi => ?_)
  rw [Bytes.byteAt_overwrite_zeros hfits, Bytes.byteAt_bounded, if_pos hi]

namespace State

variable {s : State}

/-! ### Words -/

/-- A push reads the bytes behind its own and moves behind them. -/
theorem dispatchByte_push (hrun : s.status = .running) (hroom : s.stack.depth < 1024) {n : Nat}
    (hn : n ≤ 32) :
    s.dispatchByte (UInt8.ofNat (0x5f + n)) =
      (.ok (),
        { s with
          pc := s.pc + 1 + n
          stack := s.stack.cons (.ofNat (Bytes.readLong s.program.code (s.pc + 1) n)) }) := by
  have htable : ∀ width : Fin 33,
      Instr.ofByte (UInt8.ofNat (0x5f + width)) = some (.push width) := by decide
  have hbyte := htable ⟨n, Nat.lt_succ_of_le hn⟩
  have hwidth := Program.immediate_eq s.program (s.pc + 1) hn
  rw [dispatchByte_of_running _ hrun, execByte_of_instr hbyte, exec,
    withStack_of_ok (s := { s with pc := s.pc + 1 }) (Stack.push_of_room _ hroom), ← hwidth]
  exact Prod.ext (report_of_running hrun) rfl

/-- A load puts a word of the call data in the place of its offset. -/
theorem dispatchByte_callDataLoad (hrun : s.status = .running) (hdepth : s.stack.depth ≤ 1024)
    (hdata : s.env.callData.size < UInt64.size) {offset : Word} {rest : List Word}
    (hwords : s.stack.words = offset :: rest) :
    s.dispatchByte 0x35 =
      (.ok (),
        { s with
          pc := s.pc + 1
          stack :=
            .ofWords (.ofNat (Bytes.readLong s.env.callData offset.toNat 32) :: rest) }) := by
  have hbyte : Instr.ofByte 0x35 = some .callDataLoad := rfl
  have htaken : s.stack.words = [offset] ++ rest := hwords
  have henough : 1 ≤ s.stack.depth := Stack.length_le_depth htaken
  apply dispatchByte_of_pushWord hrun hdepth htaken
  rw [execByte_of_instr hbyte, exec, withOne_of_le (s := { s with pc := s.pc + 1 }) henough]
  simp only [Stack.wordAt, hwords, List.getD_cons_zero, Bytes.toWord_padded hdata]
  rfl

/-! ### Copies

A copy carries out one operation on memory, so what memory holds afterwards is known from the tape.
It remains to see which bytes the operation was given.
-/

/-- The byte copies `count` bytes of a source from an offset of it to a place in memory, as if zeros
followed the source. -/
structure Copies (b : UInt8) (source : ByteArray) (dest offset count : Nat) (s : State) :
    Prop where
  /-- The copy succeeds exactly if it is empty or ends within 32 mebibytes. -/
  succeeds_iff : (s.dispatchByte b).1 = .ok () ↔ count = 0 ∨ dest + count ≤ 32 * 1024 * 1024
  /-- Memory then holds the bytes of the source. -/
  copied : (s.dispatchByte b).1 = .ok () → ∀ i, i < count →
    (s.dispatchByte b).2.memory.byteAt (dest + i) = Bytes.byteAt source (offset + i)
  /-- No other byte of memory changes. -/
  kept : (s.dispatchByte b).1 = .ok () → ∀ i, i < dest ∨ dest + count ≤ i →
    (s.dispatchByte b).2.memory.byteAt i = s.memory.byteAt i

/-- What an instruction that only uses memory reports, and what it leaves there. -/
theorem dispatchByte_access {b : UInt8} {i : Instr} {a : Memory.Access}
    (hrun : s.status = .running) (hdata : s.returnData = .empty) (hdepth : s.stack.depth ≤ 1024)
    (hbyte : Instr.ofByte b = some i) (huses : i.usesMemory = true)
    (hmanner : i.demand.manner = .plain) (henough : i.operands ≤ s.stack.depth)
    (haccess : i.access s = some a) :
    ((s.dispatchByte b).1 = .ok () ↔ ¬ a.Refused) ∧
      ((s.dispatchByte b).1 = .ok () →
        (s.dispatchByte b).2.memory.byteAt = a.written s.memory.byteAt) := by
  obtain ⟨a', haccess', hasks⟩ := Instr.exists_access huses s
  obtain rfl : a = a' := Option.some.inj (haccess.symm.trans haccess')
  have hreport := dispatchByte_late hrun hdata hdepth hbyte huses henough
  have hsucceeds : (s.dispatchByte b).1 = .ok () ↔ ¬ a.Refused := by
    rw [hreport, Demand.late_plain hmanner, ← hasks.reachesBeyond]
    split <;> simp_all
  refine ⟨hsucceeds, ?_⟩
  intro hok
  rw [dispatchByte_memory hrun hbyte henough haccess, (a.perform_performOn s.memory).2,
    Memory.Access.performOn, if_neg (hsucceeds.mp hok)]

/-- An instruction whose operation on memory stores a part of a source copies it. -/
theorem copies_of_access {b : UInt8} {i : Instr} {source : ByteArray} {dest offset count : Word}
    {rest : List Word} (hrun : s.status = .running) (hdata : s.returnData = .empty)
    (hdepth : s.stack.depth ≤ 1024) (hwords : s.stack.words = dest :: offset :: count :: rest)
    (hbyte : Instr.ofByte b = some i) (huses : i.usesMemory = true)
    (hmanner : i.demand.manner = .plain) (hoperands : i.operands = 3)
    (hsource : source.size < UInt64.size)
    (haccess : i.access s = some (.storeSlice (s.stack.operand 0)
      (Bytes.padded source (s.stack.wordAt 1) (s.stack.operand 2)))) :
    Copies b source dest.toNat offset.toNat count.toNat s := by
  have hword : ∀ place, s.stack.wordAt place = (dest :: offset :: count :: rest).getD place 0 := by
    intro place
    rw [Stack.wordAt, hwords]
  have hdest : s.stack.operand 0 = dest.toNat := congrArg BitVec.toNat (hword 0)
  have hoffset : s.stack.wordAt 1 = offset := hword 1
  have hcount : s.stack.operand 2 = count.toNat := congrArg BitVec.toNat (hword 2)
  have henough : i.operands ≤ s.stack.depth := by
    rw [hoperands, s.stack.depth_eq, hwords]
    simp
  obtain ⟨hsucceeds, hwritten⟩ :=
    dispatchByte_access hrun hdata hdepth hbyte huses hmanner henough haccess
  rw [hdest, hoffset, hcount] at hsucceeds hwritten
  have hsize : (Bytes.padded source offset count.toNat).size = count.toNat :=
    Bytes.size_padded ..
  refine ⟨?_, ?_, ?_⟩
  · rw [hsucceeds, Memory.Access.Refused, Memory.Access.count, Memory.Access.reach, hsize]
    omega
  · intro hok i hi
    rw [hwritten hok, Memory.Access.written, Memory.Tape.write, hsize, if_pos (by omega),
      Nat.add_sub_cancel_left, Bytes.byteAt_padded hsource offset hi]
  · intro hok i hi
    rw [hwritten hok, Memory.Access.written, Memory.Tape.write, hsize, if_neg (by omega)]

/-- The byte at the program counter is carried out as if it had been given. -/
theorem dispatch_eq_dispatchByte {code : ByteArray} {env : Env} (h : Sound code env s)
    (hlt : s.pc < code.size) : s.dispatch = s.dispatchByte code[s.pc] := by
  have hcode : s.program.code = code := by rw [h.program]; rfl
  have hbyte : s.program.byte? s.pc = some code[s.pc] := by
    simp only [Program.byte?, hcode, hlt, dif_pos]
  have hstep : s.step = s.execByte code[s.pc] := by
    rw [step, hbyte]
  rw [dispatch, dispatchByte, guarded, guarded, hstep]

/-! ### All readers -/

/-- What is known of the bytes that read from code or call data. Lengths are numbers of 64 bits. -/
structure ReadsOn (code : ByteArray) (env : Env) (s : State) : Prop where
  /-- With room on the stack, a push of `n` bytes pushes the number that the `n` bytes behind its
  own stand for, also where the code ends before or among them, and moves behind them. -/
  push : ∀ n, n ≤ 32 → s.stack.depth < 1024 → ∃ w : Word,
    w.toNat = Memory.Tape.number (Bytes.byteAt code) (s.pc + 1) n ∧
      s.dispatchByte (UInt8.ofNat (0x5f + n)) =
        (.ok (), { s with pc := s.pc + 1 + n, stack := s.stack.cons w })
  /-- A load puts the number that 32 bytes of the call data stand for in the place of its offset. -/
  callDataLoad : env.callData.size < UInt64.size →
    ∀ (offset : Word) (rest : List Word), s.stack.words = offset :: rest →
      ∃ w : Word, w.toNat = Memory.Tape.number (Bytes.byteAt env.callData) offset.toNat 32 ∧
        s.dispatchByte 0x35 = (.ok (), { s with pc := s.pc + 1, stack := .ofWords (w :: rest) })
  /-- The one copy takes its bytes from the call data. -/
  callDataCopy : env.callData.size < UInt64.size →
    ∀ (dest offset count : Word) (rest : List Word),
      s.stack.words = dest :: offset :: count :: rest →
        Copies 0x37 env.callData dest.toNat offset.toNat count.toNat s
  /-- The other copy takes its bytes from the code. -/
  codeCopy : code.size < UInt64.size →
    ∀ (dest offset count : Word) (rest : List Word),
      s.stack.words = dest :: offset :: count :: rest →
        Copies 0x39 code dest.toNat offset.toNat count.toNat s
  /-- All this holds as well of the byte at the program counter. -/
  fetched : ∀ h : s.pc < code.size, s.dispatch = s.dispatchByte code[s.pc]

/-- **Code and call data are read as if infinitely many zeros followed them**, at every offset that
a word can hold, in every state that the execution of some code can reach and in which it goes
on. -/
theorem dispatchByte_readsOn (code : ByteArray) (env : Env) (ops : List Operation)
    (hrun : ((fresh code env).after ops).status = .running) :
    ReadsOn code env ((fresh code env).after ops) := by
  have hsound := (Sound.fresh code env).after ops
  generalize (fresh code env).after ops = s at hrun hsound
  have hcode : s.program.code = code := by rw [hsound.program]; rfl
  refine ⟨?_, ?_, ?_, ?_, dispatch_eq_dispatchByte hsound⟩
  · intro n hn hroom
    refine ⟨_, toNat_readLong code (s.pc + 1) hn, ?_⟩
    rw [dispatchByte_push hrun hroom hn, hcode]
  · intro hdata offset rest hwords
    rw [← hsound.env] at hdata ⊢
    refine ⟨_, toNat_readLong s.env.callData offset.toNat (Nat.le_refl 32), ?_⟩
    exact dispatchByte_callDataLoad hrun hsound.depth hdata hwords
  · intro hdata dest offset count rest hwords
    refine copies_of_access hrun hsound.returnData hsound.depth hwords (i := .callDataCopy)
      rfl rfl rfl rfl hdata ?_
    rw [Instr.access, hsound.env]
  · intro hlength dest offset count rest hwords
    refine copies_of_access hrun hsound.returnData hsound.depth hwords (i := .codeCopy)
      rfl rfl rfl rfl hlength ?_
    rw [Instr.access, hcode]

/-- The code ends after the first of three immediate bytes, and after two of three bytes that are
copied. Behind the largest offset a load finds no byte of the call data, its first one included. -/
theorem dispatchByte_readsOn_short :
    let s := (fresh ⟨#[0x60, 0x03, 0x60, 0x05, 0x5f, 0x62, 0xab]⟩ {}).after
      [.dispatch, .dispatch, .dispatch]
    let s' := (fresh ⟨#[0x5f, 0x19]⟩ { callData := ⟨#[0xcd]⟩ }).after [.dispatch, .dispatch]
    (∃ w : Word, w.toNat = 0xab0000 ∧
      s.dispatch = (.ok (), { s with pc := 9, stack := s.stack.cons w })) ∧
      (s.dispatchByte 0x39).2.memory.byteAt 1 = 0xab ∧
      (s.dispatchByte 0x39).2.memory.byteAt 2 = 0 ∧
      ∃ w : Word, w.toNat = 0 ∧
        s'.dispatchByte 0x35 = (.ok (), { s' with pc := 3, stack := .ofWords [w] }) := by
  intro s s'
  have h := dispatchByte_readsOn ⟨#[0x60, 0x03, 0x60, 0x05, 0x5f, 0x62, 0xab]⟩ {}
    [.dispatch, .dispatch, .dispatch] rfl
  have h' := dispatchByte_readsOn ⟨#[0x5f, 0x19]⟩ { callData := ⟨#[0xcd]⟩ }
    [.dispatch, .dispatch] rfl
  have hcopy := h.codeCopy (by decide) 0 5 3 [] rfl
  have hok : (s.dispatchByte 0x39).1 = .ok () := hcopy.succeeds_iff.mpr (.inr (by decide))
  obtain ⟨w, hvalue, hpush⟩ := h.push 3 (by decide) (by decide)
  refine ⟨⟨w, hvalue, (h.fetched (by decide)).trans hpush⟩, ?_⟩
  exact ⟨hcopy.copied hok 1 (by decide), hcopy.copied hok 2 (by decide),
    h'.callDataLoad (by decide) (BitVec.allOnes 256) [] rfl⟩

end State

end Machine

end LocalNode
