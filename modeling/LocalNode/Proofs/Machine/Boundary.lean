import LocalNode.Proofs.Machine.Reachable

/-!
Where instructions start.

Two parts of the machine have their own idea of that. The scan for landing marks counts down the
immediate bytes it has to skip, and a push moves the program counter over its immediate bytes. Here
both are compared with one notion, `Boundary`, the offsets that are met when code is read from its
start. Boundaries never lie inside the immediate bytes of one another, which is why the scan can
decide each byte by itself and why an execution never takes an immediate byte for an instruction.
-/

namespace LocalNode.Machine

/-- The offsets at which an instruction starts: the first byte, and the byte behind an instruction
and its immediate bytes. -/
inductive Boundary (code : ByteArray) : Nat → Prop
  | start : Boundary code 0
  | next {q : Nat} (boundary : Boundary code q) (inside : q < code.size) :
      Boundary code (q + 1 + immediateSizeOf code[q])

/-- The offsets of the immediate bytes of some instruction. -/
def Immediate (code : ByteArray) (i : Nat) : Prop :=
  ∃ (q : Nat) (_ : q < code.size), Boundary code q ∧ q < i ∧ i ≤ q + immediateSizeOf code[q]

theorem immediateSizeOf_le (b : UInt8) : immediateSizeOf b ≤ 32 := by
  unfold immediateSizeOf
  split
  · rename_i i _
    cases i with
    | push width => exact Nat.le_of_lt_succ width.isLt
    | _ => exact Nat.zero_le _
  · exact Nat.zero_le _

namespace Boundary

variable {code : ByteArray}

/-- Between an instruction and the byte behind it there is no other boundary. The induction is on
the sum of the two offsets: if the later one came from before the earlier one, the roles change. -/
theorem next_le_aux : ∀ (n q p : Nat), q + p = n → Boundary code q → Boundary code p →
    ∀ hq : q < code.size, q < p → q + 1 + immediateSizeOf code[q] ≤ p := by
  intro n
  induction n using Nat.strongRecOn with
  | _ n ih =>
      intro q p hsum hbq hbp hq hlt
      cases hbp with
      | start => omega
      | @next r hbr hr =>
          rcases Nat.lt_trichotomy q r with hqr | hqr | hqr
          · have hstep := ih (q + r) (by omega) q r rfl hbq hbr hq hqr
            omega
          · subst hqr
            exact Nat.le_refl _
          · have hstep := ih (r + q) (by omega) r q rfl hbr hbq hr hqr
            omega

theorem next_le {q p : Nat} (hbq : Boundary code q) (hbp : Boundary code p) (hq : q < code.size)
    (hlt : q < p) : q + 1 + immediateSizeOf code[q] ≤ p :=
  next_le_aux (q + p) q p rfl hbq hbp hq hlt

/-- A boundary is no immediate byte. -/
theorem not_immediate {p : Nat} (h : Boundary code p) : ¬ Immediate code p := by
  rintro ⟨q, hq, hbq, hlt, hle⟩
  have hnext := hbq.next_le h hq hlt
  omega

/-- The last instruction may lack some of its immediate bytes, but no more than a push has. -/
theorem le_size_add {p : Nat} (h : Boundary code p) : p ≤ code.size + 32 := by
  cases h with
  | start => exact Nat.zero_le _
  | @next q hbq hq =>
      have hwidth := immediateSizeOf_le code[q]
      omega

end Boundary

/-! ### The scan for landing marks

The scan reads the code byte by byte and only counts how many bytes it still has to skip. The
invariant says that those are the bytes up to the next boundary.
-/

/-- The offset holds a landing mark that is an instruction. -/
def Landing (code : ByteArray) (i : Nat) : Prop :=
  ∃ _ : i < code.size, code[i] = jumpDestByte ∧ Boundary code i

/-- What the scan knows when `skip` more bytes are immediate ones: the marks so far are right, and
the next boundary is the byte behind those. -/
structure Scanned (code : ByteArray) (skip : Nat) (marks : Array Bool) : Prop where
  marked : ∀ i, i < marks.size → (marks[i]? = some true ↔ Landing code i)
  boundary : Boundary code (marks.size + skip)
  gap : ∀ i, marks.size ≤ i → i < marks.size + skip → ¬ Boundary code i

namespace Scanned

variable {code : ByteArray} {skip : Nat} {marks : Array Bool}

theorem init (code : ByteArray) : Scanned code 0 #[] where
  marked := fun _ h => absurd h (Nat.not_lt_zero _)
  boundary := .start
  gap := fun _ hge hlt => absurd hlt (Nat.not_lt.mpr hge)

/-- Marking one more byte rightly keeps the marks right. -/
theorem marked_push (h : Scanned code skip marks) {mark : Bool}
    (hmark : mark = true ↔ Landing code marks.size) :
    ∀ i, i < (marks.push mark).size →
      ((marks.push mark)[i]? = some true ↔ Landing code i) := by
  intro i hi
  rw [Array.size_push] at hi
  rw [Array.getElem?_push]
  by_cases hlast : i = marks.size
  · rw [if_pos hlast, hlast, Option.some.injEq]
    exact hmark
  · rw [if_neg hlast]
    exact h.marked i (by omega)

/-- The scan goes on behind an instruction. -/
theorem instruction (h : Scanned code 0 marks) (hlt : marks.size < code.size) :
    Scanned code (immediateSizeOf code[marks.size])
      (marks.push (code[marks.size] == jumpDestByte)) := by
  have hhere : Boundary code marks.size := h.boundary
  refine ⟨h.marked_push ?_, ?_, ?_⟩
  · rw [beq_iff_eq]
    exact ⟨fun hbyte => ⟨hlt, hbyte, hhere⟩, fun ⟨_, hbyte, _⟩ => hbyte⟩
  · rw [Array.size_push]
    exact .next hhere hlt
  · intro i hge hi hbi
    rw [Array.size_push] at hge hi
    have hnext := hhere.next_le hbi hlt hge
    omega

/-- The scan goes on behind an immediate byte. -/
theorem immediate (h : Scanned code (skip + 1) marks) :
    Scanned code skip (marks.push false) := by
  refine ⟨h.marked_push ?_, ?_, ?_⟩
  · have hnone : ¬ Landing code marks.size := fun ⟨_, _, hb⟩ =>
      h.gap marks.size (Nat.le_refl _) (by omega) hb
    simp [hnone]
  · rw [Array.size_push, Nat.add_assoc, Nat.add_comm 1 skip]
    exact h.boundary
  · intro i hge hi
    rw [Array.size_push] at hge hi
    exact h.gap i (by omega) (by omega)

end Scanned

/-- The scan leaves every byte rightly marked: the induction is on the bytes left. -/
theorem landingMarks_marked (code : ByteArray) : ∀ (bytes : List UInt8) (skip : Nat)
    (marks : Array Bool), code.data.toList.drop marks.size = bytes → Scanned code skip marks →
    ∀ i, i < code.size → ((landingMarks bytes skip marks)[i]? = some true ↔ Landing code i) := by
  intro bytes
  induction bytes with
  | nil =>
      intro skip marks hbytes h i hi
      have hall : code.size ≤ marks.size := by
        simpa using List.drop_eq_nil_iff.mp hbytes
      rw [landingMarks]
      exact h.marked i (by omega)
  | cons b bytes ih =>
      intro skip marks hbytes h i hi
      have hlt : marks.size < code.size := by
        have hlength := congrArg List.length hbytes
        simp at hlength
        omega
      have hrest : code.data.toList.drop (marks.size + 1) = bytes := by
        rw [← List.drop_drop, hbytes]
        rfl
      have hbyte : code[marks.size] = b := by
        have hhead := congrArg List.head? hbytes
        rw [List.head?_drop] at hhead
        simpa [ByteArray.getElem_eq_getElem_data, hlt] using hhead
      cases skip with
      | zero =>
          rw [landingMarks]
          refine ih _ _ (by rw [Array.size_push]; exact hrest) ?_ i hi
          rw [← hbyte]
          exact h.instruction hlt
      | succ skip =>
          rw [landingMarks]
          exact ih _ _ (by rw [Array.size_push]; exact hrest) h.immediate i hi

theorem size_landingMarks : ∀ (bytes : List UInt8) (skip : Nat) (marks : Array Bool),
    (landingMarks bytes skip marks).size = marks.size + bytes.length := by
  intro bytes
  induction bytes with
  | nil => intro skip marks; rfl
  | cons b bytes ih =>
      intro skip marks
      cases skip with
      | zero =>
          rw [landingMarks, ih, Array.size_push, List.length_cons]
          omega
      | succ skip =>
          rw [landingMarks, ih, Array.size_push, List.length_cons]
          omega

/-- **Code may be entered exactly at the landing marks that are instructions.** -/
theorem isJumpDest_iff (code : ByteArray) (i : Nat) :
    (Program.ofCode code).isJumpDest i = true ↔ Landing code i := by
  have hmark : (Program.ofCode code).isJumpDest i = true ↔
      (landingMarks code.data.toList 0 #[])[i]? = some true := by
    show (landingMarks code.data.toList 0 #[])[i]?.getD false = true ↔ _
    rcases (landingMarks code.data.toList 0 #[])[i]? with _ | mark
    · simp
    · simp
  rw [hmark]
  by_cases hi : i < code.size
  · exact landingMarks_marked code _ 0 #[] rfl (Scanned.init code) i hi
  · have hnone : (landingMarks code.data.toList 0 #[])[i]? = none := by
      rw [Array.getElem?_eq_none_iff, size_landingMarks]
      simpa using hi
    rw [hnone]
    constructor
    · intro hmarked
      cases hmarked
    · rintro ⟨hlt, -⟩
      exact absurd hlt hi

/-! ### Executions

An execution skips as many bytes behind a push as the scan does, and it jumps only to landing marks.
So it never gets into the middle of an instruction.
-/

namespace State

variable {code : ByteArray} {env : Env} {s : State}

/-- The instruction that is next starts at a boundary, if there is a next one. -/
def AtBoundary (code : ByteArray) (s : State) : Prop :=
  s.status = .running → Boundary code s.pc

/-- A byte of the program is the byte of its code. -/
theorem byte?_eq_some (h : Sound code env s) {b : UInt8} (hbyte : s.program.byte? s.pc = some b) :
    ∃ hlt : s.pc < code.size, code[s.pc] = b := by
  have hcode : s.program.code = code := by rw [h.program]; rfl
  unfold Program.byte? at hbyte
  split at hbyte
  · rename_i hlt
    refine ⟨by rw [← hcode]; exact hlt, ?_⟩
    simp only [hcode, Option.some.injEq] at hbyte
    exact hbyte
  · cases hbyte

/-- An instruction that starts at a boundary leads to one: behind itself, since a push skips exactly
the bytes that the boundary skips, or to a landing mark. -/
theorem atBoundary_effect (h : Sound code env s) (hlt : s.pc < code.size)
    (hb : Boundary code s.pc) {i : Instr} (hi : Instr.ofByte code[s.pc] = some i) {s' : State}
    (he : Effect i { s with pc := s.pc + 1 } s') : AtBoundary code s' := by
  intro hrun
  cases he with
  | goesOn memory pc enough depth room below touched next =>
      rcases next with hbehind | ⟨-, hdest⟩
      · have hsize : immediateSizeOf code[s.pc] = i.immediateSize := by
          simp only [immediateSizeOf, hi]
        have hnext := Boundary.next hb hlt
        rw [hsize] at hnext
        rw [hbehind]
        exact hnext
      · have hprogram : s.program = Program.ofCode code := h.program
        simp only [hprogram] at hdest
        obtain ⟨-, -, hlanding⟩ := (isJumpDest_iff code _).mp hdest
        exact hlanding
  | stops => cases hrun
  | returns => cases hrun
  | reverts => cases hrun
  | refuses => cases hrun
  | interrupts => cases hrun

theorem step_atBoundary (h : Sound code env s) (hb : Boundary code s.pc) :
    AtBoundary code s.step := by
  unfold step
  split
  · rename_i b hbyte
    obtain ⟨hlt, hcode⟩ := byte?_eq_some h hbyte
    rcases execByte_effect b s h.depth with ⟨i, hi, he⟩ | ⟨-, hfail⟩
    · rw [← hcode] at hi
      exact atBoundary_effect h hlt hb hi he
    · intro hrun
      rw [hfail] at hrun
      cases hrun
  · intro hrun
    cases hrun

theorem dispatch_atBoundary (h : Sound code env s) (hb : AtBoundary code s) :
    AtBoundary code (Operation.dispatch.perform s) := by
  show AtBoundary code (s.guarded step).2
  unfold guarded
  split
  · rename_i hrun
    exact step_atBoundary h (hb (isRunning_iff.mp hrun))
  · exact hb

/-- However often the instruction at the program counter is carried out, the next one starts at a
boundary. -/
theorem replicate_atBoundary (n : Nat) : ∀ {s : State}, Sound code env s → AtBoundary code s →
    AtBoundary code (s.after (List.replicate n .dispatch)) := by
  induction n with
  | zero => intro s _ hb; exact hb
  | succ n ih =>
      intro s h hb
      rw [List.replicate_succ, after_cons]
      exact ih (h.perform .dispatch) (dispatch_atBoundary h hb)

/-- **Instructions are only ever carried out where they start.** Code may be entered exactly at the
landing marks that are instructions, and while an execution goes on its program counter stands at a
boundary, at most one push behind the code, and never on an immediate byte. -/
theorem executes_only_boundaries (code : ByteArray) :
    (∀ i, (Program.ofCode code).isJumpDest i = true ↔
      ∃ _ : i < code.size, code[i] = 0x5b ∧ Boundary code i) ∧
    ∀ (env : Env) (n : Nat),
      ((fresh code env).after (List.replicate n .dispatch)).status = .running →
        Boundary code ((fresh code env).after (List.replicate n .dispatch)).pc ∧
        ((fresh code env).after (List.replicate n .dispatch)).pc ≤ code.size + 32 ∧
        ¬ Immediate code ((fresh code env).after (List.replicate n .dispatch)).pc := by
  refine ⟨isJumpDest_iff code, ?_⟩
  intro env n hrun
  have hb := replicate_atBoundary n (Sound.fresh code env) (fun _ => Boundary.start) hrun
  exact ⟨hb, hb.le_size_add, hb.not_immediate⟩

/-- A jump over a push that hides a landing mark in its immediate lands on the mark behind it, and
the push that the code breaks off moves the program counter behind the code. -/
theorem executes_only_boundaries_truncated :
    ((fresh ⟨#[0x60, 0x05, 0x56, 0x60, 0x5b, 0x5b, 0x61]⟩ {}).after
        (List.replicate 4 .dispatch)).status = .running ∧
      Boundary ⟨#[0x60, 0x05, 0x56, 0x60, 0x5b, 0x5b, 0x61]⟩ 9 ∧
      ¬ Immediate ⟨#[0x60, 0x05, 0x56, 0x60, 0x5b, 0x5b, 0x61]⟩ 9 :=
  have h := (executes_only_boundaries ⟨#[0x60, 0x05, 0x56, 0x60, 0x5b, 0x5b, 0x61]⟩).2 {} 4 rfl
  ⟨rfl, h.1, h.2.2⟩

end State

end LocalNode.Machine
