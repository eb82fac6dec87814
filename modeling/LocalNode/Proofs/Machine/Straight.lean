import Mathlib.Data.Nat.Count
import LocalNode.Proofs.Machine.Boundary
import LocalNode.Proofs.Machine.Limits

/-!
Code without jumps ends by itself.

The measure is the number of boundaries before the program counter. An instruction that is no jump
leads to the boundary behind it, so every step after which the execution goes on adds to the
measure. It can only do so inside the code: behind the last byte a step finds no instruction, and
the execution ends. So an execution takes at most one step for each boundary inside the code, and
one more to find the end.

Only boundaries count, here as in an execution. A byte that would jump, hidden in the immediate
bytes of a push, does no harm, and a push that the code breaks off leads behind the code like any
other.
-/

namespace LocalNode.Machine

/-! ### Reading code from its start

The boundaries are listed so that steps can be counted by the length of the list. Each lies behind
the one before, so as much fuel as there is code reaches the end.
-/

/-- The boundaries from a given one on, in the order in which they are met. Only the last one lies
outside the code. -/
def boundariesFrom (code : ByteArray) : (fuel offset : Nat) → List Nat
  | 0, offset => [offset]
  | fuel + 1, offset =>
    if h : offset < code.size then
      offset :: boundariesFrom code fuel (offset + 1 + immediateSizeOf code[offset])
    else [offset]

namespace Boundary

variable {code : ByteArray}

/-- Behind a boundary outside the code there is no other. -/
theorem mem_last {q p : Nat} (hbq : Boundary code q) (hq : code.size ≤ q) :
    p ∈ [q] ↔ q ≤ p ∧ Boundary code p := by
  rw [List.mem_singleton]
  constructor
  · rintro rfl
    exact ⟨Nat.le_refl p, hbq⟩
  · rintro ⟨hle, hbp⟩
    cases hbp with
    | start => omega
    | @next r hbr hr =>
        have hnext := hbr.next_le hbq hr (by omega)
        omega

/-- Reading on from a boundary meets all that follow, as long as the fuel lasts to the end. -/
theorem mem_boundariesFrom {fuel q p : Nat} (hbq : Boundary code q)
    (hfuel : code.size ≤ q + fuel) :
    p ∈ boundariesFrom code fuel q ↔ q ≤ p ∧ Boundary code p := by
  induction fuel generalizing q with
  | zero => exact hbq.mem_last hfuel
  | succ fuel ih =>
      by_cases hq : q < code.size
      · rw [boundariesFrom, dif_pos hq, List.mem_cons, ih (.next hbq hq) (by omega)]
        constructor
        · rintro (rfl | ⟨hle, hbp⟩)
          · exact ⟨Nat.le_refl p, hbq⟩
          · exact ⟨by omega, hbp⟩
        · rintro ⟨hle, hbp⟩
          rcases Nat.eq_or_lt_of_le hle with heq | hlt
          · exact .inl heq.symm
          · exact .inr ⟨hbq.next_le hbp hq hlt, hbp⟩
      · rw [boundariesFrom, dif_neg hq]
        exact hbq.mem_last (Nat.le_of_not_lt hq)

end Boundary

instance (code : ByteArray) : DecidablePred (Boundary code) := fun p =>
  decidable_of_iff (p ∈ boundariesFrom code code.size 0) <|
    (Boundary.mem_boundariesFrom .start (Nat.le_add_left ..)).trans
      (and_iff_right (Nat.zero_le p))

/-- No instruction of the code is a jump. -/
def Straight (code : ByteArray) : Prop :=
  ∀ (p : Nat) (_ : p < code.size), Boundary code p → code[p] ≠ 0x56 ∧ code[p] ≠ 0x57

instance (code : ByteArray) : Decidable (Straight code) :=
  inferInstanceAs (Decidable (∀ (p : Nat) (_ : p < code.size), _))

/-- There is one byte for each of the two jumps. -/
theorem Straight.not_jump {code : ByteArray} (h : Straight code) {p : Nat} (hp : p < code.size)
    (hb : Boundary code p) {i : Instr} (hi : Instr.ofByte code[p] = some i) :
    i ≠ .jump ∧ i ≠ .jumpIf := by
  have htable : ∀ b : UInt8, (Instr.ofByte b = some .jump → b = 0x56) ∧
      (Instr.ofByte b = some .jumpIf → b = 0x57) := forall_byte (by decide +kernel)
  obtain ⟨hjump, hjumpIf⟩ := htable code[p]
  obtain ⟨hnotJump, hnotJumpIf⟩ := h p hp hb
  constructor
  · rintro rfl
    exact hnotJump (hjump hi)
  · rintro rfl
    exact hnotJumpIf (hjumpIf hi)

/-! ### Single steps -/

namespace State

variable {code : ByteArray} {env : Env} {s : State}

/-- An instruction that is no jump and after which the execution goes on leads behind itself. -/
theorem Effect.pc_of_running {i : Instr} {s' : State} (he : Effect i s s')
    (hjump : i ≠ .jump ∧ i ≠ .jumpIf) (hrun : s'.status = .running) :
    s'.pc = s.pc + i.immediateSize := by
  cases he with
  | goesOn memory pc enough depth room below touched next =>
      rcases next with hbehind | ⟨hjumps | hjumps, -⟩
      · exact hbehind
      · exact absurd hjumps hjump.1
      · exact absurd hjumps hjump.2
  | stops | returns | reverts | refuses | interrupts => cases hrun

/-- A step after which the execution goes on was taken inside the code. Without jumps it leads to
the boundary behind its instruction. -/
theorem step_straight (hstraight : Straight code) (h : Sound code env s)
    (hb : Boundary code s.pc) (hrun : s.step.status = .running) :
    ∃ hlt : s.pc < code.size, s.step.pc = s.pc + 1 + immediateSizeOf code[s.pc] := by
  unfold step at hrun ⊢
  split at hrun
  · rename_i b hbyte
    obtain ⟨hlt, rfl⟩ := byte?_eq_some h hbyte
    rcases execByte_effect code[s.pc] s h.depth with ⟨i, hi, he⟩ | ⟨-, hfail⟩
    · have hsize : immediateSizeOf code[s.pc] = i.immediateSize := by
        simp only [immediateSizeOf, hi]
      refine ⟨hlt, ?_⟩
      rw [hsize]
      exact he.pc_of_running (hstraight.not_jump hlt hb hi) hrun
    · rw [hfail] at hrun
      cases hrun
  · cases hrun

/-! ### Whole executions -/

theorem dispatched_succ_last (s : State) (n : Nat) :
    s.dispatched (n + 1) = (s.dispatched n).dispatch.2 := by
  rw [dispatched_add]
  rfl

theorem isRunning_of_dispatched_succ {n : Nat} (h : (s.dispatched (n + 1)).isRunning = true) :
    (s.dispatched n).isRunning = true := by
  rw [dispatched_add] at h
  exact isRunning_of_dispatched h

/-- While the execution goes on it moves forward, from a boundary inside the code. -/
theorem dispatched_advances (hstraight : Straight code) (env : Env) {k : Nat}
    (hrun : ((fresh code env).dispatched (k + 1)).isRunning = true) :
    Boundary code ((fresh code env).dispatched k).pc ∧
      ((fresh code env).dispatched k).pc < code.size ∧
      ((fresh code env).dispatched k).pc < ((fresh code env).dispatched (k + 1)).pc := by
  have hbefore := isRunning_of_dispatched_succ hrun
  have hsound : Sound code env ((fresh code env).dispatched k) := (Sound.fresh code env).after _
  have hb : Boundary code ((fresh code env).dispatched k).pc :=
    replicate_atBoundary k (Sound.fresh code env) (fun _ => .start) (isRunning_iff.mp hbefore)
  rw [dispatched_succ_last, dispatch_of_running hbefore] at hrun ⊢
  obtain ⟨hlt, hpc⟩ := step_straight hstraight hsound hb (isRunning_iff.mp hrun)
  exact ⟨hb, hlt, by omega⟩

/-- Each step so far has left a boundary of its own behind. -/
theorem le_count_of_running (hstraight : Straight code) (env : Env) {k : Nat}
    (hrun : ((fresh code env).dispatched k).isRunning = true) :
    k ≤ Nat.count (Boundary code) ((fresh code env).dispatched k).pc := by
  induction k with
  | zero => exact Nat.zero_le _
  | succ k ih =>
      obtain ⟨hb, -, hadvances⟩ := dispatched_advances hstraight env hrun
      calc
        k + 1 ≤ Nat.count (Boundary code) ((fresh code env).dispatched k).pc + 1 :=
          Nat.succ_le_succ (ih (isRunning_of_dispatched_succ hrun))
        _ ≤ Nat.count (Boundary code) ((fresh code env).dispatched (k + 1)).pc :=
          Nat.count_strict_mono hb hadvances

/-- The step before was taken at a boundary inside the code, which none of the earlier steps has
left behind. -/
theorem lt_count_of_running (hstraight : Straight code) (env : Env) {k : Nat}
    (hrun : ((fresh code env).dispatched (k + 1)).isRunning = true) :
    k < Nat.count (Boundary code) code.size := by
  obtain ⟨hb, hinside, -⟩ := dispatched_advances hstraight env hrun
  have hbehind := le_count_of_running hstraight env (isRunning_of_dispatched_succ hrun)
  exact Nat.lt_of_le_of_lt hbehind (Nat.count_strict_mono hb hinside)

theorem EndsAfter.le_count {n : Nat} (hend : (fresh code env).EndsAfter n)
    (hstraight : Straight code) : n ≤ Nat.count (Boundary code) code.size + 1 := by
  rcases n with _ | _ | k
  · exact Nat.zero_le _
  · exact Nat.le_add_left 1 _
  · have hlt := lt_count_of_running hstraight env (hend.goesOn (k + 1) (Nat.lt_succ_self _))
    omega

end State

open State in
/-- **Code without jumps ends by itself.** A run that may take one step for each byte of the code
and one more never reports its limit. It takes at most one step for each boundary inside the code
and one more, and every step but the last one moves the program counter forward. -/
theorem run_straight (code : ByteArray) (env : Env) (limits : Limits)
    (hsize : code.size ≤ limits.codeSize) (hstraight : Straight code)
    (hsteps : code.size + 1 ≤ limits.steps) :
    ∃ o, run limits code env = .ok o ∧ (∀ limit, o.status ≠ .failed (.stepLimit limit)) ∧
      (fresh code env).EndsAfter o.steps ∧
      o.steps ≤ Nat.count (Boundary code) code.size + 1 ∧
      ∀ k, k + 1 < o.steps →
        ((fresh code env).dispatched k).pc < ((fresh code env).dispatched (k + 1)).pc := by
  obtain ⟨o, ho, hreports⟩ := run_eq_ok env hsize
  have hended : ¬ ((fresh code env).dispatched limits.steps).isRunning = true := by
    intro hrun
    obtain ⟨extra, hextra⟩ := Nat.exists_eq_add_of_le hsteps
    rw [hextra, Nat.add_right_comm] at hrun
    have hlt := lt_count_of_running hstraight env hrun
    have hle : Nat.count (Boundary code) code.size ≤ code.size := Nat.count_le _
    omega
  have hunlimited : o.status ≠ .failed (.stepLimit limits.steps) := fun hlimited =>
    hended (isRunning_iff.mpr (hreports.limited_iff.mp hlimited))
  obtain ⟨hend, hstatus, -⟩ := hreports.unlimited hunlimited
  refine ⟨o, ho, ?_, hend, hend.le_count hstraight, ?_⟩
  · intro limit
    rw [hstatus]
    exact (dispatched_fresh_ofStep code env o.steps).notLimited limit
  · intro k hk
    exact (dispatched_advances hstraight env (hend.goesOn (k + 1) hk)).2.2

open State in
/-- The bytes of both jumps stand behind pushes, the second of which the code breaks off. Three
boundaries inside the code make four steps. -/
theorem run_straight_hidden_jumps :
    Straight ⟨#[0x60, 0x56, 0x5b, 0x61, 0x57]⟩ ∧
      Nat.count (Boundary ⟨#[0x60, 0x56, 0x5b, 0x61, 0x57]⟩) 5 = 3 ∧
      run { steps := 6 } ⟨#[0x60, 0x56, 0x5b, 0x61, 0x57]⟩ {} =
        .ok ⟨.halted .endOfCode, .empty, 4⟩ ∧
      ((fresh ⟨#[0x60, 0x56, 0x5b, 0x61, 0x57]⟩ {}).dispatched 2).pc <
        ((fresh ⟨#[0x60, 0x56, 0x5b, 0x61, 0x57]⟩ {}).dispatched 3).pc := by
  have hstraight : Straight ⟨#[0x60, 0x56, 0x5b, 0x61, 0x57]⟩ := by decide
  have hrun : run { steps := 6 } ⟨#[0x60, 0x56, 0x5b, 0x61, 0x57]⟩ {} =
      .ok ⟨.halted .endOfCode, .empty, 4⟩ := rfl
  obtain ⟨o, ho, -, -, -, hforward⟩ := run_straight ⟨#[0x60, 0x56, 0x5b, 0x61, 0x57]⟩ {}
    { steps := 6 } (by decide) hstraight (by decide)
  rw [hrun] at ho
  cases ho
  exact ⟨hstraight, by decide, hrun, hforward 2 (by decide)⟩

end LocalNode.Machine
