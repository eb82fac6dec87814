import LocalNode.Proofs.Machine.Reachable

/-!
Running under a limit on the number of steps.

A run is compared with the plain repetition of the instruction at the program counter. Either the
execution ends by itself after some number of steps, and every run that may take that many gives
exactly this end, or it still goes on when the limit is spent, and the run adds the fault that says
so. That there is no third case needs one fact about instructions: none of them ever gives the
faults that only a spent limit or an execution that had already ended can give.

The comparison is an induction on the steps left, for any state. What runs under two limits have to
do with each other follows without another one.
-/

namespace LocalNode.Machine

namespace State

/-! ### Repeated steps -/

/-- The state after the instruction at the program counter was carried out `n` times. -/
def dispatched (s : State) (n : Nat) : State :=
  s.after (List.replicate n .dispatch)

theorem dispatched_zero (s : State) : s.dispatched 0 = s :=
  rfl

theorem dispatched_succ (s : State) (n : Nat) :
    s.dispatched (n + 1) = s.dispatch.2.dispatched n := by
  unfold dispatched
  rw [List.replicate_succ, after_cons]
  rfl

theorem dispatched_add (s : State) (m n : Nat) :
    s.dispatched (m + n) = (s.dispatched m).dispatched n := by
  unfold dispatched after
  rw [← List.replicate_append_replicate, List.foldl_append]

theorem dispatch_of_running {s : State} (h : s.isRunning = true) : s.dispatch.2 = s.step := by
  simp only [dispatch, guarded, h, if_true]

theorem dispatched_of_ended {s : State} (h : s.isRunning = false) (n : Nat) :
    s.dispatched n = s :=
  (frozen_of_ended h).after _

/-- An execution that goes on after some steps went on before them. -/
theorem isRunning_of_dispatched {s : State} {n : Nat} (h : (s.dispatched n).isRunning = true) :
    s.isRunning = true := by
  cases hs : s.isRunning with
  | true => rfl
  | false =>
      rw [dispatched_of_ended hs, hs] at h
      cases h

/-- The execution ends with its `n`-th step from here, and not before. -/
structure EndsAfter (s : State) (n : Nat) : Prop where
  ended : (s.dispatched n).isRunning = false
  goesOn : ∀ k, k < n → (s.dispatched k).isRunning = true

namespace EndsAfter

variable {s : State} {n : Nat}

theorem isRunning (h : s.EndsAfter (n + 1)) : s.isRunning = true :=
  h.goesOn 0 (Nat.succ_pos n)

theorem step (h : s.EndsAfter (n + 1)) : s.step.EndsAfter n := by
  have hstep : ∀ k, s.step.dispatched k = s.dispatched (k + 1) := by
    intro k
    rw [dispatched_succ, dispatch_of_running h.isRunning]
  refine ⟨?_, ?_⟩
  · rw [hstep]
    exact h.ended
  · intro k hk
    rw [hstep]
    exact h.goesOn (k + 1) (Nat.succ_lt_succ hk)

/-- Steps beyond the end change nothing. -/
theorem dispatched_of_le (h : s.EndsAfter n) {m : Nat} (hm : n ≤ m) :
    s.dispatched m = s.dispatched n := by
  obtain ⟨extra, rfl⟩ := Nat.exists_eq_add_of_le hm
  rw [dispatched_add, dispatched_of_ended h.ended]

/-- There is only one number of steps after which an execution ends. -/
theorem unique (h : s.EndsAfter n) {m : Nat} (h' : s.EndsAfter m) : n = m := by
  rcases Nat.lt_trichotomy n m with hlt | heq | hlt
  · have hrun := h'.goesOn n hlt
    rw [h.ended] at hrun
    cases hrun
  · exact heq
  · have hrun := h.goesOn m hlt
    rw [h'.ended] at hrun
    cases hrun

end EndsAfter

/-- Within any number of steps the execution ends, unless it goes on after all of them. -/
theorem endsAfter_or_running (s : State) (m : Nat) :
    (∃ n, n ≤ m ∧ s.EndsAfter n) ∨ (s.dispatched m).isRunning = true := by
  induction m generalizing s with
  | zero =>
      cases hs : s.isRunning with
      | true => exact .inr hs
      | false => exact .inl ⟨0, Nat.le_refl 0, hs, fun k hk => absurd hk (Nat.not_lt_zero k)⟩
  | succ m ih =>
      cases hs : s.isRunning with
      | false => exact .inl ⟨0, Nat.zero_le _, hs, fun k hk => absurd hk (Nat.not_lt_zero k)⟩
      | true =>
          rw [dispatched_succ, dispatch_of_running hs]
          rcases ih s.step with ⟨n, hn, hend⟩ | hrun
          · refine .inl ⟨n + 1, Nat.succ_le_succ hn, ?_, ?_⟩
            · rw [dispatched_succ, dispatch_of_running hs]
              exact hend.ended
            · intro k hk
              cases k with
              | zero => exact hs
              | succ k =>
                  rw [dispatched_succ, dispatch_of_running hs]
                  exact hend.goesOn k (Nat.lt_of_succ_lt_succ hk)
          · exact .inr hrun

/-! ### Runs as repeated steps

The induction is on the steps that are left. A run asks whether the execution goes on before every
step and once more when no step is left, which is where the limit is reported.
-/

/-- With enough steps left, a run stops where the execution ends and has counted the steps. -/
theorem runFrom_of_endsAfter (limit : Nat) {n : Nat} : ∀ {left : Nat} {s : State},
    s.EndsAfter n → n ≤ left → left ≤ limit →
      s.runFrom limit left = (s.dispatched n, limit - left + n) := by
  induction n with
  | zero =>
      intro left s hend _ _
      have hs : s.isRunning = false := hend.ended
      cases left with
      | zero => simp [runFrom, hs, dispatched_zero]
      | succ left => simp [runFrom, hs, dispatched_zero]
  | succ n ih =>
      intro left s hend hn hleft
      cases left with
      | zero => omega
      | succ left =>
          have hrun := hend.isRunning
          have hcount : limit - left + n = limit - (left + 1) + (n + 1) := by omega
          rw [runFrom, if_pos hrun, ih hend.step (by omega) (by omega), hcount, dispatched_succ,
            dispatch_of_running hrun]

/-- A run that spends all its steps before the execution ends adds the fault that says so. -/
theorem runFrom_of_running (limit : Nat) {left : Nat} : ∀ {s : State},
    (s.dispatched left).isRunning = true →
      s.runFrom limit left = ((s.dispatched left).fail (.stepLimit limit), limit) := by
  induction left with
  | zero =>
      intro s hrun
      have hs : s.isRunning = true := hrun
      simp [runFrom, hs, dispatched_zero]
  | succ left ih =>
      intro s hrun
      have hs := isRunning_of_dispatched hrun
      rw [dispatched_succ, dispatch_of_running hs] at hrun ⊢
      rw [runFrom, if_pos hs, ih hrun]

theorem execute_of_endsAfter {s : State} {n limit : Nat} (hend : s.EndsAfter n)
    (hn : n ≤ limit) : s.execute limit = (s.dispatched n, n) := by
  rw [execute, runFrom_of_endsAfter limit hend hn (Nat.le_refl limit), Nat.sub_self, Nat.zero_add]

theorem execute_of_running {s : State} {limit : Nat}
    (hrun : (s.dispatched limit).isRunning = true) :
    s.execute limit = ((s.dispatched limit).fail (.stepLimit limit), limit) :=
  runFrom_of_running limit hrun

end State

/-! ### What steps never report

If an instruction could give the fault for a spent limit, an outcome would not tell whether the
limit was spent. None gives it, and none says that the execution had ended before.
-/

/-- What the status after a step satisfies: only a spent limit and a step after the end are reported
by the faults that are left out. -/
structure Status.OfStep (status : Status) : Prop where
  notHalted : status ≠ .failed .alreadyHalted
  notLimited : ∀ limit, status ≠ .failed (.stepLimit limit)

namespace State

variable {code : ByteArray} {env : Env}

theorem effect_ofStep {s s' : State} {i : Instr} (hrun : s.status = .running)
    (he : Effect i s s') : s'.status.OfStep := by
  cases he with
  | goesOn =>
      show s.status.OfStep
      rw [hrun]
      exact ⟨nofun, nofun⟩
  | stops | returns | reverts => exact ⟨nofun, nofun⟩
  | refuses refused =>
      refine ⟨?_, ?_⟩
      · intro h
        cases h
        exact refused
      · intro limit h
        cases h
        exact refused
  | interrupts interrupted =>
      refine ⟨?_, ?_⟩
      · intro h
        cases h
        exact interrupted
      · intro limit h
        cases h
        exact interrupted

theorem step_ofStep {s : State} (h : Sound code env s) (hrun : s.status = .running) :
    s.step.status.OfStep := by
  unfold step
  split
  · rename_i b hbyte
    rcases execByte_effect b s h.depth with ⟨i, -, he⟩ | ⟨-, hfail⟩
    · exact effect_ofStep (s := { s with pc := s.pc + 1 }) hrun he
    · rw [hfail]
      exact ⟨nofun, nofun⟩
  · exact ⟨nofun, nofun⟩

theorem dispatched_ofStep (n : Nat) : ∀ {s : State}, Sound code env s → s.status.OfStep →
    (s.dispatched n).status.OfStep := by
  induction n with
  | zero => intro s _ hs; exact hs
  | succ n ih =>
      intro s h hs
      cases hrun : s.isRunning with
      | false =>
          rw [dispatched_of_ended hrun]
          exact hs
      | true =>
          rw [dispatched_succ, dispatch_of_running hrun]
          have hstatus := isRunning_iff.mp hrun
          exact ih (h.step hstatus) (step_ofStep h hstatus)

end State

/-! ### Outcomes -/

section Outcomes

open State

variable {code : ByteArray} {env : Env}

/-- What the outcome of running code under a limit on the steps says. -/
structure Outcome.Reports (o : Outcome) (code : ByteArray) (env : Env) (limit : Nat) : Prop where
  /-- The execution has ended. -/
  ended : o.status ≠ .running
  /-- No step was tried after the end. -/
  notHalted : o.status ≠ .failed .alreadyHalted
  within : o.steps ≤ limit
  /-- The limit is reported exactly if the execution goes on when it is spent. -/
  limited_iff : o.status = .failed (.stepLimit limit) ↔
    ((fresh code env).dispatched limit).status = .running
  limited : o.status = .failed (.stepLimit limit) → o.steps = limit ∧ o.output = .empty
  /-- Otherwise the outcome is that of repeating steps until the execution ends. -/
  unlimited : o.status ≠ .failed (.stepLimit limit) →
    (fresh code env).EndsAfter o.steps ∧
      o.status = ((fresh code env).dispatched o.steps).status ∧
      o.output = ((fresh code env).dispatched o.steps).output

theorem dispatched_fresh_ofStep (code : ByteArray) (env : Env) (n : Nat) :
    ((fresh code env).dispatched n).status.OfStep :=
  dispatched_ofStep n (Sound.fresh code env) ⟨nofun, nofun⟩

theorem reports_of_endsAfter {n limit : Nat} (hend : (fresh code env).EndsAfter n)
    (hn : n ≤ limit) :
    Outcome.Reports
      ⟨((fresh code env).dispatched n).status, ((fresh code env).dispatched n).output, n⟩
      code env limit := by
  have hstatus := dispatched_fresh_ofStep code env n
  have hended : ((fresh code env).dispatched n).status ≠ .running := by
    intro hrunning
    have hrun := isRunning_iff.mpr hrunning
    rw [hend.ended] at hrun
    cases hrun
  exact
    { ended := hended
      notHalted := hstatus.notHalted
      within := hn
      limited_iff := by
        rw [hend.dispatched_of_le hn]
        exact ⟨fun h => absurd h (hstatus.notLimited limit), fun h => absurd h hended⟩
      limited := fun h => absurd h (hstatus.notLimited limit)
      unlimited := fun _ => ⟨hend, rfl, rfl⟩ }

theorem reports_of_running {limit : Nat}
    (hrun : ((fresh code env).dispatched limit).isRunning = true) :
    Outcome.Reports
      ⟨.failed (.stepLimit limit), ((fresh code env).dispatched limit).output, limit⟩
      code env limit := by
  have hstatus := isRunning_iff.mp hrun
  have hsound : Sound code env ((fresh code env).dispatched limit) :=
    (Sound.fresh code env).after _
  exact
    { ended := nofun
      notHalted := nofun
      within := Nat.le_refl limit
      limited_iff := ⟨fun _ => hstatus, fun _ => rfl⟩
      limited := fun _ => ⟨rfl, hsound.output_empty hstatus⟩
      unlimited := fun h => absurd rfl h }

/-- Code that is not too long has an outcome. -/
theorem run_eq_ok (env : Env) {limits : Limits} (hsize : code.size ≤ limits.codeSize) :
    ∃ o, run limits code env = .ok o ∧ o.Reports code env limits.steps := by
  have heq : run limits code env =
      .ok ⟨((fresh code env).execute limits.steps).1.status,
        ((fresh code env).execute limits.steps).1.output,
        ((fresh code env).execute limits.steps).2⟩ := by
    rw [run, if_neg (Nat.not_lt.mpr hsize)]
  rcases (fresh code env).endsAfter_or_running limits.steps with ⟨n, hn, hend⟩ | hrun
  · rw [execute_of_endsAfter hend hn] at heq
    exact ⟨_, heq, reports_of_endsAfter hend hn⟩
  · rw [execute_of_running hrun] at heq
    exact ⟨_, heq, reports_of_running hrun⟩

namespace Outcome.Reports

variable {o o' : Outcome} {limit limit' : Nat}

/-- A limit is spent only if every smaller one is. -/
theorem limited_of_le (h : o.Reports code env limit) (h' : o'.Reports code env limit')
    (hle : limit ≤ limit') (hlimited : o'.status = .failed (.stepLimit limit')) :
    o.status = .failed (.stepLimit limit) := by
  have hrun := isRunning_iff.mpr (h'.limited_iff.mp hlimited)
  obtain ⟨extra, rfl⟩ := Nat.exists_eq_add_of_le hle
  rw [dispatched_add] at hrun
  exact h.limited_iff.mpr (isRunning_iff.mp (isRunning_of_dispatched hrun))

/-- An outcome that does not report the limit stays the same under a larger one. -/
theorem eq_of_le (h : o.Reports code env limit) (h' : o'.Reports code env limit')
    (hle : limit ≤ limit') (hunlimited : o.status ≠ .failed (.stepLimit limit)) : o' = o := by
  obtain ⟨hend, hstatus, houtput⟩ := h.unlimited hunlimited
  obtain ⟨hend', hstatus', houtput'⟩ :=
    h'.unlimited fun hlimited => hunlimited (h.limited_of_le h' hle hlimited)
  have hsteps : o'.steps = o.steps := hend'.unique hend
  rw [hsteps] at hstatus' houtput'
  obtain ⟨status, output, steps⟩ := o
  obtain ⟨status', output', steps'⟩ := o'
  simp only [Outcome.mk.injEq]
  exact ⟨hstatus'.trans hstatus.symm, houtput'.trans houtput.symm, hsteps⟩

end Outcome.Reports

/-- **A run ends where the execution ends, or reports that its limit is spent.** It always has an
outcome, which says what repeating steps would have shown. So a run that does not report its limit
has the same outcome under every larger one, and a limit is reported only if every smaller one
is. -/
theorem run_reports (code : ByteArray) (env : Env) (limits limits' : Limits)
    (hsize : code.size ≤ limits.codeSize) (hsize' : code.size ≤ limits'.codeSize)
    (hle : limits.steps ≤ limits'.steps) :
    ∃ o o', run limits code env = .ok o ∧ run limits' code env = .ok o' ∧
      o.Reports code env limits.steps ∧ o'.Reports code env limits'.steps ∧
      (o.status ≠ .failed (.stepLimit limits.steps) → o' = o) ∧
      (o'.status = .failed (.stepLimit limits'.steps) →
        o.status = .failed (.stepLimit limits.steps)) := by
  obtain ⟨o, ho, hreports⟩ := run_eq_ok env hsize
  obtain ⟨o', ho', hreports'⟩ := run_eq_ok env hsize'
  exact ⟨o, o', ho, ho', hreports, hreports', hreports.eq_of_le hreports' hle,
    hreports.limited_of_le hreports' hle⟩

/-- A push and the step that finds no code behind it are two steps. A run that may take no more has
the same outcome as one that may take millions. -/
theorem run_reports_last_step :
    run { steps := 2 } ⟨#[0x5f]⟩ {} = run {} ⟨#[0x5f]⟩ {} ∧
      (fresh ⟨#[0x5f]⟩ {}).EndsAfter 2 := by
  obtain ⟨o, o', ho, ho', hreports, -, hstable, -⟩ :=
    run_reports ⟨#[0x5f]⟩ {} { steps := 2 } {} (by decide) (by decide) (by decide)
  have hrun : run { steps := 2 } ⟨#[0x5f]⟩ {} = .ok ⟨.halted .endOfCode, .empty, 2⟩ := rfl
  rw [ho] at hrun
  cases hrun
  refine ⟨?_, (hreports.unlimited nofun).1⟩
  rw [ho, ho', hstable nofun]

end Outcomes

end LocalNode.Machine
