import Lc3.Proofs.Allowance
import Lc3.Proofs.LoopSimulation

/-!
# Runs in slices

A run may be cut into slices. Between two slices, only the record of the last run differs from what
one longer run would have at that place, and nothing that a run does depends on that record
(`loop_withRecord`). So two runs in a row leave what one run with both allowances leaves, unless a
breakpoint or a wait for input stops the first (`run_sliced`). The finest slices are single steps: a
run without breakpoints leaves what as many steps leave (`run_steps`).
-/

namespace Lc3

variable {δ : Type} [Device δ]

namespace Machine

/-! ### The record of the last run -/

/- The machine with another record of its last run. -/
def withRecord (m : Machine δ) (stop : Option StopReason) (exceeded : Bool) : Machine δ :=
  { m with lastStop := stop, limitExceeded := exceeded }

section Record

variable (m : Machine δ) (stop : Option StopReason) (exceeded : Bool)

omit [Device δ] in
theorem bus_withRecord : (m.withRecord stop exceeded).bus = m.bus := rfl

theorem load_withRecord (a : Word) (effects : Bool) :
    (m.withRecord stop exceeded).load a effects =
      ⟨(m.load a effects).word, (m.load a effects).machine.withRecord stop exceeded,
        (m.load a effects).events⟩ := by
  unfold load
  split
  · rfl
  · split
    · rfl
    · split
      · dsimp only
        rw [bus_withRecord]
        cases (m.bus.read a effects).word <;> rfl
      · rfl

theorem store_withRecord (a w : Word) :
    (m.withRecord stop exceeded).store a w = (m.store a w).withRecord stop exceeded := by
  unfold store
  split
  · rfl
  · split
    · rfl
    · split
      · dsimp only
        rw [bus_withRecord]
        cases (m.bus.write a w).1 <;> rfl
      · rfl

theorem unseen_withRecord : Unseen fun m : Machine δ => m.withRecord stop exceeded where
  core _ := rfl
  flags _ := rfl
  clock _ := rfl
  condition _ := rfl
  queue _ := rfl
  here _ := rfl
  offer _ := rfl
  marked _ := rfl
  withCore _ _ := rfl
  load m := m.load_withRecord stop exceeded
  store m := m.store_withRecord stop exceeded
  polled _ := rfl
  completed _ _ := rfl
  undone _ _ _ := rfl
  parked _ := rfl

theorem step_withRecord :
    (m.withRecord stop exceeded).step.result = m.step.result ∧
      (m.withRecord stop exceeded).step.machine = m.step.machine.withRecord stop exceeded :=
  have h := (unseen_withRecord stop exceeded).loopSimulation.step (m := m) rfl
  ⟨h.1, h.2.2⟩

end Record

/-! ### Loops -/

/- What a loop does depends neither on the record nor on what was told before. -/
theorem loop_withRecord (watch : Bool) (spent : StopReason) (n : Nat) (m : Machine δ)
    (stop : Option StopReason) (exceeded : Bool) (events events' : Array Event) :
    (loop watch spent n (m.withRecord stop exceeded) events').reason =
        (loop watch spent n m events).reason ∧
      (loop watch spent n (m.withRecord stop exceeded) events').machine =
        (loop watch spent n m events).machine.withRecord stop exceeded := by
  obtain ⟨told, stops⟩ :=
    (unseen_withRecord stop exceeded).loopSimulation.loop (m := m) rfl watch spent n events events'
  exact ⟨stops.reason, stops.machine⟩

/-! ### Slices -/

end Machine

/-- The policy with another limit or count. -/
def Policy.within : Policy → Nat → Policy
  | toHalt _, n => toHalt (some n)
  | steps _, n => steps n
  | toInput _, n => toInput (some n)

namespace Machine

/- Where a run of a policy within an allowance ends. -/
theorem looped_within (m : Machine δ) (p : Policy) (n : Nat) :
    m.looped (p.within n) = loop p.watchesInput p.spent n { m with limitExceeded := false } #[] := by
  cases p <;> rfl

/- A run that follows another one goes on where the loop of that one ended. -/
theorem looped_after_run (m : Machine δ) (q p : Policy) (n : Nat) {η : Type}
    (handler : HitHandler δ η) (h : η) (events : Array Event) :
    let e := loop p.watchesInput p.spent n (m.looped q).machine events
    let later := (m.run q handler h).machine.looped (p.within n)
    later.reason = e.reason ∧
      later.machine = e.machine.withRecord (some (m.looped q).reason) false := by
  have start : ({ (m.run q handler h).machine with limitExceeded := false } : Machine δ) =
      (m.looped q).machine.withRecord (some (m.looped q).reason) false := rfl
  rw [looped_within, start]
  exact loop_withRecord _ _ _ _ _ _ _ _

theorem looped_retired (m : Machine δ) (p : Policy) : m.retired ≤ (m.looped p).machine.retired := by
  unfold looped
  rw [(loop_trail _ _ _ _ _).1]
  exact Nat.le_add_right _ _

/-- Slicing a run does not change it. If the first slice ends because its allowance is used up, or
because the machine halted or faulted, then the second one leaves the machine that one run with both
allowances leaves, and stops for the same reason, and together they complete as many instructions. -/
theorem run_sliced (m : Machine δ) (p : Policy) (a b : Nat) {η : Type} (handler : HitHandler δ η)
    (h : η) :
    let first := m.run (p.within a) handler h
    let second := first.machine.run (p.within b) handler first.handler
    let whole := m.run (p.within (a + b)) handler h
    (first.outcome.reason = p.spent ∨ first.outcome.reason = .halted ∨
        ∃ f, first.outcome.reason = .faulted f) →
      second.machine = whole.machine ∧ second.outcome.reason = whole.outcome.reason ∧
        first.outcome.executed + second.outcome.executed = whole.outcome.executed := by
  intro first second whole uninterrupted
  let e := m.looped (p.within a)
  have goes : e.reason.interrupts = false := by
    change e.reason = _ ∨ e.reason = _ ∨ ∃ f, e.reason = _ at uninterrupted
    rcases uninterrupted with spent | halted | ⟨f, faulted⟩
    · rw [spent]
      exact StopReason.not_interrupts_of_isSpent p.spent_isSpent
    · rw [halted]
      rfl
    · rw [faulted]
      rfl
  have longer : m.looped (p.within (a + b)) = loop p.watchesInput p.spent b e.machine e.events := by
    rw [looped_within, loop_add _ p.spent_isSpent, ← looped_within, goes, if_neg Bool.false_ne_true]
  have later : (first.machine.looped (p.within b)).reason = (m.looped (p.within (a + b))).reason ∧
      (first.machine.looped (p.within b)).machine =
        (m.looped (p.within (a + b))).machine.withRecord (some e.reason) false := by
    rw [longer]
    exact m.looped_after_run (p.within a) p b handler h e.events
  obtain ⟨reason, machine⟩ := later
  refine ⟨?_, reason, ?_⟩
  · calc second.machine
        = (first.machine.looped (p.within b)).machine.withRecord
            (some (first.machine.looped (p.within b)).reason)
            ((first.machine.looped (p.within b)).reason == .limitExceeded) := rfl
      _ = whole.machine := by
        rw [reason, machine]
        rfl
  · have retired : (first.machine.looped (p.within b)).machine.retired =
        (m.looped (p.within (a + b))).machine.retired := by
      rw [machine]
      rfl
    have start : m.retired ≤ e.machine.retired := m.looped_retired _
    have rest : e.machine.retired ≤ (first.machine.looped (p.within b)).machine.retired :=
      first.machine.looped_retired _
    change (e.machine.retired - m.retired) +
      ((first.machine.looped (p.within b)).machine.retired - e.machine.retired) =
      (m.looped (p.within (a + b))).machine.retired - m.retired
    omega

/- A program that does nothing, with a breakpoint behind its first instruction. -/
def halfway : Machine Peripheral where
  memory := Bank.fill 16 0
  registers := Bank.fill 3 0
  breakpoints := Breakpoints.set {} 0x3001

/- The cut is right in front of the breakpoint. -/
theorem run_sliced_halfway :
    let first := halfway.run (.steps 1) HitHandler.ignore ()
    let second := first.machine.run (.steps 2) HitHandler.ignore ()
    let whole := halfway.run (.steps 3) HitHandler.ignore ()
    first.outcome = ⟨.paused, 1⟩ ∧ whole.outcome.reason = .breakpoint ⟨0, 0x3001⟩ ∧
      second.machine = whole.machine ∧ second.outcome.reason = whole.outcome.reason ∧
      first.outcome.executed + second.outcome.executed = whole.outcome.executed := by
  intro first second whole
  have spent : first.outcome = ⟨.paused, 1⟩ := by decide +kernel
  have stop : whole.outcome.reason = .breakpoint ⟨0, 0x3001⟩ := by decide +kernel
  have reason : first.outcome.reason = .paused := congrArg Outcome.reason spent
  exact ⟨spent, stop, run_sliced halfway (.steps 0) 1 2 HitHandler.ignore () (Or.inl reason)⟩

/-! ### Single steps -/

theorem after_of_stopped {m : Machine δ} (stopped : m.condition ≠ .ready) (n : Nat) :
    m.after n = m := by
  induction n with
  | zero => rfl
  | succ n ih => rw [after_succ, ih, step_of_not_ready stopped]

theorem after_add (m : Machine δ) (i j : Nat) : m.after (i + j) = (m.after i).after j := by
  rw [Nat.add_comm]
  exact Function.iterate_add_apply _ j i m

theorem after_withRecord (m : Machine δ) (stop : Option StopReason) (exceeded : Bool) (n : Nat) :
    (m.withRecord stop exceeded).after n = (m.after n).withRecord stop exceeded := by
  induction n with
  | zero => rfl
  | succ n ih => rw [after_succ, after_succ, ih, (step_withRecord ..).2]

theorem step_counts (m : Machine δ) :
    m.step.machine.retired = m.retired ∨ m.step.machine.retired = m.retired + 1 := by
  by_cases ready : m.condition = .ready
  · obtain ⟨f, -, -, host⟩ | ⟨c, -, -, host⟩ := step_host ready
    · exact Or.inl (congrArg Host.retired host)
    · exact Or.inr (congrArg Host.retired host)
  · rw [step_of_not_ready ready]
    exact Or.inl rfl

theorem step_stops {m : Machine δ} (ended : m.step.result ≠ .retired) :
    m.step.machine.condition ≠ .ready := by
  unfold step at ended ⊢
  cases hc : m.condition with
  | ready =>
    rw [hc] at ended
    dsimp only at ended ⊢
    cases run : Cycle.oneInstruction.run { machine := m } with
    | ok halts p =>
      rw [run] at ended
      cases halts with
      | false => exact absurd rfl ended
      | true => exact Condition.noConfusion
    | error f p => exact Condition.noConfusion
  | halted =>
    dsimp only
    rw [hc]
    exact Condition.noConfusion
  | faulted f =>
    dsimp only
    rw [hc]
    exact Condition.noConfusion

/- The steps that complete an instruction account for the count. -/
theorem after_retired (m : Machine δ) (n : Nat) :
    (m.after n).retired = m.retired +
      (List.range n).countP fun i => (m.after (i + 1)).retired = (m.after i).retired + 1 := by
  induction n with
  | zero => rfl
  | succ n ih =>
    rw [List.range_succ, List.countP_append, List.countP_singleton, after_succ, ← Nat.add_assoc,
      ← ih]
    obtain same | counted := (m.after n).step_counts
    · rw [same, if_neg (by simp)]
      rfl
    · rw [counted, if_pos (by simp)]

/- Without breakpoints, only its allowance and the machine stop a loop that does not watch. -/
theorem loop_after {m : Machine δ} (free : m.breakpoints.list = []) (spent : StopReason) (n : Nat)
    (events : Array Event) :
    (loop false spent n m events).machine = m.after n ∧
      (loop false spent n m events).reason = (m.after n).condition.stop?.getD spent := by
  induction n generalizing m events with
  | zero =>
    change _ = m ∧ _ = m.condition.stop?.getD spent
    cases hs : m.condition.stop? with
    | some r =>
      rw [loop_of_stopped hs]
      exact ⟨rfl, rfl⟩
    | none =>
      rw [loop_zero (Condition.ready_of_stop? hs)]
      exact ⟨rfl, rfl⟩
  | succ n ih =>
    cases hs : m.condition.stop? with
    | some r =>
      have stopped : m.condition ≠ .ready := by
        intro ready
        rw [ready] at hs
        cases hs
      rw [loop_of_stopped hs, after_of_stopped stopped, hs]
      exact ⟨rfl, rfl⟩
    | none =>
      have ready := Condition.ready_of_stop? hs
      have clear : m.breakpointHere = none := by
        unfold breakpointHere Breakpoints.at?
        rw [free]
        exact ite_self _
      have later : m.step.machine.breakpoints.list = [] := by
        obtain ⟨f, -, -, host⟩ | ⟨c, -, -, host⟩ := step_host ready
        · exact (congrArg (·.breakpoints.list) host).trans free
        · exact (congrArg (·.breakpoints.list) host).trans free
      rw [loop_step ready _ _ _ clear]
      exact ih later _

/-- A run without breakpoints takes single steps. It leaves what as many steps leave, but for the record
of the last run, counts those that complete an instruction, and stops for what the machine is in. Once
a step halts or faults, the later ones change nothing. -/
theorem run_steps (m : Machine δ) (free : m.breakpoints.list = []) (n : Nat) {η : Type}
    (handler : HitHandler δ η) (h : η) :
    let r := m.run (.steps n) handler h
    r.machine = { m.after n with lastStop := some r.outcome.reason, limitExceeded := false } ∧
      r.outcome.executed = ((List.range n).countP fun i =>
        (m.after (i + 1)).retired = (m.after i).retired + 1) ∧
      r.outcome.reason = (m.after n).condition.stop?.getD .paused ∧
      ∀ i j, i < j → (m.after i).step.result ≠ .retired → m.after j = m.after (i + 1) := by
  intro r
  obtain ⟨machine, reason⟩ := loop_after (m := m.withRecord m.lastStop false) free .paused n #[]
  rw [after_withRecord] at machine reason
  refine ⟨?_, ?_, reason, ?_⟩
  · have unlimited : (r.outcome.reason == .limitExceeded) = false := by
      change ((loop false .paused n (m.withRecord m.lastStop false) #[]).reason == _) = false
      rw [reason]
      cases ((m.after n).withRecord m.lastStop false).condition <;> rfl
    calc r.machine
        = (loop false .paused n (m.withRecord m.lastStop false) #[]).machine.withRecord
            (some r.outcome.reason) (r.outcome.reason == .limitExceeded) := rfl
      _ = (m.after n).withRecord (some r.outcome.reason) false := by
        rw [machine, unlimited]
        rfl
  · have retired := m.after_retired n
    change (loop false .paused n (m.withRecord m.lastStop false) #[]).machine.retired - m.retired = _
    rw [machine]
    change (m.after n).retired - m.retired = _
    omega
  · intro i j later ended
    obtain ⟨d, rfl⟩ := Nat.exists_eq_add_of_le later
    rw [after_add]
    refine after_of_stopped ?_ d
    rw [after_succ]
    exact step_stops ended

/- A program that adds once and then is in front of a word that is no instruction. -/
def derailed : Machine Peripheral where
  memory := ((Bank.fill 16 0).set 0x3000 0x1021).set 0x3001 0xD000
  registers := Bank.fill 3 0

theorem run_steps_derailed :
    let r := derailed.run (.steps 4) HitHandler.ignore ()
    (derailed.after 1).step.result = .faulted (.illegalInstruction 0x3001 0xD000) ∧
      r.outcome = ⟨.faulted (.illegalInstruction 0x3001 0xD000), 1⟩ ∧
      r.machine = { derailed.after 4 with lastStop := some r.outcome.reason, limitExceeded := false } ∧
      derailed.after 4 = derailed.after 2 := by
  have result : (derailed.after 1).step.result = .faulted (.illegalInstruction 0x3001 0xD000) := by
    decide +kernel
  have outcome : (derailed.run (.steps 4) HitHandler.ignore ()).outcome =
      ⟨.faulted (.illegalInstruction 0x3001 0xD000), 1⟩ := by
    decide +kernel
  obtain ⟨machine, -, -, settled⟩ := run_steps derailed rfl 4 HitHandler.ignore ()
  have stays := settled 1 4 (by decide) (by rw [result]; exact StepResult.noConfusion)
  exact ⟨result, outcome, machine, stays⟩

end Machine

end Lc3
