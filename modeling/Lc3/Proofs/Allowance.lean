import Lc3.Device.Peripheral
import Lc3.Proofs.Trail

/-!
# What an allowance changes

A loop takes the same steps under every allowance, as far as the allowance goes: a loop that was not
stopped on its way goes on from its last machine if it gets more (`loop_add`), and one that ended
before its allowance did ends in the same way with more (`loop_mono`). Each step of a loop completes
one instruction or is the last one, so the instructions count against the allowance
(`loop_completed`). Together they say what a run does within each limit, if it is known for one
(`run_limit`).
-/

namespace Lc3

variable {δ : Type}

/-! ### Reasons to stop -/

/- Something on the way stopped the run, and not the machine or the allowance. -/
def StopReason.interrupts : StopReason → Bool
  | .inputRequested => true
  | .breakpoint _ => true
  | _ => false

/- Only the allowance stops a run for this reason. -/
def StopReason.isSpent : StopReason → Bool
  | .limitExceeded => true
  | .paused => true
  | _ => false

theorem StopReason.not_interrupts_of_isSpent {r : StopReason} (h : r.isSpent = true) :
    r.interrupts = false := by
  cases r with
  | limitExceeded => rfl
  | paused => rfl
  | _ => cases h

theorem Policy.spent_isSpent (p : Policy) : p.spent.isSpent = true := by
  cases p <;> rfl

theorem Condition.not_interrupts_of_stop? {c : Condition} {r : StopReason} (h : c.stop? = some r) :
    r.interrupts = false := by
  cases c <;> cases h <;> rfl

theorem Condition.not_isSpent_of_stop? {c : Condition} {r : StopReason} (h : c.stop? = some r) :
    r.isSpent = false := by
  cases c <;> cases h <;> rfl

/-- How many instructions of its allowance a loop has completed that ends for a reason. A halt comes
with an instruction that completes, a fault and what stops the loop on its way come in front of one. -/
inductive Completed (spent : StopReason) (n : Nat) : StopReason → Nat → Prop where
  | all : Completed spent n spent n
  | halted {k : Nat} (some : 0 < k) (within : k ≤ n) : Completed spent n .halted k
  | before {r : StopReason} {k : Nat} (unspent : r ≠ spent) (unhalted : r ≠ .halted) (left : k < n) :
      Completed spent n r k

namespace Completed

variable {spent r : StopReason} {n k : Nat}

theorem succ (h : Completed spent n r k) : Completed spent (n + 1) r (k + 1) := by
  cases h with
  | all => exact .all
  | halted some within => exact .halted (Nat.succ_pos k) (Nat.succ_le_succ within)
  | before unspent unhalted left => exact .before unspent unhalted (Nat.succ_lt_succ left)

theorem le (h : Completed spent n r k) : k ≤ n := by
  cases h with
  | all => exact Nat.le_refl n
  | halted some within => exact within
  | before unspent unhalted left => exact Nat.le_of_lt left

theorem eq_of_spent (hs : spent.isSpent = true) (h : Completed spent n spent k) : k = n := by
  generalize he : spent = r at h
  cases h with
  | all => rfl
  | halted some within =>
    rw [he] at hs
    cases hs
  | before unspent unhalted left => exact absurd rfl unspent

theorem pos_of_halted (hs : spent.isSpent = true) (h : Completed spent n .halted k) : 0 < k := by
  generalize he : StopReason.halted = r at h
  cases h with
  | all =>
    rw [← he] at hs
    cases hs
  | halted some within => exact some
  | before unspent unhalted left => exact absurd he.symm unhalted

theorem lt_or_halted (h : Completed spent n r k) (unspent : r ≠ spent) :
    k < n ∨ k = n ∧ r = .halted := by
  cases h with
  | all => exact absurd rfl unspent
  | halted some within => exact (Nat.lt_or_eq_of_le within).imp_right fun e => ⟨e, rfl⟩
  | before _ unhalted left => exact Or.inl left

end Completed

variable [Device δ]

namespace Machine

/-! ### Where loops end -/

/- On its way, or at a machine that stops it, or when its allowance is used up. -/
theorem loop_reason (watch : Bool) (spent : StopReason) (n : Nat) (m : Machine δ)
    (events : Array Event) :
    let e := loop watch spent n m events
    e.reason.interrupts = true ∨ e.machine.condition.stop? = some e.reason ∨
      e.reason = spent ∧ e.machine.condition = .ready := by
  refine loop_induction (motive := fun _ r e => r.interrupts = true ∨ e.condition.stop? = some r ∨
    r = spent ∧ e.condition = .ready) ?_ ?_ n m events
  · intro m r e rests
    cases rests with
    | stopped h => exact Or.inr (Or.inl h)
    | spent ready => exact Or.inr (Or.inr ⟨rfl, ready⟩)
    | breakpoint => exact Or.inl rfl
    | waits => exact Or.inl rfl
  · intro m x r e _ later
    exact later

/-! ### More allowance -/

/-- A loop with more allowance is the loop followed by one with the rest, unless something stops it on
its way. -/
theorem loop_add (watch : Bool) {spent : StopReason} (hs : spent.isSpent = true) (a b : Nat)
    (m : Machine δ) (events : Array Event) :
    let e := loop watch spent a m events
    loop watch spent (a + b) m events =
      if e.reason.interrupts then e else loop watch spent b e.machine e.events := by
  have stopped {a : Nat} {m : Machine δ} {events : Array Event} {r : StopReason}
      (stop : m.condition.stop? = some r) :
      loop watch spent (a + b) m events =
        if (loop watch spent a m events).reason.interrupts then loop watch spent a m events
        else loop watch spent b (loop watch spent a m events).machine
          (loop watch spent a m events).events := by
    rw [loop_of_stopped stop, loop_of_stopped stop]
    dsimp only
    rw [Condition.not_interrupts_of_stop? stop, if_neg Bool.false_ne_true, loop_of_stopped stop]
  induction a generalizing m events with
  | zero =>
    cases stop : m.condition.stop? with
    | some r => exact stopped stop
    | none =>
      rw [Nat.zero_add, loop_zero (Condition.ready_of_stop? stop)]
      dsimp only
      rw [StopReason.not_interrupts_of_isSpent hs, if_neg Bool.false_ne_true]
  | succ a ih =>
    cases stop : m.condition.stop? with
    | some r => exact stopped stop
    | none =>
      rw [Nat.succ_add]
      cases turn : m.turn? watch with
      | some x =>
        rw [loop_of_turn turn, loop_of_turn turn]
        exact ih x.step.machine (events ++ x.step.events)
      | none =>
        obtain ⟨b, -, ends⟩ | ⟨-, -, -, ends⟩ :=
          loop_of_no_turn (Condition.ready_of_stop? stop) turn spent events
        · rw [ends, ends]
          rfl
        · rw [ends, ends]
          rfl

/- A loop that its allowance ended has left the machine ready, and goes on from there. -/
theorem loop_of_spent {watch : Bool} {spent : StopReason} (hs : spent.isSpent = true) {a : Nat}
    {m : Machine δ} {events : Array Event} (reason : (loop watch spent a m events).reason = spent) :
    let e := loop watch spent a m events
    e.machine.condition = .ready ∧
      ∀ b, loop watch spent (a + b) m events = loop watch spent b e.machine e.events := by
  constructor
  · obtain interrupts | stopped | ⟨-, ready⟩ := loop_reason watch spent a m events
    · rw [reason, StopReason.not_interrupts_of_isSpent hs] at interrupts
      cases interrupts
    · rw [reason] at stopped
      exact absurd hs (Bool.eq_false_iff.mp (Condition.not_isSpent_of_stop? stopped))
    · exact ready
  · intro b
    rw [loop_add watch hs, reason, StopReason.not_interrupts_of_isSpent hs,
      if_neg Bool.false_ne_true]

theorem loop_mono {watch : Bool} {spent : StopReason} (hs : spent.isSpent = true) {a b : Nat}
    (le : a ≤ b) {m : Machine δ} {events : Array Event}
    (unspent : (loop watch spent a m events).reason ≠ spent) :
    loop watch spent b m events = loop watch spent a m events := by
  obtain ⟨c, rfl⟩ := Nat.exists_eq_add_of_le le
  rw [loop_add watch hs]
  split
  · rfl
  · next goes =>
    obtain interrupts | stopped | ⟨reason, -⟩ := loop_reason watch spent a m events
    · exact absurd interrupts goes
    · exact loop_of_stopped stopped watch spent c _
    · exact absurd reason unspent

/-! ### Instructions and the allowance -/

/- The induction is on the allowance. A step of the loop completes an instruction and uses up one, or
faults and ends the loop. -/
theorem loop_completed (watch : Bool) {spent : StopReason} (hs : spent.isSpent = true) (n : Nat)
    {m : Machine δ} (ready : m.condition = .ready) (events : Array Event) :
    ∃ k, (loop watch spent n m events).machine.retired = m.retired + k ∧
      Completed spent n (loop watch spent n m events).reason k := by
  have unspent {r : StopReason} (h : r.isSpent = false) : r ≠ spent := by
    rintro rfl
    rw [h] at hs
    cases hs
  induction n generalizing m events with
  | zero =>
    rw [loop_zero ready]
    exact ⟨0, rfl, .all⟩
  | succ n ih =>
    cases turn : m.turn? watch with
    | none =>
      obtain ⟨b, -, ends⟩ | ⟨-, -, -, ends⟩ := loop_of_no_turn ready turn spent events
      · rw [ends]
        exact ⟨0, rfl, .before (unspent rfl) StopReason.noConfusion (Nat.succ_pos n)⟩
      · rw [ends, m.awaitsInput_frame]
        exact ⟨0, rfl, .before (unspent rfl) StopReason.noConfusion (Nat.succ_pos n)⟩
    | some x =>
      have before : x.retired = m.retired := congrArg Host.retired (turn?_host turn)
      rw [loop_of_turn turn]
      obtain ⟨f, -, -, host⟩ | ⟨c, -, unfaulted, host⟩ := step_host (turn?_ready turn)
      · have condition : x.step.machine.condition.stop? = some (.faulted f) :=
          congrArg Condition.stop? (congrArg Host.condition host)
        have retired : x.step.machine.retired = x.retired := congrArg Host.retired host
        rw [loop_of_stopped condition]
        exact ⟨0, retired.trans before,
          .before (unspent rfl) StopReason.noConfusion (Nat.succ_pos n)⟩
      · have condition : x.step.machine.condition = c := congrArg Host.condition host
        have retired : x.step.machine.retired = x.retired + 1 := congrArg Host.retired host
        cases c with
        | ready =>
          obtain ⟨k, later, completed⟩ := ih condition (events ++ x.step.events)
          refine ⟨k + 1, ?_, completed.succ⟩
          rw [later, retired, before]
          omega
        | halted =>
          rw [loop_of_stopped (congrArg Condition.stop? condition)]
          refine ⟨1, ?_, .halted Nat.one_pos (Nat.succ_pos n)⟩
          rw [retired, before]
        | faulted f => exact absurd rfl (unfaulted f)

/- A loop that its allowance ended is not ahead of one that ended otherwise. -/
theorem loop_spent_behind {watch : Bool} {spent : StopReason} (hs : spent.isSpent = true)
    {m : Machine δ} (ready : m.condition = .ready) {events : Array Event} {n a k : Nat}
    (reason : (loop watch spent n m events).reason = spent)
    (unspent : (loop watch spent a m events).reason ≠ spent)
    (counted : (loop watch spent a m events).machine.retired = m.retired + k) :
    ¬(k < n ∨ k = n ∧ (loop watch spent a m events).reason = .halted) := by
  have within : n ≤ a := by
    refine Nat.le_of_not_le fun le => unspent ?_
    rw [← loop_mono hs le unspent]
    exact reason
  obtain ⟨b, rfl⟩ := Nat.exists_eq_add_of_le within
  obtain ⟨j, retired, completed⟩ := loop_completed watch hs n ready events
  obtain ⟨goes, more⟩ := loop_of_spent hs reason
  obtain ⟨i, later, rest⟩ := loop_completed watch hs b goes
    (loop watch spent n m events).events
  rw [reason] at completed
  have all : j = n := completed.eq_of_spent hs
  rw [more] at counted ⊢
  have total : k = n + i := by omega
  rintro (less | ⟨same, halted⟩)
  · omega
  · rw [halted] at rest
    have some : 0 < i := rest.pos_of_halted hs
    omega

/-- What is known of a loop that its allowance did not end tells how loops with other allowances
end. -/
theorem loop_limit {watch : Bool} {spent : StopReason} (hs : spent.isSpent = true) {m : Machine δ}
    (ready : m.condition = .ready) {events : Array Event} {a k : Nat}
    (unspent : (loop watch spent a m events).reason ≠ spent)
    (counted : (loop watch spent a m events).machine.retired = m.retired + k) (n : Nat) :
    if k < n ∨ k = n ∧ (loop watch spent a m events).reason = .halted then
      loop watch spent n m events = loop watch spent a m events
    else (loop watch spent n m events).reason = spent := by
  by_cases short : (loop watch spent n m events).reason = spent
  · rw [if_neg (loop_spent_behind hs ready short unspent counted)]
    exact short
  · have same : loop watch spent n m events = loop watch spent a m events := by
      obtain le | le := Nat.le_total n a
      · exact (loop_mono hs le short).symm
      · exact loop_mono hs le unspent
    obtain ⟨j, retired, completed⟩ := loop_completed watch hs n ready events
    have reached := completed.lt_or_halted short
    rw [same] at retired reached
    have here : j = k := by omega
    rw [← here, if_pos reached]
    exact same

/-! ### Runs within a limit -/

theorem trail_length_le (watch : Bool) (n : Nat) (m : Machine δ) : (trail watch n m).length ≤ n := by
  induction n generalizing m with
  | zero => exact Nat.le_refl 0
  | succ n ih =>
    cases turn : m.turn? watch with
    | none =>
      rw [trail_of_no_turn turn]
      exact Nat.zero_le _
    | some x =>
      rw [trail_of_turn turn]
      exact Nat.succ_le_succ (ih _)

theorem run_of_looped {m : Machine δ} {p p' : Policy} (same : m.looped p = m.looped p') {η : Type}
    (handler : HitHandler δ η) (h : η) :
    (m.run p handler h).outcome = (m.run p' handler h).outcome ∧
      (m.run p handler h).machine = (m.run p' handler h).machine := by
  rw [run_outcome, run_outcome, run_machine, run_machine, same]
  exact ⟨rfl, rfl⟩

/-- The limit of a run is exact. The run takes at most as many steps, it completes at most as many
instructions, and it reports the limit exactly if it has completed all of them on a machine that could
go on. A run that ends otherwise ends in the same way with every limit above the instructions that it
completed, and with just as many if it ends with a halt; with all other limits it reports the limit. -/
theorem run_limit (m : Machine δ) (ready : m.condition = .ready) {η : Type}
    (handler : HitHandler δ η) (h : η) :
    let run (n : Nat) := m.run (.toHalt (some n)) handler h
    (∀ n, (m.stepped (.toHalt (some n))).length ≤ n ∧
      (run n).outcome.executed ≤ n ∧
      (run n).machine.retired = m.retired + (run n).outcome.executed ∧
      ((run n).machine.limitExceeded = true ↔ (run n).outcome.reason = .limitExceeded) ∧
      ((run n).outcome.reason = .limitExceeded →
        (run n).outcome.executed = n ∧ (run n).machine.condition = .ready)) ∧
    ∀ a n, (run a).outcome.reason ≠ .limitExceeded →
      let k := (run a).outcome.executed
      if k < n ∨ k = n ∧ (run a).outcome.reason = .halted then
        (run n).outcome = (run a).outcome ∧ (run n).machine = (run a).machine
      else (run n).outcome = ⟨.limitExceeded, n⟩ := by
  intro run
  let e (n : Nat) := loop false .limitExceeded n { m with limitExceeded := false } #[]
  have hs : StopReason.limitExceeded.isSpent = true := rfl
  have counted (n : Nat) : ∃ k, (e n).machine.retired = m.retired + k ∧
      Completed .limitExceeded n (e n).reason k ∧ (run n).outcome.executed = k := by
    obtain ⟨k, retired, completed⟩ := loop_completed false hs n
      (m := { m with limitExceeded := false }) ready #[]
    refine ⟨k, retired, completed, ?_⟩
    change (e n).machine.retired - m.retired = k
    change (e n).machine.retired = m.retired + k at retired
    omega
  have outcome (n : Nat) : (run n).outcome = ⟨(e n).reason, (run n).outcome.executed⟩ := rfl
  constructor
  · intro n
    obtain ⟨k, retired, completed, executed⟩ := counted n
    rw [executed]
    refine ⟨trail_length_le _ n _, completed.le, retired, beq_iff_eq, fun reason => ⟨?_, ?_⟩⟩
    · have spent : (e n).reason = .limitExceeded := reason
      rw [spent] at completed
      exact completed.eq_of_spent rfl
    · exact (loop_of_spent hs reason).1
  · intro a n unspent k
    obtain ⟨j, retired, -, executed⟩ := counted a
    have ends := loop_limit hs (m := { m with limitExceeded := false }) ready unspent retired n
    change if j < n ∨ j = n ∧ (run a).outcome.reason = .halted then e n = e a
      else (e n).reason = .limitExceeded at ends
    rw [show k = j from executed]
    by_cases reached : j < n ∨ j = n ∧ (run a).outcome.reason = .halted
    · rw [if_pos reached] at ends ⊢
      have same : m.looped (.toHalt (some n)) = m.looped (.toHalt (some a)) := ends
      exact run_of_looped same handler h
    · obtain ⟨i, -, completed, all⟩ := counted n
      rw [if_neg reached] at ends ⊢
      rw [ends] at completed
      rw [outcome, ends, all, completed.eq_of_spent rfl]

/- A program that adds once and halts. -/
def brief : Machine Peripheral where
  memory := ((Bank.fill 16 0).set 0x3000 0x1021).set 0x3001 0xF025
  registers := Bank.fill 3 0

theorem run_limit_brief :
    let run (n : Nat) := brief.run (.toHalt (some n)) HitHandler.ignore ()
    (run 5).outcome = ⟨.halted, 2⟩ ∧ (run 2).outcome = ⟨.halted, 2⟩ ∧
      (run 2).machine = (run 5).machine ∧ (run 1).outcome = ⟨.limitExceeded, 1⟩ := by
  intro run
  have known : (run 5).outcome = ⟨.halted, 2⟩ := by decide +kernel
  obtain ⟨-, limits⟩ := run_limit brief rfl HitHandler.ignore ()
  have unspent : (run 5).outcome.reason ≠ .limitExceeded := by
    rw [known]
    exact StopReason.noConfusion
  have two := limits 5 2 unspent
  have one := limits 5 1 unspent
  change if (run 5).outcome.executed < 2 ∨ (run 5).outcome.executed = 2 ∧ _ then _ else _ at two
  change if (run 5).outcome.executed < 1 ∨ (run 5).outcome.executed = 1 ∧ _ then _ else _ at one
  rw [known] at two one
  exact ⟨known, two.1, two.2, one⟩

end Machine

end Lc3
