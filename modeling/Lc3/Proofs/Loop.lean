import Lc3.Proofs.Invariance
import Lc3.Proofs.Rollback
import Mathlib.Logic.Function.Iterate

/-!
# Steps and loops

What steps do to what a machine holds for its host (`step_host`), and the loop of a run one turn at a
time: it stops at once on a machine that halted or faulted (`loop_of_stopped`), and else, in this
order, on its allowance, on a breakpoint and on a wait for input, before it takes a step.
-/

namespace Lc3

variable {δ : Type}

/- Why a run stops at once on a machine in this condition. -/
def Condition.stop? : Condition → Option StopReason
  | .ready => none
  | .halted => some .halted
  | .faulted f => some (.faulted f)

theorem Condition.ready_of_stop? {c : Condition} (h : c.stop? = none) : c = .ready := by
  cases c with
  | ready => rfl
  | halted => cases h
  | faulted f => cases h

theorem Condition.stop?_ne_input (c : Condition) : c.stop? ≠ some .inputRequested := by
  cases c <;> exact fun h => nomatch h

variable [Device δ]

namespace Machine

/-! ### Steps -/

theorem step_of_not_ready {m : Machine δ} (h : m.condition ≠ .ready) : m.step.machine = m :=
  (step_of_stopped h rfl).2.2.1

theorem step_events_of_not_ready {m : Machine δ} (h : m.condition ≠ .ready) :
    m.step.events = #[] := by
  unfold step
  cases hc : m.condition with
  | ready => exact absurd hc h
  | halted => rfl
  | faulted f => rfl

/- A step that faults leaves the program counter where it was and counts nothing. Any other counts one
instruction and leaves the breakpoint that the machine was parked at. -/
theorem step_host {m : Machine δ} (ready : m.condition = .ready) :
    (∃ f, m.step.result = .faulted f ∧ m.step.machine.pc = m.pc ∧
        m.step.machine.host = { m.host with condition := .faulted f }) ∨
      ∃ c, (∀ f, m.step.result ≠ .faulted f) ∧ (∀ f, c ≠ .faulted f) ∧
        m.step.machine.host =
          { m.host with condition := c, retired := m.retired + 1, parked := none } := by
  obtain ⟨halts, q, -, -, run, hs⟩ | ⟨f, q, hq, hs⟩ := m.step_cases ready
  · have host : q.machine.host = m.host := by
      calc q.machine.host
          = (Progress.accepted ⟨m, #[]⟩).machine.fetched.host := (Cycle.execute_host _ _).of_ok run
        _ = m.accepted.host := by rw [fetched_host, Progress.accepted_machine]
        _ = m.host := m.accepted_host
    have hc : q.machine.condition = .ready := (congrArg Host.condition host).trans ready
    refine Or.inr ⟨if halts || !q.machine.clock then .halted else .ready, ?_, ?_, ?_⟩
    · intro f
      rw [hs]
      exact q.concluded_completes _ _ f
    · intro f
      split <;> exact Condition.noConfusion
    · have concluded : (q.concluded m.accepted.pc halts).machine.host = { q.machine.host with
          condition := if halts || !q.machine.clock then .halted else q.machine.condition
          retired := q.machine.host.retired + 1
          parked := none } := rfl
      rw [hs, concluded, host, hc]
      rfl
  · rw [← Progress.accepted_machine ⟨m, #[]⟩] at hq
    have host := ((Remains.accepted m).perform hq).host
    refine Or.inl ⟨f, ?_, ?_, ?_⟩
    · rw [hs]
      rfl
    · rw [hs]
      rfl
    · rw [hs, ← host]
      rfl

theorem step_retired {m : Machine δ} (ready : m.condition = .ready) :
    (∃ f, m.step.machine.condition = .faulted f) ∨ m.step.machine.retired = m.retired + 1 := by
  obtain ⟨f, -, -, host⟩ | ⟨c, -, -, host⟩ := step_host ready
  · exact Or.inl ⟨f, congrArg Host.condition host⟩
  · exact Or.inr (congrArg Host.retired host)

/-- The machine after a number of steps. -/
def after (m : Machine δ) (n : Nat) : Machine δ := (fun m => m.step.machine)^[n] m

theorem after_succ (m : Machine δ) (n : Nat) : m.after (n + 1) = (m.after n).step.machine :=
  Function.iterate_succ_apply' _ n m

/-! ### Turns of a loop -/

theorem loop_of_stopped {m : Machine δ} {reason : StopReason} (h : m.condition.stop? = some reason)
    (watch : Bool) (spent : StopReason) (n : Nat) (events : Array Event) :
    loop watch spent n m events = ⟨reason, m, events⟩ := by
  rw [loop.eq_def]
  dsimp only
  cases hc : m.condition with
  | ready =>
    rw [hc] at h
    cases h
  | halted =>
    rw [hc] at h
    cases h
    rfl
  | faulted f =>
    rw [hc] at h
    cases h
    rfl

section Ready

variable {m : Machine δ} (ready : m.condition = .ready) (watch : Bool) (spent : StopReason) (n : Nat)
  (events : Array Event)

include ready

theorem loop_zero : loop watch spent 0 m events = ⟨spent, m, events⟩ := by
  unfold loop
  rw [ready]

theorem loop_of_breakpoint {b : Breakpoint} (h : m.breakpointHere = some b) :
    loop watch spent (n + 1) m events =
      ⟨.breakpoint b, { m with parked := some m.pc }, events.push (.stoppedAt b)⟩ := by
  rw [loop, ready]
  dsimp only
  rw [h]

theorem loop_step (h : m.breakpointHere = none) :
    loop false spent (n + 1) m events =
      loop false spent n m.step.machine (events ++ m.step.events) := by
  rw [loop, ready]
  dsimp only
  rw [h]
  rfl

theorem loop_waits (h : m.breakpointHere = none) (waits : m.awaitsInput.1 = true) :
    loop true spent (n + 1) m events = ⟨.inputRequested, m.awaitsInput.2, events⟩ := by
  rw [loop, ready]
  dsimp only
  rw [h]
  change (if m.awaitsInput.1 then _ else _) = _
  rw [if_pos waits]
  rfl

theorem loop_goes_on (h : m.breakpointHere = none) (goes : m.awaitsInput.1 = false) :
    loop true spent (n + 1) m events =
      loop true spent n m.awaitsInput.2.step.machine (events ++ m.awaitsInput.2.step.events) := by
  rw [loop, ready]
  dsimp only
  rw [h]
  change (if m.awaitsInput.1 then _ else _) = _
  rw [goes]
  rfl

end Ready

theorem ready_of_loop_input {m : Machine δ} {watch : Bool} {spent : StopReason} {n : Nat}
    {events : Array Event} (reason : (loop watch spent n m events).reason = .inputRequested) :
    m.condition = .ready := by
  cases hs : m.condition.stop? with
  | some r =>
    rw [loop_of_stopped hs] at reason
    exact absurd (hs.trans (congrArg some reason)) (Condition.stop?_ne_input _)
  | none => exact Condition.ready_of_stop? hs

/-! ### Runs -/

/- Where the loop of a run ends. -/
def looped (m : Machine δ) (p : Policy) : LoopEnd δ :=
  loop p.watchesInput p.spent (p.allowance m.flags) { m with limitExceeded := false } #[]

theorem run_outcome {η : Type} (m : Machine δ) (p : Policy) (handler : HitHandler δ η) (h : η) :
    (m.run p handler h).outcome =
      ⟨(m.looped p).reason, (m.looped p).machine.retired - m.retired⟩ := rfl

theorem run_machine {η : Type} (m : Machine δ) (p : Policy) (handler : HitHandler δ η) (h : η) :
    (m.run p handler h).machine = { (m.looped p).machine with
      limitExceeded := (m.looped p).reason == .limitExceeded
      lastStop := some (m.looped p).reason } := rfl

/- What a handler makes of the end of a loop. -/
def notified {η : Type} (e : LoopEnd δ) (handler : HitHandler δ η) (h : η) : η × List Event :=
  match e.reason with
  | .breakpoint b => handler e.machine b h
  | _ => (h, [])

theorem run_handler {η : Type} (m : Machine δ) (p : Policy) (handler : HitHandler δ η) (h : η) :
    (m.run p handler h).handler = (notified (m.looped p) handler h).1 := rfl

theorem run_events {η : Type} (m : Machine δ) (p : Policy) (handler : HitHandler δ η) (h : η) :
    (m.run p handler h).events =
      ((m.looped p).events ++ (notified (m.looped p) handler h).2).push
        (.runStopped ((m.looped p).machine.retired - m.retired) (m.looped p).reason) := rfl

end Machine

end Lc3
