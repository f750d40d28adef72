import Lc3.Device.Peripheral
import Lc3.Proofs.Log
import Lc3.Proofs.Trail

/-!
# Breakpoints that a run passes

A turn of a run looks for a breakpoint at the program counter, and then takes a step. The step executes
the instruction at the program counter, unless it accepts an interrupt: then it executes the first
instruction of the handler, where nobody has looked. Apart from that, a run passes a breakpoint only
with its first step, and only if the machine was parked there (`run_breakpoints`).
-/

namespace Lc3.Machine

variable {δ : Type} [Device δ]

theorem turn?_of_not_ready {watch : Bool} {m : Machine δ} (h : m.condition ≠ .ready) :
    m.turn? watch = none := by
  unfold turn?
  rw [if_neg fun free => h free.1]

/- The induction is on the allowance. After the first step the machine is not parked any more, for the
step has completed or the trail ends there. -/
theorem trail_parked {watch : Bool} {n k : Nat} {m x : Machine δ}
    (h : (trail watch n m)[k]? = some x) :
    x.condition = .ready ∧ x.breakpointHere = none ∧ x.breakpoints = m.breakpoints ∧
      (x.parked ≠ none → k = 0 ∧ x.parked = m.parked) := by
  induction n generalizing m k with
  | zero => cases h
  | succ n ih =>
    cases ht : m.turn? watch with
    | none =>
      rw [trail_of_no_turn ht] at h
      cases h
    | some y =>
      have host := turn?_host ht
      have kept : y.breakpoints = m.breakpoints := congrArg Host.breakpoints host
      rw [trail_of_turn ht] at h
      cases k with
      | zero =>
        cases h
        exact ⟨turn?_ready ht, turn?_breakpointHere ht, kept, fun _ => ⟨rfl, congrArg Host.parked host⟩⟩
      | succ k =>
        have later : (trail watch n y.step.machine)[k]? = some x := h
        obtain ⟨f, -, -, stepped⟩ | ⟨c, -, -, stepped⟩ := step_host (turn?_ready ht)
        · have hc : y.step.machine.condition = .faulted f := congrArg Host.condition stepped
          have stopped : y.step.machine.condition ≠ .ready := by
            rw [hc]
            exact Condition.noConfusion
          rw [trail_of_no_turn (turn?_of_not_ready stopped)] at later
          cases later
        · obtain ⟨ready, clear, same, parked⟩ := ih later
          refine ⟨ready, clear, ?_, fun h => ?_⟩
          · rw [same, ← kept]
            exact congrArg Host.breakpoints stepped
          · have left : y.step.machine.parked = none := congrArg Host.parked stepped
            exact absurd ((parked h).2.trans left) h

/-- A run executes an instruction at a breakpoint only with its first step, if the machine was parked
there when the run started, or with a step that accepts an interrupt and so begins with the first
instruction of the handler. The steps are those that the run counts. -/
theorem run_breakpoints {η : Type} (m : Machine δ) (p : Policy) (handler : HitHandler δ η) (h : η) :
    (m.run p handler h).outcome.executed = (m.stepped p).countP (·.step.result.completes) ∧
      ∀ (k : Nat) (x : Machine δ) (a : Word) (i : Instruction) (b : Breakpoint),
        (m.stepped p)[k]? = some x → .fetched a i ∈ x.step.events → m.breakpoints.at? a = some b →
          k = 0 ∧ m.parked = some a ∨ ∃ j, .interrupted j ∈ x.step.events := by
  refine ⟨m.run_executed p handler h, ?_⟩
  intro k x a i b stepped fetched here
  obtain ⟨ready, clear, same, parked⟩ := trail_parked stepped
  have address := fetched_mem_step ready fetched
  cases urgent : x.urgent? with
  | some j => exact Or.inr ⟨j, (interrupted_mem_step ready).mpr urgent⟩
  | none =>
    have hpc : a = x.pc := by
      rw [accepted_of_none urgent] at address
      exact address
    have hb : x.breakpoints.at? x.pc = some b := by
      rw [same, ← hpc]
      exact here
    by_cases stands : x.parked = some x.pc
    · obtain ⟨first, start⟩ := parked (by rw [stands]; exact Option.some_ne_none _)
      exact Or.inl ⟨first, start.symm.trans (hpc ▸ stands)⟩
    · unfold breakpointHere at clear
      rw [if_neg stands, hb] at clear
      cases clear

/- A program with a key waiting, and a breakpoint at the first instruction of the handler. -/
def brokenInto : Machine Peripheral where
  memory := (((Bank.fill 16 0).set 0x3000 0x1021).set 0x0180 0x1000).set 0x1000 0x1021
  registers := Bank.fill 3 0
  breakpoints := Breakpoints.set {} 0x1000
  bus := { keyboard := { queue := [0x61], interrupts := true } }

theorem brokenInto_stepped : brokenInto.stepped (.steps 1) = [brokenInto] := by
  unfold stepped trail turn?
  rfl

/- The run was not parked anywhere, and the instruction at the breakpoint has been executed. -/
theorem brokenInto_passes :
    brokenInto.parked = none ∧ brokenInto.breakpoints.at? 0x1000 = some ⟨0, 0x1000⟩ ∧
      (brokenInto.run (.steps 1) HitHandler.ignore ()).outcome = ⟨.paused, 1⟩ ∧
      ∃ x ∈ brokenInto.stepped (.steps 1),
        x.step.result = .retired ∧ .fetched 0x1000 (.add 0 0 (.imm 1)) ∈ x.step.events := by
  refine ⟨rfl, by decide +kernel, by decide +kernel, brokenInto, ?_, ?_, ?_⟩
  · rw [brokenInto_stepped]
    exact List.mem_singleton_self _
  · decide +kernel
  · decide +kernel

theorem run_breakpoints_brokenInto :
    (brokenInto.run (.steps 1) HitHandler.ignore ()).outcome.executed = 1 ∧
      ∃ j, .interrupted j ∈ brokenInto.step.events := by
  obtain ⟨executed, passed⟩ := run_breakpoints brokenInto (.steps 1) HitHandler.ignore ()
  have first : (brokenInto.stepped (.steps 1))[0]? = some brokenInto := by
    rw [brokenInto_stepped]
    rfl
  have fetched : Event.fetched 0x1000 (.add 0 0 (.imm 1)) ∈ brokenInto.step.events := by
    decide +kernel
  have here : brokenInto.breakpoints.at? 0x1000 = some ⟨0, 0x1000⟩ := by decide +kernel
  refine ⟨?_, ?_⟩
  · rw [executed, brokenInto_stepped]
    decide +kernel
  · obtain ⟨-, parked⟩ | interrupted := passed 0 brokenInto 0x1000 _ _ first fetched here
    · cases parked
    · exact interrupted

end Lc3.Machine
