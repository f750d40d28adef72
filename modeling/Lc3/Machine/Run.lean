import Lc3.Machine.Step

/-!
# Runs

A run takes steps until a stopping condition holds. Before each step the conditions are looked at
in this order: the machine halted or faulted; the run used up its allowance; the program counter
is at a breakpoint; the next instruction reads the keyboard while no input is queued, if the run
watches for that. A run never executes the instruction it stops in front of.

A run that stops at a breakpoint parks the machine there: the next run steps off the breakpoint
instead of stopping again, until an instruction completes or the program counter is set.
-/

namespace Lc3

/-- How long to run. -/
inductive Policy where
  /-- Until the machine halts or faults, within a limit. -/
  | toHalt (limit : Option Nat)
  /-- For a number of instructions. -/
  | steps (count : Nat)
  /-- Until the program waits for input, within a limit. -/
  | toInput (limit : Option Nat)
deriving DecidableEq

/-- The result of a run. -/
structure Outcome where
  reason : StopReason
  /-- The number of instructions that the run completed. -/
  executed : Nat
deriving DecidableEq

/-- Whether a run ended without a fault and within its limit. -/
def Outcome.success (o : Outcome) : Bool :=
  match o.reason with
  | .faulted _ => false
  | .limitExceeded => false
  | _ => true

/-- What is told about a breakpoint that was hit. -/
structure Hit where
  breakpoint : Breakpoint
  pc : Word
  /-- The number of instructions completed so far. -/
  retired : Nat
deriving DecidableEq

/-- What is done when a run stops at a breakpoint, with a state of its own. -/
abbrev HitHandler (δ η : Type) := Machine δ → Breakpoint → η → η × List Event

/-- Do nothing when a run stops at a breakpoint. -/
def HitHandler.ignore {δ η : Type} : HitHandler δ η := fun _ _ h => (h, [])

/-- A run that ended. -/
structure Run (δ η : Type) where
  outcome : Outcome
  machine : Machine δ
  /-- The state of the handler. -/
  handler : η
  events : Array Event

/-- Where the loop of a run ended. -/
structure LoopEnd (δ : Type) where
  reason : StopReason
  machine : Machine δ
  events : Array Event

/-- The allowance of a run without a limit: as far as the 64-bit instruction counter counts. -/
def Policy.unbounded : Nat := UInt64.size

namespace Policy

/-- How many instructions a run may complete. -/
def allowance (p : Policy) (flags : Flags) : Nat :=
  match p with
  | toHalt limit => (limit <|> flags.runLimit).getD unbounded
  | steps count => count
  | toInput limit => (limit <|> flags.runLimit).getD unbounded

/-- What a run reports when its allowance is used up. -/
def spent : Policy → StopReason
  | steps _ => .paused
  | _ => .limitExceeded

/-- Whether a run stops in front of an instruction that waits for input. -/
def watchesInput : Policy → Bool
  | toInput _ => true
  | _ => false

end Policy

namespace Machine

variable {δ : Type}

/-- The breakpoint that stops a run here. -/
def breakpointHere (m : Machine δ) : Option Breakpoint :=
  if m.parked = some m.pc then none else m.breakpoints.at? m.pc

variable [Device δ]

/-! ### Waiting for input -/

/-- Whether the next instruction reads the keyboard's data register while no input is queued, and
the machine after looking at that instruction. -/
def awaitsInput (m : Machine δ) : Bool × Machine δ :=
  if !m.bus.keyboard.queue.isEmpty then (false, m)
  else
    let (word, m) := m.inspect m.pc
    let next := m.pc + 1
    match Instruction.decode word with
    | .ld _ offset => (next + signedField offset == kbdr, m)
    | .ldr _ base offset => (m.reg base + signedField offset == kbdr, m)
    | .ldi _ offset =>
      let (pointer, m) := m.inspect (next + signedField offset)
      (pointer == kbdr, m)
    | _ => (false, m)

/-! ### The loop -/

/-- Take steps until a stopping condition holds, at most as many as the allowance. -/
def loop (watch : Bool) (spent : StopReason) :
    (allowance : Nat) → Machine δ → Array Event → LoopEnd δ
  | allowance, m, events =>
    match m.condition with
    | .halted => ⟨.halted, m, events⟩
    | .faulted f => ⟨.faulted f, m, events⟩
    | .ready =>
      match allowance with
      | 0 => ⟨spent, m, events⟩
      | allowance + 1 =>
        match m.breakpointHere with
        | some b => ⟨.breakpoint b, { m with parked := some m.pc }, events.push (.stoppedAt b)⟩
        | none =>
          let (waits, m) := if watch then m.awaitsInput else (false, m)
          if waits then ⟨.inputRequested, m, events⟩
          else
            let s := m.step
            loop watch spent allowance s.machine (events ++ s.events)

/-- Run the machine, and tell the handler if the run stops at a breakpoint. -/
def run {η : Type} (m : Machine δ) (p : Policy) (handler : HitHandler δ η) (h : η) : Run δ η :=
  let e := loop p.watchesInput p.spent (p.allowance m.flags)
    { m with limitExceeded := false } #[]
  let (h, notices) := match e.reason with
    | .breakpoint b => handler e.machine b h
    | _ => (h, [])
  let executed := e.machine.retired - m.retired
  { outcome := ⟨e.reason, executed⟩
    machine := { e.machine with
      limitExceeded := e.reason == .limitExceeded, lastStop := some e.reason }
    handler := h
    events := (e.events ++ notices).push (.runStopped executed e.reason) }

end Machine

/-- The hit that is told of a machine that stopped at a breakpoint. -/
def Hit.of {δ : Type} (m : Machine δ) (b : Breakpoint) : Hit := ⟨b, m.pc, m.retired⟩

end Lc3
