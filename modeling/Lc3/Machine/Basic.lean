import Lc3.Device.Bus
import Lc3.Image.Basic
import Lc3.Machine.Startup
import Lc3.Psr

/-!
# The machine

The state of a machine, and what its host does to it: start and reset, loading an image, setting
the program counter, and looking at memory and registers.

Memory is read and written through `load` and `store`. They keep the status and the control
register at their addresses, reach the devices at their ports, and leave in each cell of
memory-mapped input and output the word of its last successful access.
-/

namespace Lc3

/-- Settings of a machine, which a reset keeps. -/
structure Flags where
  /-- Whether the halting trap goes through the trap table like any other. -/
  realHalt : Bool := false
  /-- Whether programs run as if they were in supervisor mode. -/
  ignorePrivilege : Bool := true
  startup : Startup := .known 0
  /-- The limit of runs that are given none. -/
  runLimit : Option Nat := none
deriving DecidableEq

/-- Whether a machine can go on. -/
inductive Condition where
  | ready
  | halted
  | faulted (fault : Fault)
deriving DecidableEq

/-- A machine with devices of a type. -/
structure Machine (δ : Type) where
  memory : Memory
  registers : RegFile
  pc : Word := userStart
  psr : Psr := Psr.initial
  /-- The stack pointer of the mode that the machine is not in. -/
  savedSp : Word := userStart
  /-- The top bit of the machine control register. A step that clears it is the last one. -/
  clock : Bool := true
  condition : Condition := .ready
  /-- The address of the instruction that is executed, or was executed last. -/
  fetchPc : Word := userStart
  /-- The number of completed instructions. -/
  retired : Nat := 0
  /-- Why the last run stopped. -/
  lastStop : Option StopReason := none
  /-- Whether the last run used up its limit. -/
  limitExceeded : Bool := false
  /-- The address of the breakpoint that a run stopped at, until an instruction completes or the
  program counter is set. -/
  parked : Option Word := none
  flags : Flags := {}
  breakpoints : Breakpoints := {}
  bus : Bus δ := {}
  /-- What the initial words are drawn from. -/
  entropy : Entropy := .constant 0

/-- What an access may do. -/
structure Access where
  /-- Whether all addresses may be accessed, and not only user space. -/
  privileged : Bool
  /-- Whether a read has the effects that it has for the program. -/
  effects : Bool
deriving DecidableEq

/-- The access of an inspection: everywhere and without effects. -/
def Access.omnipotent : Access := ⟨true, false⟩

/-- Whether an address may be accessed. -/
def Access.permits (c : Access) (a : Word) : Bool := c.privileged || inUserSpace a

namespace Machine

variable {δ : Type}

/-! ### Starting -/

/-- A machine with nothing loaded. -/
def start (flags : Flags) (entropy : Entropy) : Machine δ where
  memory := flags.startup.memory entropy
  registers := flags.startup.registers entropy
  flags := flags
  entropy := entropy

/-- Set the program counter, which makes the machine ready to go on from there. -/
def setPc (m : Machine δ) (a : Word) : Machine δ :=
  { m with pc := a, fetchPc := a, clock := true, condition := .ready, parked := none }

/-- Load an image and go to its entry point. -/
def loadImage (m : Machine δ) (i : Image) : Machine δ :=
  let memory := i.blocks.foldl (fun mem b => mem.copyBlock b.start b.words) m.memory
  { m with memory := memory }.setPc i.entry

/-- Go back to the state before anything was loaded. Flags, breakpoints and devices are kept; the
devices are reset, and the initial words are drawn anew. -/
def reset [Device δ] (m : Machine δ) : Machine δ :=
  let fresh : Machine δ := start m.flags m.entropy.next
  { fresh with breakpoints := m.breakpoints, bus := m.bus.reset }

/-! ### Registers -/

/-- The word in a register. -/
def reg (m : Machine δ) (r : Reg) : Word := m.registers.get r

/-- The machine with another word in a register. -/
def setReg (m : Machine δ) (r : Reg) (w : Word) : Machine δ :=
  { m with registers := m.registers.set r w }

/-- Read a register by its number. -/
def readRegister (m : Machine δ) (n : Nat) : Except InvalidRegister Word :=
  (Reg.ofNumber n).map m.reg

/-- Write a register by its number. -/
def writeRegister (m : Machine δ) (n : Nat) (w : Word) : Except InvalidRegister (Machine δ) :=
  (Reg.ofNumber n).map fun r => m.setReg r w

/-! ### Permissions -/

/-- What the program may access now. -/
def access (m : Machine δ) : Access := ⟨m.psr.privileged || m.flags.ignorePrivilege, true⟩

/-! ### Memory -/

/-- The machine with a word stored at an address, without any effect. -/
def stored (m : Machine δ) (a w : Word) : Machine δ :=
  { m with memory := m.memory.set a w }

/-- The word in the machine control register. -/
def mcr (m : Machine δ) : Word := BitVec.ofBool m.clock ++ 0#15

/-- What reading an address gives. -/
structure Loaded (δ : Type) where
  word : Word
  machine : Machine δ
  events : List Event

variable [Device δ]

/-- Read the word at an address. The control registers and the devices bring the stored word up to
date first; a device without an answer leaves it as it is. -/
def load (m : Machine δ) (a : Word) (effects : Bool) : Loaded δ :=
  if a = psrAddress then ⟨m.psr.word, m.stored a m.psr.word, []⟩
  else if a = mcrAddress then ⟨m.mcr, m.stored a m.mcr, []⟩
  else if isPort a then
    let r := m.bus.read a effects
    let m := { m with bus := r.bus }
    match r.word with
    | some w => ⟨w, m.stored a w, r.events⟩
    | none => ⟨m.memory.get a, m, r.events⟩
  else ⟨m.memory.get a, m, []⟩

/-- Write a word at an address. The stored word stays as it is if no device takes the new one. -/
def store (m : Machine δ) (a w : Word) : Machine δ :=
  if a = psrAddress then { m with psr := ⟨w⟩ }.stored a w
  else if a = mcrAddress then { m with clock := w.msb }.stored a w
  else if isPort a then
    let r := m.bus.write a w
    let m := { m with bus := r.2 }
    if r.1 then m.stored a w else m
  else m.stored a w

/-- The word at an address and the machine after looking at it, which has no effect on the
devices. -/
def inspect (m : Machine δ) (a : Word) : Word × Machine δ :=
  let r := m.load a Access.omnipotent.effects
  (r.word, r.machine)

end Machine

end Lc3
