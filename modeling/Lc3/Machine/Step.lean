import Lc3.Machine.Basic

/-!
# Execution of one instruction

A step asks the devices for an interrupt, enters its handler if it is urgent enough, fetches and
decodes the word at the program counter, and executes it. A step that completes counts one
instruction and tells the devices. A step that faults is undone: registers, status, control bit,
program counter and the two cells that an interrupt pushes to are as they were before it.
-/

namespace Lc3

/-- A machine within a step, and what happened in the step so far. -/
structure Progress (δ : Type) where
  machine : Machine δ
  events : Array Event := #[]

/-- A part of a step, which may fault. -/
abbrev Cycle (δ α : Type) := EStateM Fault (Progress δ) α

namespace Cycle

variable {δ : Type}

/-! ### Parts of a step -/

/-- Look at the machine. -/
def look {α : Type} (f : Machine δ → α) : Cycle δ α := do return f (← get).machine

/-- Change the machine. -/
def update (f : Machine δ → Machine δ) : Cycle δ Unit :=
  modify fun p => { p with machine := f p.machine }

/-- Note an event. -/
def note (e : Event) : Cycle δ Unit := modify fun p => { p with events := p.events.push e }

/-- Exchange the stack pointer with the saved one. -/
def swapStacks : Cycle δ Unit :=
  update fun m => { m.setReg stackReg m.savedSp with savedSp := m.reg stackReg }

/-- Put a result into a register and record its sign. -/
def deliver (r : Reg) (w : Word) : Cycle δ Unit :=
  update fun m => { m.setReg r w with psr := m.psr.record w }

/-- The address at an offset from the program counter. -/
def relative {n : Nat} (offset : BitVec n) : Cycle δ Word :=
  look fun m => m.pc + signedField offset

/-- The value of an operand. -/
def value : Operand 5 → Cycle δ Word
  | .imm v => pure (signedField v)
  | .reg r => look (·.reg r)

/-- Fault unless an address may be accessed. -/
def permit (c : Access) (pc a : Word) : Cycle δ Unit :=
  if c.permits a then pure () else throw (.accessViolation pc a)

/-- Note the address of the instruction that is about to be executed. -/
def mark : Cycle δ Unit := update fun m => { m with fetchPc := m.pc }

/-! ### What the parts do -/

/-- A part that faults keeps what happened before it, and nothing follows it. -/
theorem run_bind {α β : Type} (c : Cycle δ α) (f : α → Cycle δ β) (p : Progress δ) :
    (c >>= f).run p = match c.run p with
      | .ok a q => (f a).run q
      | .error e q => .error e q := by
  show EStateM.bind c f p = _
  unfold EStateM.bind EStateM.run
  cases c p <;> rfl

theorem run_look {α : Type} (f : Machine δ → α) (p : Progress δ) :
    (look f).run p = .ok (f p.machine) p := rfl

theorem run_update (f : Machine δ → Machine δ) (p : Progress δ) :
    (update f).run p = .ok () { p with machine := f p.machine } := rfl

theorem run_note (e : Event) (p : Progress δ) :
    (note e).run p = .ok () { p with events := p.events.push e } := rfl

theorem run_permit (c : Access) (pc a : Word) (p : Progress δ) :
    (permit c pc a).run p =
      if c.permits a then .ok () p else .error (.accessViolation pc a) p := by
  unfold permit
  split <;> rfl

/-! ### Accesses -/

variable [Device δ]

/-- Read a word. -/
def load (a : Word) (effects : Bool) : Cycle δ Word := do
  let r := (← get).machine.load a effects
  modify fun p => { machine := r.machine, events := p.events.push (.read a) ++ r.events }
  return r.word

/-- Write a word. -/
def store (a w : Word) : Cycle δ Unit := do
  update (·.store a w)
  note (.wrote a w)

/-- Read a word if the access may. A fault names the instruction at the given address. -/
def accessRead (c : Access) (pc a : Word) : Cycle δ Word := do
  permit c pc a
  load a c.effects

/-- Write a word if the access may. -/
def accessWrite (c : Access) (pc a w : Word) : Cycle δ Unit := do
  permit c pc a
  store a w

/-- Read a word if the program may now. -/
def loadPermitted (pc a : Word) : Cycle δ Word := do accessRead (← look Machine.access) pc a

/-- Write a word if the program may now. -/
def storePermitted (pc a w : Word) : Cycle δ Unit := do accessWrite (← look Machine.access) pc a w

/-! ### Traps and interrupts -/

/-- Go to the stack of the supervisor. -/
def toSupervisorStack : Cycle δ Unit := do
  unless (← look Machine.psr).privileged do swapStacks

/-- Switch to supervisor mode and its stack, and push the status and the program counter there. What
the supervisor may access is looked up before the pushes, one of which may overwrite the status, and
holds for what follows. -/
def push : Cycle δ Access := do
  toSupervisorStack
  let psr ← look Machine.psr
  let pc ← look Machine.pc
  update fun m => { m with psr := m.psr.withPrivileged true }
  let c ← look Machine.access
  let sp ← look (·.reg stackReg)
  update fun m => m.setReg stackReg (sp - 2)
  accessWrite c (← look Machine.fetchPc) (sp - 1) psr.word
  accessWrite c (← look Machine.fetchPc) (sp - 2) pc
  return c

/-- Enter the handler whose address is held in a vector: push the status and the program counter, and
jump. An interrupt also raises the priority. -/
def enter (vector : Word) (priority : Option (BitVec 3)) : Cycle δ Unit := do
  let c ← push
  update fun m => { m with psr := m.psr.withCodes Psr.zero }
  if let some p := priority then update fun m => { m with psr := m.psr.withPriority p }
  let target ← accessRead c (← look Machine.fetchPc) vector
  update fun m => { m with pc := target }

/-- Return from a handler: pop the program counter and the status, and go back to the stack of the
mode that was interrupted. Both pops are made with what the handler may access. -/
def leave (pc : Word) : Cycle δ Unit := do
  let c ← look Machine.access
  unless c.privileged do throw (.privilegeViolation pc)
  let sp ← look (·.reg stackReg)
  let target ← accessRead c pc sp
  let psr : Psr := ⟨← accessRead c pc (sp + 1)⟩
  update fun m => { m.setReg stackReg (sp + 2) with pc := target, psr := psr }
  unless psr.privileged do swapStacks

/-! ### Instructions -/

/-- Execute an instruction that was fetched from an address, with the program counter behind it,
and say whether it halts the machine. -/
def execute (pc : Word) : Instruction → Cycle δ Bool
  | .br codes offset => do
    let target ← relative offset
    update fun m => if codes &&& m.psr.codes ≠ 0 then { m with pc := target } else m
    return false
  | .add dst src x => do
    deliver dst ((← look (·.reg src)) + (← value x))
    return false
  | .ld dst offset => do
    deliver dst (← loadPermitted pc (← relative offset))
    return false
  | .st src offset => do
    storePermitted pc (← relative offset) (← look (·.reg src))
    return false
  | .jsr target => do
    let address ← match target with
      | .imm offset => relative offset
      | .reg r => look (·.reg r)
    update fun m => { m.setReg linkReg m.pc with pc := address }
    return false
  | .and dst src x => do
    deliver dst ((← look (·.reg src)) &&& (← value x))
    return false
  | .ldr dst base offset => do
    deliver dst (← loadPermitted pc ((← look (·.reg base)) + signedField offset))
    return false
  | .str src base offset => do
    storePermitted pc ((← look (·.reg base)) + signedField offset) (← look (·.reg src))
    return false
  | .rti => do
    leave pc
    return false
  | .not dst src => do
    deliver dst (~~~ (← look (·.reg src)))
    return false
  | .ldi dst offset => do
    let pointer ← loadPermitted pc (← relative offset)
    deliver dst (← loadPermitted pc pointer)
    return false
  | .sti src offset => do
    let pointer ← loadPermitted pc (← relative offset)
    storePermitted pc pointer (← look (·.reg src))
    return false
  | .jmp base => do
    update fun m => { m with pc := m.reg base }
    return false
  | .lea dst offset => do
    deliver dst (← relative offset)
    return false
  | .trap vector => do
    if vector = haltVector ∧ !(← look Machine.flags).realHalt then return true
    else do
      enter (unsignedField vector) none
      return false
  | .reserved w => throw (.illegalInstruction pc w)

/-! ### Whole steps -/

/-- Ask the devices for an interrupt and enter its handler if its priority exceeds the one of the
machine. -/
def acceptInterrupt : Cycle δ Unit := do
  let offer ← look fun m => m.bus.poll.1
  update fun m => { m with bus := m.bus.poll.2 }
  if let some i := offer then
    if (← look fun m => m.psr.priority) < i.priority then do
      note (.interrupted i)
      enter (interruptTable + unsignedField i.vector) (some i.priority)
      mark

/-- Fetch and decode the instruction at an address. -/
def fetch (pc : Word) : Cycle δ Instruction := do
  let instruction := Instruction.decode (← loadPermitted pc pc)
  match instruction with
  | .reserved w => throw (.illegalInstruction pc w)
  | _ =>
    note (.fetched pc instruction)
    return instruction

/-- Count a completed instruction. -/
def retire : Cycle δ Unit :=
  update fun m => { m with retired := m.retired + 1, bus := m.bus.tick }

/-- Execute one instruction, and say whether the machine stops after it. -/
def oneInstruction : Cycle δ Bool := do
  mark
  acceptInterrupt
  let pc ← look Machine.fetchPc
  let instruction ← fetch pc
  update fun m => { m with pc := m.pc + 1 }
  let halts ← execute pc instruction
  retire
  let stops := halts || !(← look Machine.clock)
  if stops then note (.halted pc)
  return stops

end Cycle

/-! ### Steps of a machine -/

/-- How a step ended. -/
inductive StepResult where
  | retired
  | halted
  | faulted (fault : Fault)
deriving DecidableEq

/-- A step that was taken. -/
structure Step (δ : Type) where
  result : StepResult
  machine : Machine δ
  events : Array Event

namespace Machine

variable {δ : Type}

/-- The supervisor's stack pointer. -/
def supervisorSp (m : Machine δ) : Word := if m.psr.privileged then m.reg stackReg else m.savedSp

/-- The machine that a faulty step left, with what the step changed taken back to what it was
before. The devices keep what happened to them. -/
def rollBack (before after : Machine δ) : Machine δ :=
  let sp := before.supervisorSp
  let after := (after.stored (sp - 1) (before.memory.get (sp - 1))).stored (sp - 2)
    (before.memory.get (sp - 2))
  { after with
    registers := before.registers
    psr := before.psr
    savedSp := before.savedSp
    clock := before.clock
    pc := before.pc
    fetchPc := before.pc }

variable [Device δ]

/-- Execute one instruction. A machine that halted or faulted stays as it is. -/
def step (m : Machine δ) : Step δ :=
  match m.condition with
  | .halted => ⟨.halted, m, #[]⟩
  | .faulted f => ⟨.faulted f, m, #[]⟩
  | .ready =>
    match Cycle.oneInstruction.run { machine := m } with
    | .ok false p => ⟨.retired, { p.machine with parked := none }, p.events⟩
    | .ok true p => ⟨.halted, { p.machine with parked := none, condition := .halted }, p.events⟩
    | .error f p =>
      ⟨.faulted f, { m.rollBack p.machine with condition := .faulted f },
        p.events.push (.faulted f)⟩

end Machine

end Lc3
