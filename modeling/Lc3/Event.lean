import Lc3.Breakpoint
import Lc3.Device.Basic
import Lc3.Fault
import Lc3.Instruction

/-!
# Events

What an observer can follow while a machine works: the accesses of the program, the notable steps
of its execution, and what its host does to it. Most events are worth a line in a log; `entry?`
gives the level and the text of that line.
-/

namespace Lc3

/-- Why a run stopped. -/
inductive StopReason where
  | halted
  | faulted (fault : Fault)
  /-- The run used up its limit. -/
  | limitExceeded
  /-- The next instruction reads the keyboard while no input is queued. -/
  | inputRequested
  /-- The next instruction is at a breakpoint. -/
  | breakpoint (b : Breakpoint)
  /-- The run completed the instructions it was asked for. -/
  | paused
deriving DecidableEq

/-- What is reported of the end of a run. -/
def StopReason.text : StopReason → String
  | .halted => "halted"
  | .faulted f => s!"faulted: {f.message}"
  | .limitExceeded => "exceeded instruction limit"
  | .inputRequested => "waiting for input"
  | .breakpoint b => s!"hit breakpoint {b.text}"
  | .paused => "paused"

/-- Why a channel does not take a message. -/
inductive Refusal where
  | full
  | disconnected
deriving DecidableEq

/-- What is reported of a message that was not taken. -/
def Refusal.text : Refusal → String
  | .full => "sending on a full channel"
  | .disconnected => "sending on a disconnected channel"

/-- Something that happened to a machine. -/
inductive Event where
  /-- The program read the word at an address. -/
  | read (address : Word)
  /-- The program wrote a word to an address. -/
  | wrote (address word : Word)
  /-- A byte was consumed from the keyboard, which leaves some pending. -/
  | consumed (byte : Byte) (pending : Nat)
  /-- An interrupt was accepted. -/
  | interrupted (i : Interrupt)
  /-- An instruction is about to be executed. -/
  | fetched (pc : Word) (instruction : Instruction)
  | halted (pc : Word)
  | faulted (fault : Fault)
  /-- A run stopped at a breakpoint. -/
  | stoppedAt (b : Breakpoint)
  /-- The notice of a breakpoint was not taken. -/
  | hitDropped (b : Breakpoint) (why : Refusal)
  | runStopped (executed : Nat) (reason : StopReason)
  /-- An image was loaded. -/
  | loaded (blocks : Nat) (entry : Word)
  /-- A text image was read. -/
  | parsed (blocks labels : Nat)
  | reset
  | breakpointSet (b : Breakpoint)
  | breakpointRemoved (b : Breakpoint)
  | deviceAttached (id ports : Nat)
deriving DecidableEq

/-- The importance of a line in a log. -/
inductive Level where
  | trace
  | debug
  | warn
deriving DecidableEq

/-- The name of a level in a log. -/
def Level.name : Level → String
  | .trace => "TRACE"
  | .debug => "DEBUG"
  | .warn => "WARN"

/-- The line that an event is worth in a log. -/
def Event.entry? : Event → Option (Level × String)
  | .read _ => none
  | .wrote _ _ => none
  | .consumed b pending =>
    some (.trace, s!"keyboard consumed 0x{(byteHex b).toLower}, {pending} pending")
  | .interrupted i => some (.debug,
    s!"entering interrupt x{byteHex i.vector} (priority {i.priority.toNat})")
  | .fetched pc instruction => some (.trace, s!"x{pc.hex}: {instruction.text}")
  | .halted pc => some (.debug, s!"halted at x{pc.hex}")
  | .faulted f => some (.warn, f.message)
  | .stoppedAt b => some (.debug, s!"stopped at breakpoint {b.text}")
  | .hitDropped b why => some (.debug, s!"dropped breakpoint hit for {b.text}: {why.text}")
  | .runStopped executed reason => some (.debug,
    s!"run stopped after {executed} instruction(s): {reason.text}")
  | .loaded blocks entry => some (.debug,
    s!"loaded {blocks} block(s), entry at x{entry.hex}")
  | .parsed blocks labels => some (.debug,
    s!"parsed text image with {blocks} block(s) and {labels} label(s)")
  | .reset => some (.debug, "simulator reset")
  | .breakpointSet b => some (.debug, s!"set breakpoint {b.text}")
  | .breakpointRemoved b => some (.debug, s!"removed breakpoint {b.text}")
  | .deviceAttached id ports => some (.debug, s!"attached device {id} to {ports} port(s)")

end Lc3
