import Lc3.HitChannel
import Lc3.Image.Object
import Lc3.Image.Text
import Lc3.Text.Utf8

/-!
# Sessions

A session is a machine together with the channel that carries its breakpoint hits, driven by the
commands of a host such as a debugger or a grading harness. `Session.perform` carries out one
command: it gives the session afterwards, an answer, and the events for the log.
-/

namespace Lc3

/-- Who is told when a run stops at a breakpoint. -/
inductive Watcher where
  | nobody
  /-- The answer of the command lists the hits. -/
  | host
  | channel
deriving DecidableEq

/-- What a host can ask of a session with devices of a type. -/
inductive Command (δ : Type) where
  /-- Load blocks, added to an image in order, and go to the entry point. -/
  | load (blocks : List Block) (entry : Option Word)
  | loadText (source : String)
  | loadObject (bytes : List Byte)
  | reset
  | configure (edit : Flags → Flags)
  | readRegister (number : Nat)
  | writeRegister (number : Nat) (word : Word)
  | setPc (address : Word)
  | writePsr (word : Word)
  | readMemory (address : Word)
  | writeMemory (address word : Word)
  /-- Show the instructions at consecutive addresses. -/
  | disassemble (address : Word) (count : Nat)
  /-- What the program may access, and what an inspection may. -/
  | accesses
  /-- Take single steps, also after a fault. -/
  | step (count : Nat)
  | run (policy : Policy) (watcher : Watcher)
  | drain
  | disconnect
  | setInput (bytes : List Byte)
  | pushInput (bytes : List Byte)
  | clearInput
  | setDelay (delay : Nat)
  | outputText
  | takeOutput
  | clearOutput
  | setBreakpoint (address : Word)
  | removeBreakpoint (id : Nat)
  | clearBreakpoints
  | getBreakpoint (id : Nat)
  | breakpointAt (address : Word)
  | listBreakpoints
  | attach (device : δ) (ports : List Word)
  /-- Attach copies of a device to no ports. -/
  | attachMany (device : δ) (count : Nat)
  | detach (id : Nat)
  | readPort (address : Word) (effects : Bool)
  | writePort (address word : Word)
  | poll
  | tick (count : Nat)
  | resetDevices
  | describeDevices

/-- What a session answers to a command. -/
inductive Answer where
  | ok
  | nothing
  | flag (b : Bool)
  | word (w : Option Word)
  | text (s : String)
  | texts (ss : List String)
  | bytes (bs : List Byte)
  | status (s : Psr)
  | flags (f : Flags)
  | accesses (program inspection : Access)
  /-- After each step the program counter and the status, or the fault. -/
  | steps (rs : List (Except Fault (Word × Psr)))
  /-- The end of a run, and the hits told to the host with the output at that time. -/
  | outcome (o : Outcome) (hits : List (Hit × String))
  | hits (hs : List Hit)
  | breakpoint (b : Option Breakpoint)
  | breakpoints (bs : Breakpoints)
  | device (id : Option Nat)
  /-- How many devices were attached, and the id of the last one. -/
  | devices (count : Nat) (last : Option Nat)
  | interrupt (i : Option Interrupt)
  | invalidRegister (e : InvalidRegister)
  | blockError (e : BlockError)
  | textError (e : TextError)
  | objectError (e : ObjectError)

/-- A machine with the channel for its hits. -/
structure Session (δ : Type) where
  machine : Machine δ
  channel : HitChannel := {}

/-- What a command leads to. -/
structure Reply (δ : Type) where
  session : Session δ
  answer : Answer
  events : Array Event := #[]

namespace Machine

variable {δ : Type}

/-- The text that the program displayed. -/
def outputText (m : Machine δ) : String := Text.decodeUtf8 m.bus.display.output.toList

/-- The machine with another keyboard. -/
def withKeyboard (m : Machine δ) (f : Keyboard → Keyboard) : Machine δ :=
  { m with bus := { m.bus with keyboard := f m.bus.keyboard } }

/-- The machine with another display. -/
def withDisplay (m : Machine δ) (f : Display → Display) : Machine δ :=
  { m with bus := { m.bus with display := f m.bus.display } }

variable [Device δ]

/-- The instructions at consecutive addresses in assembly, and the machine after looking at them. -/
def disassemble (m : Machine δ) (a : Word) : Nat → List String × Machine δ
  | 0 => ([], m)
  | n + 1 =>
    let (word, m) := m.inspect a
    let (rest, m) := disassemble m (a + 1) n
    ((Instruction.decode word).text :: rest, m)

/-- Take single steps, and say for each where it left the machine or why it failed. -/
def steps (m : Machine δ) :
    Nat → List (Except Fault (Word × Psr)) × Machine δ × Array Event
  | 0 => ([], m, #[])
  | n + 1 =>
    let s := m.step
    let r := match s.result with
      | .faulted f => .error f
      | _ => .ok (s.machine.pc, s.machine.psr)
    let (rest, m, events) := steps s.machine n
    (r :: rest, m, s.events ++ events)

end Machine

namespace Bus

variable {δ : Type}

/-- Attach copies of a device to no ports, and give the ids of those that were attached, the last
one first. -/
def attachMany (b : Bus δ) (device : δ) : Nat → List Nat → List Nat × Bus δ
  | 0, ids => (ids, b)
  | n + 1, ids =>
    match b.attach device [] with
    | (some id, b) => attachMany b device n (id :: ids)
    | (none, b) => attachMany b device n ids

end Bus

namespace Session

variable {δ : Type}

/-- A session with a fresh machine. -/
def start (flags : Flags) (entropy : Entropy) (capacity : Option Nat) : Session δ :=
  { machine := Machine.start flags entropy, channel := { capacity := capacity } }

/-- The session with another machine. -/
def withMachine (s : Session δ) (m : Machine δ) : Session δ := { s with machine := m }

/-- The session with other devices. -/
def withBus (s : Session δ) (b : Bus δ) : Session δ :=
  s.withMachine { s.machine with bus := b }

/-- The session with other breakpoints. -/
def withBreakpoints (s : Session δ) (bs : Breakpoints) : Session δ :=
  s.withMachine { s.machine with breakpoints := bs }

/-- Load an image after the given events. -/
def loadImage (s : Session δ) (i : Image) (events : Array Event) : Reply δ :=
  ⟨s.withMachine (s.machine.loadImage i), .ok, events.push (.loaded i.blocks.length i.entry)⟩

/-- List the hits of a run together with the output at that time. -/
def hostHandler : HitHandler δ (List (Hit × String)) :=
  fun m b hits => (hits ++ [(Hit.of m b, m.outputText)], [])

variable [Device δ]

/-- Run the machine and tell the watcher. -/
def run (s : Session δ) (p : Policy) : Watcher → Reply δ
  | .nobody =>
    let r := s.machine.run p HitHandler.ignore ()
    ⟨s.withMachine r.machine, .outcome r.outcome [], r.events⟩
  | .host =>
    let r := s.machine.run p hostHandler []
    ⟨s.withMachine r.machine, .outcome r.outcome r.handler, r.events⟩
  | .channel =>
    let r := s.machine.run p HitChannel.handler s.channel
    ⟨⟨r.machine, r.handler⟩, .outcome r.outcome [], r.events⟩

/-- Carry out a command. -/
def perform (s : Session δ) : Command δ → Reply δ
  | .load blocks entry =>
    match blocks.foldlM Image.addBlock {} with
    | .error e => ⟨s, .blockError e, #[]⟩
    | .ok i => s.loadImage { i with chosenEntry := entry } #[]
  | .loadText source =>
    match Image.ofText source with
    | .error e => ⟨s, .textError e, #[]⟩
    | .ok i => s.loadImage i #[.parsed i.blocks.length i.symbols.size]
  | .loadObject bytes =>
    match Image.ofObject bytes with
    | .error e => ⟨s, .objectError e, #[]⟩
    | .ok i => s.loadImage i #[]
  | .reset => ⟨s.withMachine s.machine.reset, .nothing, #[.reset]⟩
  | .configure edit =>
    let flags := edit s.machine.flags
    ⟨s.withMachine { s.machine with flags := flags }, .flags flags, #[]⟩
  | .readRegister n =>
    match s.machine.readRegister n with
    | .error e => ⟨s, .invalidRegister e, #[]⟩
    | .ok w => ⟨s, .word (some w), #[]⟩
  | .writeRegister n w =>
    match s.machine.writeRegister n w with
    | .error e => ⟨s, .invalidRegister e, #[]⟩
    | .ok m => ⟨s.withMachine m, .ok, #[]⟩
  | .setPc a => ⟨s.withMachine (s.machine.setPc a), .nothing, #[]⟩
  | .writePsr w => ⟨s.withMachine { s.machine with psr := ⟨w⟩ }, .status ⟨w⟩, #[]⟩
  | .readMemory a =>
    let (w, m) := s.machine.inspect a
    ⟨s.withMachine m, .word (some w), #[]⟩
  | .writeMemory a w => ⟨s.withMachine (s.machine.store a w), .nothing, #[]⟩
  | .disassemble a n =>
    let (ts, m) := s.machine.disassemble a n
    ⟨s.withMachine m, .texts ts, #[]⟩
  | .accesses => ⟨s, .accesses s.machine.access Access.omnipotent, #[]⟩
  | .step n =>
    let (rs, m, events) := s.machine.steps n
    ⟨s.withMachine m, .steps rs, events⟩
  | .run p w => s.run p w
  | .drain => ⟨{ s with channel := s.channel.drain }, .hits s.channel.queue, #[]⟩
  | .disconnect => ⟨{ s with channel := s.channel.disconnect }, .nothing, #[]⟩
  | .setInput bs => ⟨s.withMachine (s.machine.withKeyboard (·.setInput bs)), .nothing, #[]⟩
  | .pushInput bs => ⟨s.withMachine (s.machine.withKeyboard (·.pushInput bs)), .nothing, #[]⟩
  | .clearInput => ⟨s.withMachine (s.machine.withKeyboard (·.clearInput)), .nothing, #[]⟩
  | .setDelay n => ⟨s.withMachine (s.machine.withKeyboard (·.setDelay n)), .nothing, #[]⟩
  | .outputText => ⟨s, .text s.machine.outputText, #[]⟩
  | .takeOutput =>
    ⟨s.withMachine (s.machine.withDisplay Display.clear),
      .bytes s.machine.bus.display.output.toList, #[]⟩
  | .clearOutput => ⟨s.withMachine (s.machine.withDisplay Display.clear), .nothing, #[]⟩
  | .setBreakpoint a =>
    let bs := s.machine.breakpoints
    ⟨s.withBreakpoints (bs.set a), .breakpoint (some (bs.fresh a)), #[.breakpointSet (bs.fresh a)]⟩
  | .removeBreakpoint id =>
    let bs := s.machine.breakpoints
    match bs.get? id with
    | some b => ⟨s.withBreakpoints (bs.remove id), .flag true, #[.breakpointRemoved b]⟩
    | none => ⟨s, .flag false, #[]⟩
  | .clearBreakpoints => ⟨s.withBreakpoints s.machine.breakpoints.clear, .nothing, #[]⟩
  | .getBreakpoint id => ⟨s, .breakpoint (s.machine.breakpoints.get? id), #[]⟩
  | .breakpointAt a => ⟨s, .breakpoint (s.machine.breakpoints.at? a), #[]⟩
  | .listBreakpoints => ⟨s, .breakpoints s.machine.breakpoints, #[]⟩
  | .attach device ports =>
    let (id, b) := s.machine.bus.attach device ports
    let events := match id with
      | some id => #[.deviceAttached id ports.length]
      | none => #[]
    ⟨s.withBus b, .device id, events⟩
  | .attachMany device n =>
    let (ids, b) := s.machine.bus.attachMany device n []
    ⟨s.withBus b, .devices ids.length ids.head?,
      (ids.reverse.map fun id => Event.deviceAttached id 0).toArray⟩
  | .detach id =>
    let (removed, b) := s.machine.bus.detach id
    ⟨s.withBus b, .flag removed, #[]⟩
  | .readPort a effects =>
    let r := s.machine.bus.read a effects
    ⟨s.withBus r.bus, .word r.word, r.events.toArray⟩
  | .writePort a w =>
    let (taken, b) := s.machine.bus.write a w
    ⟨s.withBus b, .flag taken, #[]⟩
  | .poll =>
    let (offer, b) := s.machine.bus.poll
    ⟨s.withBus b, .interrupt offer, #[]⟩
  | .tick n => ⟨s.withBus (Nat.repeat Bus.tick n s.machine.bus), .nothing, #[]⟩
  | .resetDevices => ⟨s.withBus s.machine.bus.reset, .nothing, #[]⟩
  | .describeDevices => ⟨s, .text s.machine.bus.describe, #[]⟩

end Session

end Lc3
