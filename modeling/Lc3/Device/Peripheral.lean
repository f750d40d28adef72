import Lc3.Device.Basic

/-!
# Stock peripherals

Small devices for programs that exercise memory-mapped input and output: a register, a counter of
reads, an echo of the address, devices that take nothing, and a timer that interrupts.
-/

namespace Lc3

/-- A stock device with its state. -/
inductive Peripheral where
  /-- A word that can be read and written. -/
  | register (value : Word)
  /-- Counts its reads; a write sets the count. -/
  | counter (reads : Word)
  /-- Answers every read with the address. -/
  | echo
  /-- Has no answer. -/
  | silent
  /-- Answers every read with the same word. -/
  | plain
  /-- Counts completed instructions and interrupts once a period has passed; a write starts the
  count anew. -/
  | timer (period : Nat) (interrupt : Interrupt) (ticks : Nat)
deriving DecidableEq

namespace Peripheral

/-- The word that a plain device answers. -/
def plainWord : Word := 0x5AFE

/-- Read at a port. -/
def read : Peripheral → Word → Bool → Option Word × Peripheral
  | register v, _, _ => (some v, register v)
  | counter n, _, effects =>
    let n := if effects then n + 1 else n
    (some n, counter n)
  | echo, a, _ => (some a, echo)
  | silent, _, _ => (none, silent)
  | plain, _, _ => (some plainWord, plain)
  | timer p i t, _, _ => (some (BitVec.ofNat 16 t), timer p i t)

/-- Write at a port. -/
def write : Peripheral → Word → Word → Bool × Peripheral
  | register _, _, w => (true, register w)
  | counter _, _, w => (true, counter w)
  | timer p i _, _, _ => (true, timer p i 0)
  | d, _, _ => (false, d)

/-- The device when the machine is reset. -/
def reset : Peripheral → Peripheral
  | register _ => register 0
  | counter _ => counter 0
  | timer p i _ => timer p i 0
  | d => d

/-- The interrupt that the device asks for. -/
def poll : Peripheral → Option Interrupt
  | timer p i t => if p ≤ t then some i else none
  | _ => none

/-- The device after an instruction was completed. -/
def tick : Peripheral → Peripheral
  | timer p i t => timer p i (t + 1)
  | d => d

end Peripheral

instance : Device Peripheral where
  read := Peripheral.read
  write := Peripheral.write
  reset := Peripheral.reset
  poll d := (d.poll, d)
  tick := Peripheral.tick

end Lc3
