import Lc3.Word

/-!
# Devices

A device answers at its ports in place of memory, may ask for an interrupt before each
instruction, and is told when an instruction was completed. `Device` is what a machine needs to
know of the devices that are attached to it.
-/

namespace Lc3

/-! ### Interrupts -/

/-- A request to interrupt the program. -/
structure Interrupt where
  /-- The entry of the interrupt table that holds the address of the handler. -/
  vector : Byte
  priority : BitVec 3
deriving DecidableEq

/-- The fields of an interrupt, as shown to a person debugging a device. -/
def Interrupt.describe (i : Interrupt) : String :=
  s!"Interrupt \x7b vect: {i.vector.toNat}, priority: {i.priority.toNat} \x7d"

/-- The more urgent of two requests; of equal ones the later. -/
def Interrupt.later (i j : Interrupt) : Interrupt := if i.priority ≤ j.priority then j else i

/-- The most urgent of several requests; of equal ones the last. -/
def Interrupt.mostUrgent? : List Interrupt → Option Interrupt
  | [] => none
  | i :: is => some (is.foldl Interrupt.later i)

/-! ### The device interface -/

/-- The behaviour of the devices of a type. -/
class Device (δ : Type) where
  /-- Read at a port. A device that has no answer leaves the stored word as it is. With
  `effects` unset the read is an inspection, which should not change the device. -/
  read : δ → (address : Word) → (effects : Bool) → Option Word × δ
  /-- Write at a port, and whether the device took the word. -/
  write : δ → (address word : Word) → Bool × δ
  /-- The device when the machine is reset. -/
  reset : δ → δ
  /-- The interrupt that the device asks for before an instruction. -/
  poll : δ → Option Interrupt × δ
  /-- The device after an instruction was completed. -/
  tick : δ → δ

end Lc3
