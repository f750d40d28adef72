import Lc3.Device.Basic

/-!
# The keyboard

The keyboard holds a queue of bytes. Its status register shows in bit 15 whether a byte is ready,
and in bit 14 whether it may interrupt the program. Reading the data register consumes one byte if
one is ready. A byte becomes ready only after the character delay, counted in completed
instructions, has passed.
-/

namespace Lc3

/-- The address of the keyboard status register. -/
def kbsr : Word := 0xFE00

/-- The address of the keyboard data register. -/
def kbdr : Word := 0xFE02

/-- The state of the keyboard. -/
structure Keyboard where
  queue : List Byte := []
  interrupts : Bool := false
  /-- How many instructions must complete before each byte becomes ready. -/
  delay : Nat := 0
  /-- How many of them are still to complete before the next byte. -/
  cooldown : Nat := 0
deriving DecidableEq

namespace Keyboard

/-- The interrupt that the keyboard asks for. -/
def interrupt : Interrupt := ⟨0x80, 4⟩

/-- Whether a byte can be consumed. -/
def ready (k : Keyboard) : Bool := !k.queue.isEmpty && k.cooldown == 0

/-! ### Input from the host -/

/-- Replace the queue, which starts the delay anew. -/
def setInput (k : Keyboard) (bytes : List Byte) : Keyboard :=
  { k with queue := bytes, cooldown := k.delay }

/-- Append to the queue, which starts the delay anew if the queue was empty. -/
def pushInput (k : Keyboard) (bytes : List Byte) : Keyboard :=
  { k with
    queue := k.queue ++ bytes
    cooldown := if k.queue.isEmpty then k.delay else k.cooldown }

/-- Empty the queue. -/
def clearInput (k : Keyboard) : Keyboard := { k with queue := [] }

/-- Set the delay; a running wait is cut to it. -/
def setDelay (k : Keyboard) (delay : Nat) : Keyboard :=
  { k with delay := delay, cooldown := min k.cooldown delay }

/-! ### The device -/

/-- The byte that is consumed by reading the data register. -/
def consume? (k : Keyboard) : Option (Byte × Keyboard) :=
  match k.queue with
  | [] => none
  | b :: rest =>
    if k.cooldown = 0 then some (b, { k with queue := rest, cooldown := k.delay }) else none

/-- The word in the status register. -/
def status (k : Keyboard) : Word := BitVec.ofBool k.ready ++ BitVec.ofBool k.interrupts ++ 0#14

/-- Read a register. Only an effectful read of the data register consumes a byte. -/
def read (k : Keyboard) (a : Word) (effects : Bool) : Option Word × Keyboard :=
  if a = kbsr then (some k.status, k)
  else if a = kbdr then
    match k.consume? with
    | none => (none, k)
    | some (b, rest) => (some (b.setWidth 16), if effects then rest else k)
  else (none, k)

/-- Write a register. The status register takes bit 14; the data register takes nothing. -/
def write (k : Keyboard) (a w : Word) : Bool × Keyboard :=
  if a = kbsr then (true, { k with interrupts := w.getLsbD 14 }) else (false, k)

/-- The keyboard after a reset, which keeps the delay. -/
def reset (k : Keyboard) : Keyboard := { delay := k.delay }

/-- The keyboard interrupts while a byte is ready, if the program allowed it. -/
def poll (k : Keyboard) : Option Interrupt :=
  if k.ready && k.interrupts then some interrupt else none

/-- One more instruction has completed. The wait runs only while bytes are queued. -/
def tick (k : Keyboard) : Keyboard :=
  if k.queue.isEmpty then k else { k with cooldown := k.cooldown - 1 }

theorem ready_iff_consume? (k : Keyboard) : k.ready = k.consume?.isSome := by
  unfold ready consume?
  cases k.queue with
  | nil => rfl
  | cons b rest => by_cases h : k.cooldown = 0 <;> simp [h]

/-- The bytes of a list as shown to a person debugging a device. -/
def bytesText (bs : List Byte) : String :=
  "[" ++ ", ".intercalate (bs.map fun b => toString b.toNat) ++ "]"

/-- The state of the keyboard, as shown to a person debugging a device. -/
def describe (k : Keyboard) : String :=
  "BufferedKeyboard \x7b input: " ++ bytesText k.queue ++ ", interrupts_enabled: "
    ++ toString k.interrupts ++ ", char_delay: " ++ toString k.delay ++ ", cooldown: "
    ++ toString k.cooldown ++ " \x7d"

end Keyboard

end Lc3
