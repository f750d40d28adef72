import Lc3.Device.Keyboard

/-!
# The display

The display is always ready and appends the low byte of each word written to its data register to
its output.
-/

namespace Lc3

/-- The address of the display status register. -/
def dsr : Word := 0xFE04

/-- The address of the display data register. -/
def ddr : Word := 0xFE06

/-- The state of the display. -/
structure Display where
  /-- The bytes written so far. -/
  output : Array Byte := #[]
deriving DecidableEq

namespace Display

/-- Read a register. The status register says that the display is ready. -/
def read (_ : Display) (a : Word) : Option Word := if a = dsr then some 0x8000 else none

/-- Write a register. Only the data register takes a word. -/
def write (d : Display) (a w : Word) : Bool × Display :=
  if a = ddr then (true, ⟨d.output.push (w.setWidth 8)⟩) else (false, d)

/-- The display with no output. -/
def clear (_ : Display) : Display := {}

/-- The state of the display, as shown to a person debugging a device. -/
def describe (d : Display) : String :=
  "BufferedDisplay \x7b output: " ++ Keyboard.bytesText d.output.toList ++ " \x7d"

end Display

end Lc3
