import Lc3.Word

/-!
# Numerals

Reading of decimal and hexadecimal numerals into words. Digits are read from left to right and
only the ten or sixteen digits of the basic alphabet count. The first character that is no digit,
or the first digit that leaves the range, decides what is wrong with a numeral.
-/

namespace Lc3

/-- The base of a numeral. -/
inductive Base where
  | decimal
  | hex
deriving DecidableEq

/-- The number of digits of a base. -/
def Base.radix : Base → Nat
  | .decimal => 10
  | .hex => 16

/-- Why a text is no numeral. -/
inductive NumeralError where
  | empty
  | badDigit
  | overflow
deriving DecidableEq

/-! ### Digits -/

/-- The value of a hexadecimal digit, in either case. -/
def hexValue (c : Char) : Option Nat :=
  if '0' ≤ c ∧ c ≤ '9' then some (c.toNat - 48)
  else if 'A' ≤ c ∧ c ≤ 'F' then some (c.toNat - 55)
  else if 'a' ≤ c ∧ c ≤ 'f' then some (c.toNat - 87)
  else none

theorem hexValue_hexDigit {n : Nat} (h : n < 16) : hexValue (hexDigit n) = some n := by
  have all : ∀ k ∈ List.range 16, hexValue (hexDigit k) = some k := by decide
  exact all n (List.mem_range.mpr h)

/-- The value of a digit in a base. -/
def Base.value (b : Base) (c : Char) : Option Nat :=
  (hexValue c).filter (· < b.radix)

/-- The number that a text continues, if every character is a digit and the number never exceeds
the limit. -/
def readDigits (b : Base) (limit : Nat) : Nat → List Char → Except NumeralError Nat
  | acc, [] => .ok acc
  | acc, c :: cs =>
    match b.value c with
    | none => .error .badDigit
    | some d =>
      if acc * b.radix + d ≤ limit then readDigits b limit (acc * b.radix + d) cs
      else .error .overflow

/-! ### Words -/

/-- The word that an unsigned numeral stands for: at most 65535. -/
def readUnsigned (b : Base) : List Char → Except NumeralError Word
  | [] => .error .empty
  | cs => (readDigits b 65535 0 cs).map (BitVec.ofNat 16)

/-- The word that the digits after a minus sign stand for: at least -32768. -/
def readNegative (b : Base) : List Char → Except NumeralError Word
  | [] => .error .empty
  | cs => (readDigits b 32768 0 cs).map fun n => BitVec.ofInt 16 (-n)

end Lc3
