/-!
# Words and bit fields

The machine's data, addresses and instructions are sixteen-bit words. An instruction holds its
operands in narrower fields; a field is widened on use, by its sign bit or by zeros. This module
holds the words, the cut of a field out of a word, and the written forms of both.
-/

namespace Lc3

/-- A machine word: a datum, an address or an instruction. -/
abbrev Word := BitVec 16

/-- A byte: a character of input or output, or half of a word in an object file. -/
abbrev Byte := BitVec 8

/-! ### Hexadecimal digits -/

/-- The upper-case hexadecimal digit of a number below sixteen. -/
def hexDigit (n : Nat) : Char :=
  if n < 10 then Char.ofNat (48 + n) else Char.ofNat (55 + n)

/-- The last `k` hexadecimal digits of a number, the most significant first. -/
def hexDigits : Nat → Nat → List Char
  | 0, _ => []
  | k + 1, n => hexDigits k (n / 16) ++ [hexDigit (n % 16)]

theorem hexDigits_length (k n : Nat) : (hexDigits k n).length = k := by
  induction k generalizing n with
  | zero => rfl
  | succ k ih => simp [hexDigits, ih]

/-- Four hexadecimal digits, as in addresses and machine words. -/
def Word.hex (w : Word) : String := String.ofList (hexDigits 4 w.toNat)

/-- Two hexadecimal digits, as in trap vectors and interrupt vectors. -/
def byteHex (b : Byte) : String := String.ofList (hexDigits 2 b.toNat)

/-- The hexadecimal digits of a word without leading zeros; zero keeps one digit. -/
def Word.shortHex (w : Word) : String :=
  match (hexDigits 4 w.toNat).dropWhile (· == '0') with
  | [] => "0"
  | ds => String.ofList ds

/-! ### Fields -/

/-- A field that does not fit into a word. -/
structure FieldTooWide where
  bits : Nat
deriving DecidableEq

/-- What is reported of a field that is too wide. -/
def FieldTooWide.message (e : FieldTooWide) : String :=
  s!"bit size {e.bits} exceeds size of backing (16)"

/-- The low `bits` bits of a word. -/
def Word.field (bits : Nat) (w : Word) : Except FieldTooWide (BitVec bits) :=
  if bits ≤ 16 then .ok (w.setWidth bits) else .error ⟨bits⟩

/-- A signed field, widened to a word by its sign bit. -/
def signedField {n : Nat} (f : BitVec n) : Word := f.signExtend 16

/-- An unsigned field, widened to a word by zeros. -/
def unsignedField {n : Nat} (f : BitVec n) : Word := f.setWidth 16

/-- A signed field as an assembly operand: a number sign and the decimal value. -/
def signedText {n : Nat} (f : BitVec n) : String := s!"#{f.toInt}"

/-- An unsigned field as an assembly operand: a number sign and the decimal value. -/
def unsignedText {n : Nat} (f : BitVec n) : String := s!"#{f.toNat}"

/-! ### The address space -/

/-- The first address of user space, where programs start by default. -/
def userStart : Word := 0x3000

/-- The first address of memory-mapped input and output, which ends user space. -/
def ioStart : Word := 0xFE00

/-- The address at which the processor status register can be read and written. -/
def psrAddress : Word := 0xFFFC

/-- The address of the machine control register, whose top bit keeps the machine running. -/
def mcrAddress : Word := 0xFFFE

/-- Interrupt vectors are looked up in memory from this address on. -/
def interruptTable : Word := 0x0100

/-- The trap vector that halts the machine. -/
def haltVector : BitVec 8 := 0x25

/-- The addresses that a program in user mode may access. -/
def inUserSpace (a : Word) : Bool := userStart ≤ a && a < ioStart

/-- The addresses at which devices answer instead of memory. -/
def isPort (a : Word) : Bool := ioStart ≤ a

end Lc3
