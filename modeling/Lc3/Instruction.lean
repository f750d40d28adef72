import Lc3.Register

/-!
# Instructions

Every word decodes to exactly one instruction; a word with a reserved opcode, or with wrong fixed
bits, decodes to `Instruction.reserved` and is illegal when executed. `encode` puts the fields of
an instruction back into a word, and `text` writes it in assembly.
-/

namespace Lc3

/-- An operand that is either an immediate value of `n` bits or a register. -/
inductive Operand (n : Nat) where
  | imm (value : BitVec n)
  | reg (r : Reg)
deriving DecidableEq

/-- A decoded instruction, with its operands as the fields of the word. -/
inductive Instruction where
  /-- Branch if one of the named condition codes is set. -/
  | br (codes : BitVec 3) (offset : BitVec 9)
  | add (dst src : Reg) (operand : Operand 5)
  | ld (dst : Reg) (offset : BitVec 9)
  | st (src : Reg) (offset : BitVec 9)
  /-- Subroutine call, relative to the program counter or through a register. -/
  | jsr (target : Operand 11)
  | and (dst src : Reg) (operand : Operand 5)
  | ldr (dst base : Reg) (offset : BitVec 6)
  | str (src base : Reg) (offset : BitVec 6)
  | rti
  | not (dst src : Reg)
  | ldi (dst : Reg) (offset : BitVec 9)
  | sti (src : Reg) (offset : BitVec 9)
  | jmp (base : Reg)
  | lea (dst : Reg) (offset : BitVec 9)
  | trap (vector : BitVec 8)
  /-- A word that is no instruction. -/
  | reserved (word : Word)
deriving DecidableEq

namespace Instruction

/-! ### Decoding -/

/-- The second operand of an addition or a conjunction, if the fixed bits are right. -/
def decodeOperand (w : Word) : Option (Operand 5) :=
  if w.getLsbD 5 then some (.imm (w.extractLsb' 0 5))
  else if w.extractLsb' 3 2 = 0 then some (.reg (w.extractLsb' 0 3))
  else none

/-- The target of a subroutine call, if the fixed bits are right. -/
def decodeTarget (w : Word) : Option (Operand 11) :=
  if w.getLsbD 11 then some (.imm (w.extractLsb' 0 11))
  else if w.extractLsb' 9 2 = 0 ∧ w.extractLsb' 0 6 = 0 then some (.reg (w.extractLsb' 6 3))
  else none

/-- The instruction that a word stands for. -/
def decode (w : Word) : Instruction :=
  let r₁ : Reg := w.extractLsb' 9 3
  let r₂ : Reg := w.extractLsb' 6 3
  let off₉ : BitVec 9 := w.extractLsb' 0 9
  let off₆ : BitVec 6 := w.extractLsb' 0 6
  match (w.extractLsb' 12 4).toNat with
  | 0x0 => .br r₁ off₉
  | 0x1 => (decodeOperand w).elim (.reserved w) (.add r₁ r₂)
  | 0x2 => .ld r₁ off₉
  | 0x3 => .st r₁ off₉
  | 0x4 => (decodeTarget w).elim (.reserved w) .jsr
  | 0x5 => (decodeOperand w).elim (.reserved w) (.and r₁ r₂)
  | 0x6 => .ldr r₁ r₂ off₆
  | 0x7 => .str r₁ r₂ off₆
  | 0x8 => if w.extractLsb' 0 12 = 0 then .rti else .reserved w
  | 0x9 => if off₆ = BitVec.allOnes 6 then .not r₁ r₂ else .reserved w
  | 0xA => .ldi r₁ off₉
  | 0xB => .sti r₁ off₉
  | 0xC => if r₁ = 0 ∧ off₆ = 0 then .jmp r₂ else .reserved w
  | 0xE => .lea r₁ off₉
  | 0xF => if w.extractLsb' 8 4 = 0 then .trap (w.extractLsb' 0 8) else .reserved w
  | _ => .reserved w

/-- Whether the instruction can be executed. -/
def isLegal : Instruction → Bool
  | .reserved _ => false
  | _ => true

/-! ### Encoding -/

/-- The low six bits of an addition or a conjunction. -/
def encodeOperand : Operand 5 → BitVec 6
  | .imm v => 1#1 ++ v
  | .reg r => 0#3 ++ r

/-- The low twelve bits of a subroutine call. -/
def encodeTarget : Operand 11 → BitVec 12
  | .imm v => 1#1 ++ v
  | .reg r => 0#3 ++ r ++ 0#6

/-- The word that stands for an instruction. -/
def encode : Instruction → Word
  | .br codes off => 0x0#4 ++ codes ++ off
  | .add d s x => 0x1#4 ++ d ++ s ++ encodeOperand x
  | .ld d off => 0x2#4 ++ d ++ off
  | .st s off => 0x3#4 ++ s ++ off
  | .jsr x => 0x4#4 ++ encodeTarget x
  | .and d s x => 0x5#4 ++ d ++ s ++ encodeOperand x
  | .ldr d b off => 0x6#4 ++ d ++ b ++ off
  | .str s b off => 0x7#4 ++ s ++ b ++ off
  | .rti => 0x8000
  | .not d s => 0x9#4 ++ d ++ s ++ BitVec.allOnes 6
  | .ldi d off => 0xA#4 ++ d ++ off
  | .sti s off => 0xB#4 ++ s ++ off
  | .jmp b => 0xC#4 ++ 0#3 ++ b ++ 0#6
  | .lea d off => 0xE#4 ++ d ++ off
  | .trap v => 0xF0#8 ++ v
  | .reserved w => w

/-! ### Assembly text -/

/-- An operand in assembly: `#5` or `R5`. -/
def operandText {n : Nat} : Operand n → String
  | .imm v => signedText v
  | .reg r => r.name

/-- The letters of the condition codes that a three-bit set holds, in the order n, z, p. -/
def codeLetters (n z p : String) (codes : BitVec 3) : String :=
  (if codes.getLsbD 2 then n else "") ++ (if codes.getLsbD 1 then z else "")
    ++ (if codes.getLsbD 0 then p else "")

/-- The instruction in assembly. -/
def text : Instruction → String
  | .br codes off =>
    if codes = 0 then "NOP"
    else "BR" ++ codeLetters "n" "z" "p" codes ++ " " ++ signedText off
  | .add d s x => s!"ADD {d.name}, {s.name}, {operandText x}"
  | .ld d off => s!"LD {d.name}, {signedText off}"
  | .st s off => s!"ST {s.name}, {signedText off}"
  | .jsr (.imm off) => s!"JSR {signedText off}"
  | .jsr (.reg b) => s!"JSRR {b.name}"
  | .and d s x => s!"AND {d.name}, {s.name}, {operandText x}"
  | .ldr d b off => s!"LDR {d.name}, {b.name}, {signedText off}"
  | .str s b off => s!"STR {s.name}, {b.name}, {signedText off}"
  | .rti => "RTI"
  | .not d s => s!"NOT {d.name}, {s.name}"
  | .ldi d off => s!"LDI {d.name}, {signedText off}"
  | .sti s off => s!"STI {s.name}, {signedText off}"
  | .jmp b => if b = linkReg then "RET" else s!"JMP {b.name}"
  | .lea d off => s!"LEA {d.name}, {signedText off}"
  | .trap v => s!"TRAP x{byteHex v}"
  | .reserved w => s!".fill x{w.hex}"

end Instruction

end Lc3
