import Lc3.Word

/-!
# Registers

Eight general-purpose registers, named by a three-bit number. Callers that name a register by an
arbitrary number get it through `Reg.ofNumber`, which refuses numbers above seven.
-/

namespace Lc3

/-- The number of a general-purpose register. -/
abbrev Reg := BitVec 3

/-- The stack pointer of traps and interrupts. -/
def stackReg : Reg := 6

/-- The register that holds the return address of a subroutine. -/
def linkReg : Reg := 7

/-- The name of a register in assembly. -/
def Reg.name (r : Reg) : String := s!"R{r.toNat}"

/-- A number that names no register. -/
structure InvalidRegister where
  number : Nat
deriving DecidableEq

/-- What is reported of a number that names no register. -/
def InvalidRegister.message (e : InvalidRegister) : String :=
  s!"invalid register {e.number} (registers are R0-R7)"

/-- The register with a given number. -/
def Reg.ofNumber (n : Nat) : Except InvalidRegister Reg :=
  if n < 8 then .ok (BitVec.ofNat 3 n) else .error ⟨n⟩

theorem Reg.ofNumber_toNat (r : Reg) : Reg.ofNumber r.toNat = .ok r := by
  have h : r.toNat < 8 := r.isLt
  simp [Reg.ofNumber, h]

end Lc3
