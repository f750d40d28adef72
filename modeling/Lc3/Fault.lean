import Lc3.Word

/-!
# Faults

What stops a program that cannot go on: a word that is no instruction, a privileged instruction in
user mode, or an access in user mode outside user space. A fault knows the address of the
instruction that raised it.
-/

namespace Lc3

/-- Why an instruction could not be executed. -/
inductive Fault where
  | illegalInstruction (pc word : Word)
  | privilegeViolation (pc : Word)
  | accessViolation (pc address : Word)
deriving DecidableEq

/-- The address of the instruction that raised a fault. -/
def Fault.pc : Fault → Word
  | .illegalInstruction pc _ => pc
  | .privilegeViolation pc => pc
  | .accessViolation pc _ => pc

/-- What is reported of a fault. -/
def Fault.message : Fault → String
  | .illegalInstruction pc word => s!"illegal instruction x{word.hex} at x{pc.hex}"
  | .privilegeViolation pc => s!"privilege violation at x{pc.hex}"
  | .accessViolation pc address =>
    s!"access violation at x{pc.hex} (tried to access x{address.hex})"

end Lc3
