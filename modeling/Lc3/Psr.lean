import Lc3.Instruction

/-!
# The processor status register

A word whose top bit is the privilege mode (set in user mode), whose bits 10 to 8 are the
interrupt priority, and whose low three bits are the condition codes. The other bits have no
meaning and are kept as written. Each update changes its own field only
(`codes_withPrivileged`, `privileged_withPriority` and their like).
-/

namespace Lc3

/-- The processor status register. -/
structure Psr where
  word : Word
deriving DecidableEq

namespace Psr

/-- The status of a fresh machine: user mode, priority zero, condition code z. -/
def initial : Psr := ⟨0x8002⟩

/-! ### Fields -/

/-- Whether the machine is in supervisor mode. -/
def privileged (s : Psr) : Bool := !s.word.msb

/-- The priority that an interrupt has to exceed. -/
def priority (s : Psr) : BitVec 3 := s.word.extractLsb' 8 3

/-- The condition codes n, z and p, as bits 2, 1 and 0. -/
def codes (s : Psr) : BitVec 3 := s.word.extractLsb' 0 3

/-- The code that a negative result sets. -/
def negative : BitVec 3 := 0b100

/-- The code that a result of zero sets. -/
def zero : BitVec 3 := 0b010

/-- The code that a positive result sets. -/
def positive : BitVec 3 := 0b001

/-! ### Updates -/

/-- The register in supervisor mode or in user mode. -/
def withPrivileged (s : Psr) (supervisor : Bool) : Psr :=
  ⟨BitVec.ofBool (!supervisor) ++ s.word.extractLsb' 0 15⟩

/-- The register with another priority. -/
def withPriority (s : Psr) (p : BitVec 3) : Psr :=
  ⟨s.word.extractLsb' 11 5 ++ p ++ s.word.extractLsb' 0 8⟩

/-- The register with other condition codes; anything but exactly one code counts as z. -/
def withCodes (s : Psr) (cc : BitVec 3) : Psr :=
  let code := if cc = negative ∨ cc = positive then cc else zero
  ⟨s.word.extractLsb' 3 13 ++ code⟩

/-- The code of a result: its sign in two's complement. -/
def codeOf (result : Word) : BitVec 3 :=
  if result.msb then negative else if result = 0 then zero else positive

/-- The register after an instruction that computed a result. -/
def record (s : Psr) (result : Word) : Psr := s.withCodes (codeOf result)

/-! ### Laws -/

theorem privileged_withPrivileged (s : Psr) (b : Bool) : (s.withPrivileged b).privileged = b := by
  unfold withPrivileged privileged
  rw [BitVec.msb_append]
  simp

theorem codes_withPrivileged (s : Psr) (b : Bool) : (s.withPrivileged b).codes = s.codes := by
  unfold withPrivileged codes
  apply BitVec.eq_of_getLsbD_eq
  intro i hi
  rw [BitVec.getLsbD_extractLsb', BitVec.getLsbD_append]
  have cases : i = 0 ∨ i = 1 ∨ i = 2 := by omega
  rcases cases with rfl | rfl | rfl <;> simp

theorem priority_withPrivileged (s : Psr) (b : Bool) :
    (s.withPrivileged b).priority = s.priority := by
  unfold withPrivileged priority
  apply BitVec.eq_of_getLsbD_eq
  intro i hi
  rw [BitVec.getLsbD_extractLsb', BitVec.getLsbD_append]
  have cases : i = 0 ∨ i = 1 ∨ i = 2 := by omega
  rcases cases with rfl | rfl | rfl <;> simp

theorem priority_withPriority (s : Psr) (p : BitVec 3) : (s.withPriority p).priority = p := by
  unfold withPriority priority
  apply BitVec.eq_of_getLsbD_eq
  intro i hi
  rw [BitVec.getLsbD_extractLsb', BitVec.getLsbD_append, BitVec.getLsbD_append]
  have cases : i = 0 ∨ i = 1 ∨ i = 2 := by omega
  rcases cases with rfl | rfl | rfl <;> simp

theorem privileged_withPriority (s : Psr) (p : BitVec 3) :
    (s.withPriority p).privileged = s.privileged := by
  unfold withPriority privileged
  rw [BitVec.msb_append, BitVec.msb_append]
  simp [BitVec.msb_eq_getLsbD_last]

theorem privileged_withCodes (s : Psr) (cc : BitVec 3) :
    (s.withCodes cc).privileged = s.privileged := by
  unfold withCodes privileged
  dsimp only
  rw [BitVec.msb_append]
  simp [BitVec.msb_eq_getLsbD_last]

theorem priority_withCodes (s : Psr) (cc : BitVec 3) :
    (s.withCodes cc).priority = s.priority := by
  unfold withCodes priority
  dsimp only
  apply BitVec.eq_of_getLsbD_eq
  intro i hi
  rw [BitVec.getLsbD_extractLsb', BitVec.getLsbD_append]
  have cases : i = 0 ∨ i = 1 ∨ i = 2 := by omega
  rcases cases with rfl | rfl | rfl <;> simp

/-- A result leaves exactly its own code behind. -/
theorem codes_record (s : Psr) (result : Word) : (s.record result).codes = codeOf result := by
  unfold record withCodes codes
  dsimp only
  apply BitVec.eq_of_getLsbD_eq
  intro i hi
  rw [BitVec.getLsbD_extractLsb', BitVec.getLsbD_append]
  simp only [hi, Nat.zero_add, decide_true, Bool.true_and, if_true]
  unfold codeOf
  split
  · rfl
  · split <;> rfl

/-! ### Text -/

/-- The fields of the register, as shown to a person debugging a program. -/
def describe (s : Psr) : String :=
  "PSR \x7b privileged: " ++ toString s.privileged ++ ", priority: " ++ toString s.priority.toNat
    ++ ", cc: " ++ Instruction.codeLetters "N" "Z" "P" s.codes ++ " \x7d"

end Psr

end Lc3
