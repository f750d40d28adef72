import Lc3.Image.Numeral
import Mathlib.Algebra.Group.Nat.Defs

/-!
# Reading back written numerals

A numeral is read digit by digit from the left, and written with its last digit split off. The two
meet in `readDigits_snoc`: one more digit at the end is one more step of the reader.
-/

namespace Lc3

theorem Base.radix_cases (b : Base) : b.radix = 10 ∨ b.radix = 16 := by cases b <;> simp [radix]

theorem Base.value_hexDigit (b : Base) {n : Nat} (digit : n < b.radix) :
    b.value (hexDigit n) = some n := by
  have small : n < 16 := by
    have radix := b.radix_cases
    omega
  simp [value, hexValue_hexDigit small, digit]

theorem digitChar_eq_hexDigit {n : Nat} (digit : n < 10) : n.digitChar = hexDigit n := by
  have all : ∀ k ∈ List.range 10, k.digitChar = hexDigit k := by decide
  exact all n (List.mem_range.mpr digit)

theorem readDigits_append {b : Base} {limit acc n : Nat} {cs : List Char}
    (read : readDigits b limit acc cs = .ok n) (cs' : List Char) :
    readDigits b limit acc (cs ++ cs') = readDigits b limit n cs' := by
  induction cs generalizing acc with
  | nil =>
    cases read
    rfl
  | cons c cs ih =>
    simp only [readDigits, List.cons_append] at read ⊢
    split at read
    · cases read
    · split at read
      · next inRange => rw [if_pos inRange, ih read]
      · cases read

theorem readDigits_snoc {b : Base} {limit n : Nat} {cs : List Char}
    (read : readDigits b limit 0 cs = .ok (n / b.radix)) (inRange : n ≤ limit) :
    readDigits b limit 0 (cs ++ [hexDigit (n % b.radix)]) = .ok n := by
  have pos : 0 < b.radix := by
    have radix := b.radix_cases
    omega
  have digit := b.value_hexDigit (Nat.mod_lt n pos)
  have whole : n / b.radix * b.radix + n % b.radix = n := Nat.div_add_mod' n b.radix
  rw [readDigits_append read]
  simp only [readDigits, digit, whole, if_pos inRange]

/-! ### Hexadecimal -/

theorem readDigits_hexDigits {limit n k : Nat} (fits : n < 16 ^ k) (inRange : n ≤ limit) :
    readDigits .hex limit 0 (hexDigits k n) = .ok n := by
  induction k generalizing n with
  | zero =>
    have zero : n = 0 := by omega
    rw [zero, hexDigits, readDigits]
  | succ k ih =>
    have fits' : n / 16 < 16 ^ k := by
      rw [Nat.pow_succ] at fits
      omega
    exact readDigits_snoc (ih fits' (by omega)) inRange

theorem readUnsigned_of_ne_nil {b : Base} {cs : List Char} {n : Nat} (written : cs ≠ [])
    (read : readDigits b 65535 0 cs = .ok n) : readUnsigned b cs = .ok (BitVec.ofNat 16 n) := by
  cases cs with
  | nil => exact absurd rfl written
  | cons c cs => simp [readUnsigned, read, Except.map]

theorem readUnsigned_hexDigits (w : Word) : readUnsigned .hex (hexDigits 4 w.toNat) = .ok w := by
  have bound := w.isLt
  have written : hexDigits 4 w.toNat ≠ [] := by simp [hexDigits]
  have read : readDigits .hex 65535 0 (hexDigits 4 w.toNat) = .ok w.toNat :=
    readDigits_hexDigits bound (by omega)
  rw [readUnsigned_of_ne_nil written read, BitVec.ofNat_toNat, BitVec.setWidth_eq]

/-! ### Decimal -/

theorem readDigits_toDigits {limit n : Nat} (inRange : n ≤ limit) :
    readDigits .decimal limit 0 (Nat.toDigits 10 n) = .ok n := by
  induction n using Nat.strongRecOn with
  | ind n ih =>
    by_cases digit : n < 10
    · rw [Nat.toDigits_of_lt_base digit, digitChar_eq_hexDigit digit]
      have last : readDigits .decimal limit 0 [] = .ok (n / 10) := by
        rw [Nat.div_eq_of_lt digit, readDigits]
      simpa [Base.radix, Nat.mod_eq_of_lt digit] using readDigits_snoc last inRange
    · have mod : n % 10 < 10 := Nat.mod_lt n (by omega)
      rw [Nat.toDigits_of_base_le (by omega) (by omega), digitChar_eq_hexDigit mod]
      exact readDigits_snoc (ih (n / 10) (by omega) (by omega)) inRange

theorem readUnsigned_toDigits (w : Word) :
    readUnsigned .decimal (Nat.toDigits 10 w.toNat) = .ok w := by
  have read : readDigits .decimal 65535 0 (Nat.toDigits 10 w.toNat) = .ok w.toNat :=
    readDigits_toDigits (by omega)
  rw [readUnsigned_of_ne_nil Nat.toDigits_ne_nil read, BitVec.ofNat_toNat, BitVec.setWidth_eq]

end Lc3
