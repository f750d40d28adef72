import Lc3.Proofs.Scanning
import Mathlib.Data.Bool.AllAny
import Mathlib.Data.Nat.Digits.Defs

/-!
# Number literals

A literal is digits behind a start that tells the base, with a minus sign between them for a negative
number. The reader stops at the first digit that leaves the range, and no later digit could lead back
into it, so it decides on the number that all the digits stand for (`readDigits_number`). A source of
one literal is then scanned as that number, or as the error of its range (`Token.scan_literal`).
-/

namespace Lc3

/-! ### Digits -/

namespace Base

/-- The digits of a base in order of their values. -/
def digits : Base → List Char
  | .decimal => ['0', '1', '2', '3', '4', '5', '6', '7', '8', '9']
  | .hex => ['0', '1', '2', '3', '4', '5', '6', '7', '8', '9', 'A', 'B', 'C', 'D', 'E', 'F']

/-- A digit of a base, in upper or lower case. -/
def IsDigit (b : Base) (c : Char) : Prop := c ∈ b.digits ∨ c ∈ b.digits.map Char.toLower

instance (b : Base) (c : Char) : Decidable (b.IsDigit c) := inferInstanceAs (Decidable (_ ∨ _))

/-- The value of a digit. -/
def digitValue (b : Base) (c : Char) : Nat := b.digits.idxOf c.toUpper

/-- The number that digits stand for, the last one counting for its value. -/
def number (b : Base) (cs : List Char) : Nat :=
  Nat.ofDigits b.radix (cs.map b.digitValue).reverse

variable {b : Base} {c : Char} {cs : List Char}

/- What the reader and the scanner find out about a digit. -/
theorem IsDigit.found (digit : b.IsDigit c) :
    b.value c = some (b.digitValue c) ∧ Text.isWordChar c ∧ Token.startsHex c ∧ c ≠ '-' := by
  have all : ((b.digits ++ b.digits.map Char.toLower).all fun c => decide (
      b.value c = some (b.digitValue c) ∧ Text.isWordChar c ∧ Token.startsHex c ∧ c ≠ '-')) = true := by
    cases b <;> decide
  exact List.all_iff_forall_prop.mp all c (List.mem_append.mpr digit)

theorem IsDigit.isDigit (digit : Base.decimal.IsDigit c) : c.isDigit := by
  have all : (Base.decimal.digits ++ Base.decimal.digits.map Char.toLower).all Char.isDigit = true := by
    decide
  exact List.all_eq_true.mp all c (List.mem_append.mpr digit)

theorem number_cons (b : Base) (c : Char) (cs : List Char) :
    b.number (c :: cs) = b.digitValue c * b.radix ^ cs.length + b.number cs := by
  unfold number
  rw [List.map_cons, List.reverse_cons, Nat.ofDigits_append, Nat.ofDigits_singleton,
    List.length_reverse, List.length_map, Nat.mul_comm, Nat.add_comm]

end Base

/-! ### Reading -/

section Reading

variable {b : Base} {cs : List Char} (digits : ∀ c ∈ cs, b.IsDigit c)

include digits

/- The induction is on the digits. Once a digit leads out of the range, the whole number is out of it,
for the number that was read so far is multiplied by the powers of the digits behind. -/
theorem readDigits_number {limit acc : Nat} (inRange : acc ≤ limit) :
    readDigits b limit acc cs =
      if acc * b.radix ^ cs.length + b.number cs ≤ limit then
        .ok (acc * b.radix ^ cs.length + b.number cs)
      else .error .overflow := by
  induction cs generalizing acc with
  | nil =>
    have same : acc * b.radix ^ ([] : List Char).length + b.number [] = acc := by
      simp [Base.number]
    rw [same, if_pos inRange, readDigits]
  | cons c cs ih =>
    have value := (digits c (by simp)).found.1
    have whole : acc * b.radix ^ (c :: cs).length + b.number (c :: cs) =
        (acc * b.radix + b.digitValue c) * b.radix ^ cs.length + b.number cs := by
      rw [Base.number_cons, List.length_cons, Nat.pow_succ, Nat.add_mul, Nat.mul_assoc,
        Nat.mul_comm b.radix, Nat.add_assoc]
    rw [whole, readDigits, value]
    dsimp only
    split
    · next inRange => exact ih (fun d hd => digits d (by simp [hd])) inRange
    · next outside =>
      have pos : 0 < b.radix ^ cs.length := Nat.pow_pos (by cases b <;> decide)
      have grows : acc * b.radix + b.digitValue c ≤
          (acc * b.radix + b.digitValue c) * b.radix ^ cs.length := Nat.le_mul_of_pos_right _ pos
      rw [if_neg (by omega)]

theorem readDigits_zero (limit : Nat) :
    readDigits b limit 0 cs =
      if b.number cs ≤ limit then .ok (b.number cs) else .error .overflow := by
  simpa only [Nat.zero_mul, Nat.zero_add] using readDigits_number digits (Nat.zero_le limit)

variable (written : cs ≠ [])

include written

theorem readUnsigned_number :
    readUnsigned b cs =
      if b.number cs ≤ 65535 then .ok (BitVec.ofNat 16 (b.number cs)) else .error .overflow := by
  cases cs with
  | nil => exact absurd rfl written
  | cons c cs =>
    change (readDigits b 65535 0 (c :: cs)).map (BitVec.ofNat 16) = _
    rw [readDigits_zero digits]
    split <;> rfl

theorem readNegative_number :
    readNegative b cs =
      if b.number cs ≤ 32768 then .ok (BitVec.ofInt 16 (-b.number cs)) else .error .overflow := by
  cases cs with
  | nil => exact absurd rfl written
  | cons c cs =>
    change (readDigits b 32768 0 (c :: cs)).map (fun n => BitVec.ofInt 16 (-n)) = _
    rw [readDigits_zero digits]
    split <;> rfl

end Reading

/-! ### Scanning -/

namespace Token

/-- What a literal of the base starts with. -/
def starts : Base → List (List Char)
  | .decimal => [[], ['#']]
  | .hex => [['x'], ['X']]

theorem scan_single {c : Char} {cs : List Char} {t : Except LexError Token}
    (visible : ¬(c = ' ' ∨ c = '\t')) (whole : next c cs = (t, [])) : scan (c :: cs) = [t] := by
  rw [scan_visible visible, whole, scan]

section Literal

variable {b : Base} {cs : List Char} (digits : ∀ c ∈ cs, b.IsDigit c)

include digits

theorem run_digits : run cs = cs := by
  have whole := run_word (fun c hc => (digits c hc).found.2.1) Stops.nil
  rwa [List.append_nil] at whole

theorem afterRun_digits : afterRun cs = [] := by
  have whole := afterRun_word (fun c hc => (digits c hc).found.2.1) Stops.nil
  rwa [List.append_nil] at whole

theorem scan_negative {start : List Char} (begins : start ∈ starts b) :
    scan (start ++ '-' :: cs) = [ofNegative b cs] := by
  have behind := run_digits digits
  have after := afterRun_digits digits
  have sharp : afterSharp ('-' :: cs) = (ofNegative .decimal cs, []) := by
    rw [afterSharp, behind, after]
  have letter (x : Char) : afterX x ('-' :: cs) = (ofNegative .hex cs, []) := by
    rw [afterX, if_pos rfl, behind, after]
  cases b with
  | decimal =>
    rcases List.mem_pair.mp begins with rfl | rfl
    · have minus : next '-' cs = (ofNegative .decimal (run cs), afterRun cs) := rfl
      rw [behind, after] at minus
      exact scan_single (by decide) minus
    · exact scan_single (by decide) sharp
  | hex =>
    rcases List.mem_pair.mp begins with rfl | rfl
    · exact scan_single (by decide) (letter 'x')
    · exact scan_single (by decide) (letter 'X')

variable (written : cs ≠ [])

include written

theorem scan_unsigned {start : List Char} (begins : start ∈ starts b) :
    scan (start ++ cs) = [ofUnsigned b cs] := by
  have behind := run_digits digits
  have after := afterRun_digits digits
  obtain ⟨d, ds, rfl⟩ := List.exists_cons_of_ne_nil written
  obtain ⟨-, -, first, sign⟩ := (digits d (by simp)).found
  have sharp : afterSharp (d :: ds) = (ofUnsigned .decimal (d :: ds), []) := by
    rw [afterSharp.eq_def]
    split
    · next same => exact absurd (List.head_eq_of_cons_eq same) sign
    · rw [behind, after]
  have letter (x : Char) : afterX x (d :: ds) = (ofUnsigned .hex (d :: ds), []) := by
    rw [afterX, if_neg sign, if_pos first, behind, after]
  cases b with
  | decimal =>
    rcases List.mem_pair.mp begins with rfl | rfl
    · have digit := (digits d (by simp)).isDigit
      have visible : ¬(d = ' ' ∨ d = '\t') := by
        rintro (rfl | rfl) <;> cases digit
      have rest : ∀ c ∈ ds, Base.decimal.IsDigit c := fun c hc => digits c (by simp [hc])
      have number : next d ds = (ofUnsigned .decimal (d :: ds), []) := by
        rw [next_digit digit, run_digits rest, afterRun_digits rest]
      exact scan_single visible number
    · exact scan_single (by decide) sharp
  | hex =>
    rcases List.mem_pair.mp begins with rfl | rfl
    · exact scan_single (by decide) (letter 'x')
    · exact scan_single (by decide) (letter 'X')

theorem ofUnsigned_number :
    ofUnsigned b cs =
      if b.number cs ≤ 65535 then .ok (.unsigned (BitVec.ofNat 16 (b.number cs)))
      else .error .unsignedRange := by
  rw [ofUnsigned, readUnsigned_number digits written]
  split <;> rfl

theorem ofNegative_number :
    ofNegative b cs =
      if b.number cs ≤ 32768 then .ok (.signed (BitVec.ofInt 16 (-b.number cs)))
      else .error .signedRange := by
  rw [ofNegative, readNegative_number digits written]
  split <;> rfl

end Literal

/-- A literal stands for its number. A source of one literal, which is any digits of the base behind one
of its starts, is scanned as one token, whose word is the number of the digits, if the number is at
most 65535, and as one error of its range else. With a minus sign before the digits the word is the
negative number, if it is at least -32768, and else there is one error of that range. -/
theorem scan_literal (b : Base) {start cs : List Char} (begins : start ∈ starts b)
    (written : cs ≠ []) (digits : ∀ c ∈ cs, b.IsDigit c) :
    (b.number cs ≤ 65535 →
      ∃ w : Word, w.toNat = b.number cs ∧ scan (start ++ cs) = [.ok (.unsigned w)]) ∧
    (65535 < b.number cs → scan (start ++ cs) = [.error .unsignedRange]) ∧
    (b.number cs ≤ 32768 →
      ∃ w : Word, w.toInt = -b.number cs ∧ scan (start ++ '-' :: cs) = [.ok (.signed w)]) ∧
    (32768 < b.number cs → scan (start ++ '-' :: cs) = [.error .signedRange]) := by
  rw [scan_unsigned digits written begins, scan_negative digits begins,
    ofUnsigned_number digits written, ofNegative_number digits written]
  refine ⟨fun fits => ?_, fun outside => ?_, fun fits => ?_, fun outside => ?_⟩
  · have value : (BitVec.ofNat 16 (b.number cs)).toNat = b.number cs := by
      rw [BitVec.toNat_ofNat, Nat.mod_eq_of_lt (by omega)]
    exact ⟨_, value, by rw [if_pos fits]⟩
  · rw [if_neg (by omega)]
  · have value : (BitVec.ofInt 16 (-b.number cs)).toInt = -b.number cs := by
      rw [BitVec.toInt_ofInt, Int.bmod_eq_of_le (by omega) (by omega)]
    exact ⟨_, value, by rw [if_pos fits]⟩
  · rw [if_neg (by omega)]

/- The least number that a word holds, with a leading zero. -/
theorem scan_literal_least :
    ['X'] ∈ starts .hex ∧ ['0', '8', '0', '0', '0'] ≠ [] ∧
      (∀ c ∈ ['0', '8', '0', '0', '0'], Base.hex.IsDigit c) ∧
      Base.hex.number ['0', '8', '0', '0', '0'] ≤ 32768 ∧
      ∃ w : Word, w.toInt = -32768 ∧ scan "X-08000".toList = [.ok (.signed w)] := by
  have begins : ['X'] ∈ starts .hex := by decide
  have written : ['0', '8', '0', '0', '0'] ≠ [] := by decide
  have digits : ∀ c ∈ ['0', '8', '0', '0', '0'], Base.hex.IsDigit c :=
    List.all_iff_forall_prop.mp (by decide)
  have number : Base.hex.number ['0', '8', '0', '0', '0'] = 32768 := by decide
  obtain ⟨-, -, negative, -⟩ := scan_literal .hex begins written digits
  rw [number] at negative
  exact ⟨begins, written, digits, Nat.le_of_eq number, negative (Nat.le_refl _)⟩

end Token

end Lc3
