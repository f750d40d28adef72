import Lc3.Instruction

/-!
# Encoding of instructions

A word is its opcode, then one register and nine bits, or two registers and six bits. Decoding cuts a
word into these fields and encoding joins them, so each undoes the other: decoding loses nothing of a
word (`Instruction.encode_decode`), and an instruction is read back from its word
(`Instruction.decode_encode`). What is left are the words that no instruction has, told by their
opcode and fixed bits (`Instruction.decode_eq_reserved_iff`).
-/

namespace Lc3

/-! ### Widened fields -/

section Widening

variable {n : Nat} (fits : n ≤ 16)

include fits

theorem setWidth_signedField (f : BitVec n) : (signedField f).setWidth n = f := by
  refine BitVec.eq_of_getLsbD_eq fun i low => ?_
  have inside : i < 16 := by omega
  rw [BitVec.getLsbD_setWidth, signedField, BitVec.getLsbD_signExtend, if_pos low]
  simp only [low, inside, decide_true, Bool.true_and]

theorem setWidth_unsignedField (f : BitVec n) : (unsignedField f).setWidth n = f := by
  rw [unsignedField, BitVec.setWidth_setWidth_of_le f fits, BitVec.setWidth_eq]

/- The sign of a field is spread by shifting the field up and back. -/
theorem signedField_setWidth (w : Word) :
    signedField (w.setWidth n) = (w <<< (16 - n)).sshiftRight (16 - n) := by
  refine BitVec.eq_of_getLsbD_eq fun i inside => ?_
  have outside : ¬16 ≤ i := by omega
  rw [signedField, BitVec.getLsbD_signExtend, BitVec.getLsbD_sshiftRight]
  simp only [inside, outside, decide_true, decide_false, Bool.not_false, Bool.true_and]
  by_cases low : i < n
  · have back : 16 - n + i < 16 := by omega
    rw [if_pos low, if_pos back, BitVec.getLsbD_shiftLeft, BitVec.getLsbD_setWidth]
    simp [low, back]
  · have top : ¬16 - n + i < 16 := by omega
    rw [if_neg low, if_neg top, BitVec.msb_eq_getLsbD_last, BitVec.msb_eq_getLsbD_last,
      BitVec.getLsbD_shiftLeft, BitVec.getLsbD_setWidth]
    rcases Nat.eq_zero_or_pos n with rfl | pos
    · simp
    · have last : 16 - 1 - (16 - n) = n - 1 := by omega
      have above : ¬16 - 1 < 16 - n := by omega
      have below : n - 1 < n := by omega
      simp [last, above, below]

theorem unsignedField_setWidth (w : Word) :
    unsignedField (w.setWidth n) = (w <<< (16 - n)) >>> (16 - n) := by
  refine BitVec.eq_of_getLsbD_eq fun i inside => ?_
  have back : 16 - n + i < 16 ↔ i < n := by omega
  have above : ¬16 - n + i < 16 - n := by omega
  rw [unsignedField, BitVec.getLsbD_setWidth, BitVec.getLsbD_setWidth, BitVec.getLsbD_ushiftRight,
    BitVec.getLsbD_shiftLeft]
  simp [inside, back, above]

end Widening

/-! ### Cutting a word -/

/- The fields of a word that is joined from them. -/
theorem fields_one (op : BitVec 4) (r : BitVec 3) (f : BitVec 9) :
    (op ++ r ++ f : Word).extractLsb' 12 4 = op ∧ (op ++ r ++ f : Word).extractLsb' 9 3 = r ∧
      (op ++ r ++ f : Word).extractLsb' 0 9 = f := by
  refine ⟨?_, ?_, BitVec.extractLsb'_append_eq_right⟩
  · rw [BitVec.extractLsb'_append_eq_of_le (by omega)]
    exact BitVec.extractLsb'_append_eq_left
  · rw [BitVec.extractLsb'_append_eq_of_le (by omega)]
    exact BitVec.extractLsb'_append_eq_right

theorem fields_two (op : BitVec 4) (r s : BitVec 3) (f : BitVec 6) :
    (op ++ r ++ s ++ f : Word).extractLsb' 12 4 = op ∧
      (op ++ r ++ s ++ f : Word).extractLsb' 9 3 = r ∧
      (op ++ r ++ s ++ f : Word).extractLsb' 6 3 = s ∧
      (op ++ r ++ s ++ f : Word).extractLsb' 0 6 = f := by
  refine ⟨?_, ?_, ?_, BitVec.extractLsb'_append_eq_right⟩
  · rw [BitVec.extractLsb'_append_eq_of_le (by omega), BitVec.extractLsb'_append_eq_of_le (by omega)]
    exact BitVec.extractLsb'_append_eq_left
  · rw [BitVec.extractLsb'_append_eq_of_le (by omega), BitVec.extractLsb'_append_eq_of_le (by omega)]
    exact BitVec.extractLsb'_append_eq_right
  · rw [BitVec.extractLsb'_append_eq_of_le (by omega)]
    exact BitVec.extractLsb'_append_eq_right

theorem fields_none (op : BitVec 4) (f : BitVec 12) : (op ++ f : Word).extractLsb' 12 4 = op :=
  BitVec.extractLsb'_append_eq_left

theorem fields_trap (v : BitVec 8) :
    (0xF0#8 ++ v : Word).extractLsb' 12 4 = 0xF#4 ∧ (0xF0#8 ++ v : Word).extractLsb' 8 4 = 0#4 ∧
      (0xF0#8 ++ v : Word).extractLsb' 0 8 = v := by
  refine ⟨?_, ?_, BitVec.extractLsb'_append_eq_right⟩ <;>
  · rw [BitVec.extractLsb'_append_eq_of_le (by omega)]
    rfl

/-! ### Joining a word -/

theorem extractLsb'_one {n k : Nat} {x : BitVec n} {b : Bool} (h : x.getLsbD k = b) :
    x.extractLsb' k 1 = BitVec.ofBool b := by
  refine BitVec.eq_of_getLsbD_eq fun i low => ?_
  obtain rfl : i = 0 := by omega
  rw [BitVec.getLsbD_extractLsb', Nat.add_zero, h, BitVec.getLsbD_ofBool]
  simp

section Joining

variable {w : Word}

/- Neighbouring fields are joined to one. -/
theorem join_fields (k m n : Nat) :
    w.extractLsb' (k + n) m ++ w.extractLsb' k n = w.extractLsb' k (m + n) :=
  BitVec.extractLsb'_append_extractLsb'_eq_extractLsb' rfl

variable {n : Nat} (opcode : (w.extractLsb' 12 4).toNat = n)

include opcode

theorem ofNat_opcode : BitVec.ofNat 4 n = w.extractLsb' 12 4 := by
  rw [← opcode, BitVec.ofNat_toNat, BitVec.setWidth_eq]

theorem join_none : (BitVec.ofNat 4 n ++ w.extractLsb' 0 12 : Word) = w := by
  rw [ofNat_opcode opcode]
  exact (join_fields 0 4 12).trans BitVec.extractLsb'_eq_self

theorem join_one : (BitVec.ofNat 4 n ++ w.extractLsb' 9 3 ++ w.extractLsb' 0 9 : Word) = w := by
  have high : w.extractLsb' 12 4 ++ w.extractLsb' 9 3 = w.extractLsb' 9 7 := join_fields 9 4 3
  rw [ofNat_opcode opcode, high]
  exact (join_fields 0 7 9).trans BitVec.extractLsb'_eq_self

theorem join_trap : (BitVec.ofNat 4 n ++ w.extractLsb' 8 4 ++ w.extractLsb' 0 8 : Word) = w := by
  have high : w.extractLsb' 12 4 ++ w.extractLsb' 8 4 = w.extractLsb' 8 8 := join_fields 8 4 4
  rw [ofNat_opcode opcode, high]
  exact (join_fields 0 8 8).trans BitVec.extractLsb'_eq_self

theorem join_two :
    (BitVec.ofNat 4 n ++ w.extractLsb' 9 3 ++ w.extractLsb' 6 3 ++ w.extractLsb' 0 6 : Word) = w := by
  have high : w.extractLsb' 12 4 ++ w.extractLsb' 9 3 = w.extractLsb' 9 7 := join_fields 9 4 3
  have middle : w.extractLsb' 9 7 ++ w.extractLsb' 6 3 = w.extractLsb' 6 10 := join_fields 6 7 3
  rw [ofNat_opcode opcode, high, middle]
  exact (join_fields 0 10 6).trans BitVec.extractLsb'_eq_self

end Joining

namespace Instruction

/-! ### Operands -/

theorem decodeOperand_encodeOperand (p : BitVec 10) (x : Operand 5) :
    decodeOperand (p ++ encodeOperand x : Word) = some x := by
  have low {k n : Nat} (inside : k + n ≤ 6) :
      (p ++ encodeOperand x : Word).extractLsb' k n = (encodeOperand x).extractLsb' k n :=
    BitVec.extractLsb'_append_eq_of_add_le inside
  have mode : (p ++ encodeOperand x : Word).getLsbD 5 = (encodeOperand x).getLsbD 5 := by
    rw [BitVec.getLsbD_append]
    rfl
  unfold decodeOperand
  rw [mode, low (by omega), low (by omega), low (by omega)]
  cases x with
  | imm v =>
    have bits : ∀ v : BitVec 5, (1#1 ++ v).getLsbD 5 = true ∧ (1#1 ++ v).extractLsb' 0 5 = v := by
      decide
    simp only [encodeOperand, bits, if_true]
  | reg r =>
    have bits : ∀ r : Reg, (0#3 ++ r).getLsbD 5 = false ∧ (0#3 ++ r).extractLsb' 3 2 = 0 ∧
        (0#3 ++ r).extractLsb' 0 3 = r := by decide
    simp only [encodeOperand, bits, if_true, if_false, Bool.false_eq_true]

theorem decodeTarget_encodeTarget (p : BitVec 4) (x : Operand 11) :
    decodeTarget (p ++ encodeTarget x : Word) = some x := by
  have low {k n : Nat} (inside : k + n ≤ 12) :
      (p ++ encodeTarget x : Word).extractLsb' k n = (encodeTarget x).extractLsb' k n :=
    BitVec.extractLsb'_append_eq_of_add_le inside
  have mode : (p ++ encodeTarget x : Word).getLsbD 11 = (encodeTarget x).getLsbD 11 := by
    rw [BitVec.getLsbD_append]
    rfl
  unfold decodeTarget
  rw [mode, low (by omega), low (by omega), low (by omega), low (by omega)]
  cases x with
  | imm v =>
    have set : (1#1 ++ v).getLsbD 11 = true := by
      rw [BitVec.getLsbD_append]
      rfl
    have value : (1#1 ++ v).extractLsb' 0 11 = v := BitVec.extractLsb'_append_eq_right
    simp only [encodeTarget, set, if_true, value]
  | reg r =>
    have bits : ∀ r : Reg, (0#3 ++ r ++ 0#6).getLsbD 11 = false ∧
        (0#3 ++ r ++ 0#6).extractLsb' 9 2 = 0 ∧ (0#3 ++ r ++ 0#6).extractLsb' 0 6 = 0 ∧
        (0#3 ++ r ++ 0#6).extractLsb' 6 3 = r := by decide
    simp only [encodeTarget, bits, and_self, if_true, if_false, Bool.false_eq_true]

theorem encodeOperand_of_decodeOperand {w : Word} {x : Operand 5} (h : decodeOperand w = some x) :
    encodeOperand x = w.extractLsb' 0 6 := by
  unfold decodeOperand at h
  split at h
  · next set =>
    cases h
    rw [encodeOperand, ← join_fields 0 1 5, extractLsb'_one set]
    rfl
  · next clear =>
    split at h
    · next fixed =>
      cases h
      have mode : w.extractLsb' 5 1 = 0#1 := extractLsb'_one (eq_false_of_ne_true clear)
      rw [encodeOperand, ← join_fields 0 3 3, ← join_fields 3 1 2, mode, fixed]
      rfl
    · cases h

theorem encodeTarget_of_decodeTarget {w : Word} {x : Operand 11} (h : decodeTarget w = some x) :
    encodeTarget x = w.extractLsb' 0 12 := by
  unfold decodeTarget at h
  split at h
  · next set =>
    cases h
    rw [encodeTarget, ← join_fields 0 1 11, extractLsb'_one set]
    rfl
  · next clear =>
    split at h
    · next fixed =>
      cases h
      have mode : w.extractLsb' 11 1 = 0#1 := extractLsb'_one (eq_false_of_ne_true clear)
      rw [encodeTarget, ← join_fields 0 6 6, ← join_fields 6 3 3, ← join_fields 9 1 2, mode, fixed.1,
        fixed.2]
      rfl
    · cases h

theorem decodeOperand_eq_none_iff {w : Word} :
    decodeOperand w = none ↔ w.getLsbD 5 = false ∧ w.extractLsb 4 3 ≠ 0 := by
  unfold decodeOperand
  cases w.getLsbD 5 <;> simp [BitVec.extractLsb]

theorem decodeTarget_eq_none_iff {w : Word} :
    decodeTarget w = none ↔
      w.getLsbD 11 = false ∧ (w.extractLsb 10 9 ≠ 0 ∨ w.extractLsb 5 0 ≠ 0) := by
  unfold decodeTarget
  cases w.getLsbD 11 <;> simp [BitVec.extractLsb, ← Decidable.not_and_iff_not_or_not]

/-! ### Words and instructions -/

theorem encode_elim {α : Type} {w : Word} {x : Option α} {f : α → Instruction}
    (h : ∀ a, x = some a → encode (f a) = w) : encode (x.elim (.reserved w) f) = w := by
  cases x with
  | none => rfl
  | some a => exact h a rfl

theorem encode_ite {w : Word} {c : Prop} [Decidable c] {i : Instruction} (h : c → encode i = w) :
    encode (if c then i else .reserved w) = w := by
  split
  · next fixed => exact h fixed
  · rfl

theorem encode_decode (w : Word) : encode (decode w) = w := by
  unfold decode
  dsimp only
  split
  case h_1 h => exact join_one h
  case h_2 h =>
    refine encode_elim fun x operand => ?_
    rw [encode, encodeOperand_of_decodeOperand operand, join_two h]
  case h_3 h => exact join_one h
  case h_4 h => exact join_one h
  case h_5 h =>
    refine encode_elim fun x target => ?_
    rw [encode, encodeTarget_of_decodeTarget target, join_none h]
  case h_6 h =>
    refine encode_elim fun x operand => ?_
    rw [encode, encodeOperand_of_decodeOperand operand, join_two h]
  case h_7 h => exact join_two h
  case h_8 h => exact join_two h
  case h_9 h =>
    refine encode_ite fun fixed => ?_
    have whole := join_none h
    rw [fixed] at whole
    exact whole
  case h_10 h =>
    refine encode_ite fun fixed => ?_
    have whole := join_two h
    rw [fixed] at whole
    exact whole
  case h_11 h => exact join_one h
  case h_12 h => exact join_one h
  case h_13 h =>
    refine encode_ite fun fixed => ?_
    have whole := join_two h
    rw [fixed.1, fixed.2] at whole
    exact whole
  case h_14 h => exact join_one h
  case h_15 h =>
    refine encode_ite fun fixed => ?_
    have whole := join_trap h
    rw [fixed] at whole
    exact whole
  case h_16 => rfl

theorem decode_encode {i : Instruction} (legal : ∀ w, i ≠ .reserved w) : decode (encode i) = i := by
  cases i with
  | br codes off => simp [encode, decode, fields_one]
  | add d s x => simp [encode, decode, fields_two, decodeOperand_encodeOperand]
  | ld d off => simp [encode, decode, fields_one]
  | st s off => simp [encode, decode, fields_one]
  | jsr x => simp [encode, decode, fields_none, decodeTarget_encodeTarget]
  | and d s x => simp [encode, decode, fields_two, decodeOperand_encodeOperand]
  | ldr d b off => simp [encode, decode, fields_two]
  | str s b off => simp [encode, decode, fields_two]
  | rti => rfl
  | not d s => simp [encode, decode, fields_two]
  | ldi d off => simp [encode, decode, fields_one]
  | sti s off => simp [encode, decode, fields_one]
  | jmp b =>
    have all : ∀ b : Reg, decode (encode (.jmp b)) = .jmp b := by decide
    exact all b
  | lea d off => simp [encode, decode, fields_one]
  | trap v => simp [encode, decode, fields_trap]
  | reserved w => exact absurd rfl (legal w)

/-! ### Reserved words -/

/-- The words that the instruction set leaves free. -/
inductive IsReserved (w : Word) : Prop where
  /-- No instruction has the opcode. -/
  | opcode (free : w.extractLsb 15 12 = 0b1101)
  /-- An addition or a conjunction of registers has two bits that are clear. -/
  | operand (op : w.extractLsb 15 12 = 0b0001 ∨ w.extractLsb 15 12 = 0b0101)
      (register : w.getLsbD 5 = false) (wrong : w.extractLsb 4 3 ≠ 0)
  /-- A call through a register has no bits but those of the register. -/
  | target (op : w.extractLsb 15 12 = 0b0100) (register : w.getLsbD 11 = false)
      (wrong : w.extractLsb 10 9 ≠ 0 ∨ w.extractLsb 5 0 ≠ 0)
  | rti (op : w.extractLsb 15 12 = 0b1000) (wrong : w.extractLsb 11 0 ≠ 0)
  | not (op : w.extractLsb 15 12 = 0b1001) (wrong : w.extractLsb 5 0 ≠ 0b111111)
  | jmp (op : w.extractLsb 15 12 = 0b1100)
      (wrong : w.extractLsb 11 9 ≠ 0 ∨ w.extractLsb 5 0 ≠ 0)
  | trap (op : w.extractLsb 15 12 = 0b1111) (wrong : w.extractLsb 11 8 ≠ 0)

theorem eq_none_of_elim {α : Type} {w : Word} {x : Option α} {f : α → Instruction}
    (h : x.elim (.reserved w) f = .reserved w) (legal : ∀ a, (f a).isLegal) : x = none := by
  cases x with
  | none => rfl
  | some a =>
    have illegal := congrArg isLegal h
    rw [Option.elim_some, legal a] at illegal
    cases illegal

theorem not_of_ite {w : Word} {c : Prop} [Decidable c] {i : Instruction}
    (h : (if c then i else .reserved w) = .reserved w) (legal : i.isLegal) : ¬c := by
  intro fixed
  have illegal := congrArg isLegal h
  rw [if_pos fixed, legal] at illegal
  cases illegal

theorem isReserved_of_decode {w : Word} (h : decode w = .reserved w) : IsReserved w := by
  unfold decode at h
  dsimp only at h
  split at h
  case h_2 op =>
    obtain ⟨register, wrong⟩ := decodeOperand_eq_none_iff.mp (eq_none_of_elim h fun _ => rfl)
    exact .operand (Or.inl (BitVec.eq_of_toNat_eq op)) register wrong
  case h_5 op =>
    obtain ⟨register, wrong⟩ := decodeTarget_eq_none_iff.mp (eq_none_of_elim h fun _ => rfl)
    exact .target (BitVec.eq_of_toNat_eq op) register wrong
  case h_6 op =>
    obtain ⟨register, wrong⟩ := decodeOperand_eq_none_iff.mp (eq_none_of_elim h fun _ => rfl)
    exact .operand (Or.inr (BitVec.eq_of_toNat_eq op)) register wrong
  case h_9 op => exact .rti (BitVec.eq_of_toNat_eq op) (not_of_ite h rfl)
  case h_10 op => exact .not (BitVec.eq_of_toNat_eq op) (not_of_ite h rfl)
  case h_13 op =>
    exact .jmp (BitVec.eq_of_toNat_eq op) (Decidable.not_and_iff_not_or_not.mp (not_of_ite h rfl))
  case h_15 op => exact .trap (BitVec.eq_of_toNat_eq op) (not_of_ite h rfl)
  case h_16 =>
    refine .opcode (BitVec.eq_of_toNat_eq ?_)
    have bound := (w.extractLsb' 12 4).isLt
    change (w.extractLsb' 12 4).toNat = 13
    simp only [imp_false] at *
    omega
  all_goals cases h

theorem decode_of_isReserved {w : Word} (h : IsReserved w) : decode w = .reserved w := by
  cases h with
  | opcode free =>
    have op : (w.extractLsb' 12 4).toNat = 0xD := congrArg BitVec.toNat free
    simp only [decode, op]
  | operand op register wrong =>
    have none := decodeOperand_eq_none_iff.mpr ⟨register, wrong⟩
    rcases op with op | op
    · have op : (w.extractLsb' 12 4).toNat = 0x1 := congrArg BitVec.toNat op
      simp only [decode, op, none, Option.elim_none]
    · have op : (w.extractLsb' 12 4).toNat = 0x5 := congrArg BitVec.toNat op
      simp only [decode, op, none, Option.elim_none]
  | target op register wrong =>
    have op : (w.extractLsb' 12 4).toNat = 0x4 := congrArg BitVec.toNat op
    have none := decodeTarget_eq_none_iff.mpr ⟨register, wrong⟩
    simp only [decode, op, none, Option.elim_none]
  | rti op wrong =>
    have op : (w.extractLsb' 12 4).toNat = 0x8 := congrArg BitVec.toNat op
    simp only [decode, op]
    exact if_neg wrong
  | not op wrong =>
    have op : (w.extractLsb' 12 4).toNat = 0x9 := congrArg BitVec.toNat op
    simp only [decode, op]
    exact if_neg wrong
  | jmp op wrong =>
    have op : (w.extractLsb' 12 4).toNat = 0xC := congrArg BitVec.toNat op
    simp only [decode, op]
    exact if_neg (Decidable.not_and_iff_not_or_not.mpr wrong)
  | trap op wrong =>
    have op : (w.extractLsb' 12 4).toNat = 0xF := congrArg BitVec.toNat op
    simp only [decode, op]
    exact if_neg wrong

theorem decode_eq_reserved_iff (w : Word) : decode w = .reserved w ↔ IsReserved w :=
  ⟨isReserved_of_decode, decode_of_isReserved⟩

/-! ### Both ways -/

theorem isLegal_of_ne {i : Instruction} (legal : ∀ w, i ≠ .reserved w) : i.isLegal := by
  cases i with
  | reserved w => exact absurd rfl (legal w)
  | _ => rfl

/-- Words and instructions are the same thing in two forms. Every word is the word of the instruction
that it is decoded to. Every instruction but a reserved word is legal, is read back from its word, and
shares its word with no other. A reserved word is read back as one if and only if its opcode is free
or its fixed bits are wrong. The operands of an instruction are all the fields that can be cut out of
words: a cut field, widened again, is the word shifted up and back by the bits that are cut off, and a
widened field is cut to itself. -/
theorem encoding_exact :
    (∀ w, encode (decode w) = w) ∧
    (∀ i, (∀ w, i ≠ .reserved w) → decode (encode i) = i ∧ i.isLegal ∧
      ∀ j, (∀ w, j ≠ .reserved w) → encode j = encode i → j = i) ∧
    (∀ w, decode (encode (.reserved w)) = .reserved w ↔ IsReserved w) ∧
    ∀ n, n ≤ 16 →
      (∀ w, ∃ f, Word.field n w = .ok f ∧
        signedField f = (w <<< (16 - n)).sshiftRight (16 - n) ∧
        unsignedField f = (w <<< (16 - n)) >>> (16 - n)) ∧
      ∀ f, Word.field n (signedField f) = .ok f ∧ Word.field n (unsignedField f) = .ok f := by
  refine ⟨encode_decode, ?instructions, decode_eq_reserved_iff, ?fields⟩
  case instructions =>
    intro i legal
    refine ⟨decode_encode legal, isLegal_of_ne legal, fun j legal' same => ?_⟩
    rw [← decode_encode legal', same, decode_encode legal]
  case fields =>
    intro n fits
    have cut (w : Word) : Word.field n w = .ok (w.setWidth n) := if_pos fits
    refine ⟨fun w => ⟨w.setWidth n, cut w, signedField_setWidth fits w,
      unsignedField_setWidth fits w⟩, fun f => ⟨?_, ?_⟩⟩
    · rw [cut, setWidth_signedField fits]
    · rw [cut, setWidth_unsignedField fits]

/- A call to the word before, with the offset -2 in eleven bits. -/
theorem encoding_exact_call :
    (∀ w, jsr (.imm 0x7FE) ≠ .reserved w) ∧ decode (encode (jsr (.imm 0x7FE))) = jsr (.imm 0x7FE) ∧
      encode (jsr (.imm 0x7FE)) = 0x4FFE ∧
      11 ≤ 16 ∧ Word.field 11 (signedField (0x7FE : BitVec 11)) = .ok 0x7FE :=
  have legal (w : Word) : jsr (.imm 0x7FE) ≠ .reserved w := Instruction.noConfusion
  ⟨legal, (encoding_exact.2.1 _ legal).1, rfl, by decide,
    ((encoding_exact.2.2.2 11 (by decide)).2 0x7FE).1⟩

end Instruction

end Lc3
