import Lc3.Text.Utf8
import Mathlib.Algebra.Group.Nat.Defs
import Mathlib.Tactic.SplitIfs

/-!
# The order of texts and of their bytes

Texts are ordered by their characters, and their UTF-8 bytes stand in the same order: the first byte
grows with the length of a character, and characters of one length are told apart by the first byte
in which they differ, as by the first digit of two numbers of equal length.
-/

namespace Lc3.Text

/-- The bytes of a character. -/
def charBytes (c : Char) : List Byte :=
  (String.utf8EncodeChar c).map fun b => BitVec.ofNat 8 b.toNat

theorem toList_loop (bytes : ByteArray) (i : Nat) (seen : List UInt8) :
    ByteArray.toList.loop bytes i seen = seen.reverse ++ bytes.data.toList.drop i := by
  fun_induction ByteArray.toList.loop bytes i seen with
  | case1 i seen inside ih =>
    have inside' : i < bytes.data.toList.length := by simpa using inside
    rw [ih, List.drop_eq_getElem_cons inside']
    simp [ByteArray.get!, inside]
  | case2 i seen outside =>
    rw [List.drop_eq_nil_of_le (by simpa using Nat.le_of_not_lt outside), List.append_nil]

theorem encodeUtf8_eq (s : String) : encodeUtf8 s = s.toList.flatMap charBytes := by
  have bytes : s.toUTF8 = s.toList.utf8Encode := by
    rw [String.toUTF8_eq_toByteArray, String.utf8Encode_toList]
  rw [encodeUtf8, bytes, ByteArray.toList, toList_loop, List.utf8Encode, List.toList_data_toByteArray]
  simp only [List.reverse_nil, List.nil_append, List.drop_zero, List.map_flatMap]
  rfl

theorem toNat_lt (c : Char) : c.toNat < 0x110000 := by
  rcases c.valid with low | high
  · exact Nat.lt_trans low (by decide)
  · exact high.2

/-! ### Places of a number -/

/-- How many bytes follow the first one of a character. -/
def following (v : Nat) : Nat :=
  if v ≤ 0x7F then 0 else if v ≤ 0x7FF then 1 else if v ≤ 0xFFFF then 2 else 3

/-- What the first byte says about the number of bytes that follow. -/
def leadMark : Nat → Nat
  | 0 => 0
  | 1 => 0xC0
  | 2 => 0xE0
  | _ => 0xF0

/-- The last `k` bytes of a character, six bits of its number each. -/
def continuation (v : Nat) : Nat → List Byte
  | 0 => []
  | k + 1 => BitVec.ofNat 8 (0x80 + v / 64 ^ k % 64) :: continuation v k

/-- The first byte of a character, with what is left of its number in front of the other bytes. -/
def lead (v : Nat) : Nat := leadMark (following v) + v / 64 ^ following v

theorem charBytes_eq (c : Char) :
    charBytes c = BitVec.ofNat 8 (lead c.toNat) :: continuation c.toNat (following c.toNat) := by
  have byte (n : Nat) : BitVec.ofNat 8 (UInt8.ofNat n).toNat = BitVec.ofNat 8 n := by
    rw [UInt8.toNat_ofNat', ← BitVec.toNat_inj]
    simp
  have highest := toNat_lt c
  have number : c.val.toNat = c.toNat := rfl
  simp only [charBytes, String.utf8EncodeChar, lead, following, number]
  generalize c.toNat = v at *
  split_ifs <;>
    simp only [List.map_cons, List.map_nil, byte, leadMark, continuation, Nat.reducePow, Nat.div_one]
  · simp
  · rw [Nat.mod_eq_of_lt (a := v / 64) (by omega)]
    simp [Nat.add_comm]
  · rw [Nat.mod_eq_of_lt (a := v / 4096) (by omega)]
    simp [Nat.add_comm]
  · rw [Nat.mod_eq_of_lt (a := v / 262144) (by omega)]
    simp [Nat.add_comm]

theorem cons_lt_cons {m n : Nat} (small : m < 256) (small' : n < 256) {bs cs : List Byte}
    (h : m < n ∨ m = n ∧ bs < cs) : BitVec.ofNat 8 m :: bs < BitVec.ofNat 8 n :: cs := by
  rw [List.cons_lt_cons_iff]
  rcases h with less | ⟨rfl, behind⟩
  · left
    rw [BitVec.lt_def, BitVec.toNat_ofNat, BitVec.toNat_ofNat]
    omega
  · exact .inr ⟨rfl, behind⟩

/- Bytes of one number of places are told apart at the first place where they differ. -/
theorem continuation_lt {v w k : Nat} (h : v % 64 ^ k < w % 64 ^ k) (bs cs : List Byte) :
    continuation v k ++ bs < continuation w k ++ cs := by
  induction k with
  | zero => simp [Nat.mod_one] at h
  | succ k ih =>
    refine cons_lt_cons (by omega) (by omega) ?_
    rw [Nat.mod_pow_succ, Nat.mod_pow_succ] at h
    have low := Nat.mod_lt v (Nat.pow_pos (n := k) (show 0 < 64 by decide))
    have low' := Nat.mod_lt w (Nat.pow_pos (n := k) (show 0 < 64 by decide))
    rcases Nat.lt_trichotomy (v / 64 ^ k % 64) (w / 64 ^ k % 64) with less | same | more
    · exact .inl (by omega)
    · rw [same] at h ⊢
      exact .inr ⟨rfl, ih (Nat.lt_of_add_lt_add_right h)⟩
    · have above := Nat.mul_le_mul_left (64 ^ k) more
      rw [Nat.mul_succ] at above
      omega

theorem lead_lt {v : Nat} (h : v < 0x110000) : lead v < 256 := by
  unfold lead following
  split_ifs <;> simp only [leadMark, Nat.reducePow] <;> omega

theorem charBytes_lt {c d : Char} (h : c < d) (bs cs : List Byte) :
    charBytes c ++ bs < charBytes d ++ cs := by
  have below : c.toNat < d.toNat := h
  rw [charBytes_eq, charBytes_eq]
  refine cons_lt_cons (lead_lt (toNat_lt c)) (lead_lt (toNat_lt d)) ?_
  have highest := toNat_lt d
  generalize c.toNat = v at *
  generalize d.toNat = w at *
  by_cases same : following v = following w
  · unfold lead
    rw [same]
    rcases Nat.lt_or_eq_of_le (Nat.div_le_div_right (c := 64 ^ following w) (Nat.le_of_lt below)) with
      less | equal
    · exact .inl (Nat.add_lt_add_left less _)
    · -- the first bytes agree, so the rest of the numbers decides
      have whole := Nat.div_add_mod v (64 ^ following w)
      have whole' := Nat.div_add_mod w (64 ^ following w)
      rw [equal] at whole ⊢
      exact .inr ⟨rfl, continuation_lt (by omega) _ _⟩
  · left
    unfold lead following at *
    split_ifs at * <;> simp only [leadMark, Nat.reducePow] <;> omega

theorem flatMap_charBytes_lt {s t : List Char} (h : s < t) :
    s.flatMap charBytes < t.flatMap charBytes := by
  induction s generalizing t with
  | nil =>
    cases t with
    | nil => cases h
    | cons d t =>
      rw [List.flatMap_cons, charBytes_eq]
      exact List.nil_lt_cons _ _
  | cons c s ih =>
    cases t with
    | nil => cases h
    | cons d t =>
      rw [List.flatMap_cons, List.flatMap_cons]
      rcases List.cons_lt_cons_iff.mp h with less | ⟨rfl, behind⟩
      · exact charBytes_lt less _ _
      · exact List.append_left_lt (ih behind)

theorem encodeUtf8_lt_iff {s t : String} : encodeUtf8 s < encodeUtf8 t ↔ s < t := by
  have grows {s t : String} (h : s < t) : encodeUtf8 s < encodeUtf8 t := by
    rw [encodeUtf8_eq, encodeUtf8_eq]
    exact flatMap_charBytes_lt h
  refine ⟨fun less => ?_, grows⟩
  rcases Std.lt_trichotomy s t with below | rfl | above
  · exact below
  · exact absurd less (List.lt_irrefl _)
  · exact absurd less (List.lt_asymm (grows above))

/-- The order of texts is that of their UTF-8 bytes. -/
theorem encodeUtf8_le_iff {s t : String} : encodeUtf8 s ≤ encodeUtf8 t ↔ s ≤ t := by
  rw [← List.not_lt, encodeUtf8_lt_iff, String.not_lt]

end Lc3.Text
