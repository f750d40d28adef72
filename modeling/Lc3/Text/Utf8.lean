import Lc3.Word

/-!
# Lenient decoding of UTF-8

Bytes are decoded to characters; each longest piece that starts a character but does not complete
it, and each byte that cannot start one, is shown as the replacement character.
-/

namespace Lc3.Text

/-- The character shown in place of bytes that are no character. -/
def replacement : Char := Char.ofNat 0xFFFD

/-- Whether a byte continues a character. -/
def isContinuation (b : Nat) : Bool := decide (0x80 ≤ b) && decide (b ≤ 0xBF)

/-- How many bytes a character has that starts with a byte; zero if none does. -/
def sequenceLength (b : Nat) : Nat :=
  if b < 0x80 then 1
  else if b < 0xC2 then 0
  else if b < 0xE0 then 2
  else if b < 0xF0 then 3
  else if b < 0xF5 then 4
  else 0

/-- Whether a second byte may follow a first one. Overlong forms, surrogates and numbers beyond
the last character are ruled out here. -/
def secondFits (b c : Nat) : Bool :=
  let low := if b = 0xE0 then 0xA0 else if b = 0xF0 then 0x90 else 0x80
  let high := if b = 0xED then 0x9F else if b = 0xF4 then 0x8F else 0xBF
  decide (low ≤ c) && decide (c ≤ high)

/-- The character that starts with a byte, and how many of the following bytes belong to it. -/
def nextChar (b : Nat) (rest : List Nat) : Char × Nat :=
  match sequenceLength b, rest with
  | 1, _ => (Char.ofNat b, 0)
  | 2, c :: _ =>
    if secondFits b c then (Char.ofNat (b % 32 * 64 + c % 64), 1) else (replacement, 0)
  | 3, c :: rest =>
    if secondFits b c then
      match rest with
      | d :: _ =>
        if isContinuation d then (Char.ofNat ((b % 16 * 64 + c % 64) * 64 + d % 64), 2)
        else (replacement, 1)
      | [] => (replacement, 1)
    else (replacement, 0)
  | 4, c :: rest =>
    if secondFits b c then
      match rest with
      | d :: rest =>
        if isContinuation d then
          match rest with
          | e :: _ =>
            if isContinuation e then
              (Char.ofNat (((b % 8 * 64 + c % 64) * 64 + d % 64) * 64 + e % 64), 3)
            else (replacement, 2)
          | [] => (replacement, 2)
        else (replacement, 1)
      | [] => (replacement, 1)
    else (replacement, 0)
  | _, _ => (replacement, 0)

/-- The characters of bytes. -/
def decodeChars : List Nat → List Char
  | [] => []
  | b :: rest => (nextChar b rest).1 :: decodeChars (rest.drop (nextChar b rest).2)
termination_by bs => bs.length
decreasing_by
  simp only [List.length_drop, List.length_cons]
  omega

/-- The text of bytes. -/
def decodeUtf8 (bs : List Byte) : String := String.ofList (decodeChars (bs.map BitVec.toNat))

/-- The bytes of a text. -/
def encodeUtf8 (s : String) : List Byte :=
  s.toUTF8.toList.map fun b => BitVec.ofNat 8 b.toNat

end Lc3.Text
