import Lc3.Image.Numeral
import Lc3.Text.WordChar

/-!
# Tokens of a text image

A source text is cut into tokens by longest match. A number takes every word character after its
start, so that a misspelt number is one error instead of several tokens. A character that starts
no token is an error of its own, and the scan goes on behind it. Blanks separate tokens.
-/

namespace Lc3

/-- Why a piece of text is no token. -/
inductive LexError where
  /-- An unsigned number exceeds 65535. -/
  | unsignedRange
  /-- A negative number lies below -32768. -/
  | signedRange
  | badHex
  | emptyHex
  | badDecimal
  | emptyDecimal
  /-- A character starts no token. -/
  | badSymbol
deriving DecidableEq

/-- What is reported of a piece of text that is no token. -/
def LexError.message : LexError → String
  | .unsignedRange => "numeric token does not fit 16-bit unsigned integer"
  | .signedRange => "numeric token does not fit 16-bit signed integer"
  | .badHex => "invalid hex literal"
  | .emptyHex => "hex literal has no digits"
  | .badDecimal => "invalid decimal literal"
  | .emptyDecimal => "decimal literal has no digits"
  | .badSymbol => "unrecognized symbol"

/-- The error of a faulty numeral, given what an overflow means for it. -/
def LexError.ofNumeral (b : Base) (range : LexError) : NumeralError → LexError
  | .empty => match b with
    | .decimal => .emptyDecimal
    | .hex => .emptyHex
  | .badDigit => match b with
    | .decimal => .badDecimal
    | .hex => .badHex
  | .overflow => range

/-- A unit of a source text. -/
inductive Token where
  | unsigned (value : Word)
  | signed (value : Word)
  | ident (name : String)
  /-- A directive, in lower case and without its period. -/
  | directive (name : String)
  | colon
  | comment (text : String)
  | newline
deriving DecidableEq

namespace Token

/-- Whether a token is a comment. -/
def isComment : Token → Bool
  | comment _ => true
  | _ => false

/-! ### Runs of word characters -/

/-- The word characters that a text starts with. -/
def run (cs : List Char) : List Char := cs.takeWhile Text.isWordChar

/-- What follows the word characters that a text starts with. -/
def afterRun (cs : List Char) : List Char := cs.dropWhile Text.isWordChar

theorem run_append_afterRun (cs : List Char) : run cs ++ afterRun cs = cs :=
  List.takeWhile_append_dropWhile

theorem afterRun_length_le (cs : List Char) : (afterRun cs).length ≤ cs.length :=
  (List.dropWhile_suffix _).length_le

/-- The token of an unsigned numeral. -/
def ofUnsigned (b : Base) (cs : List Char) : Except LexError Token :=
  ((readUnsigned b cs).map unsigned).mapError (LexError.ofNumeral b .unsignedRange)

/-- The token of the digits after a minus sign. -/
def ofNegative (b : Base) (cs : List Char) : Except LexError Token :=
  ((readNegative b cs).map signed).mapError (LexError.ofNumeral b .signedRange)

/-! ### Single tokens -/

/-- Whether a character after an x makes the two the start of a hexadecimal number. -/
def startsHex (c : Char) : Bool := Text.isDecimalDigit c || (hexValue c).isSome

/-- The token after a number sign, and the rest of the text. -/
def afterSharp : List Char → Except LexError Token × List Char
  | '-' :: cs => (ofNegative .decimal (run cs), afterRun cs)
  | cs => (ofUnsigned .decimal (run cs), afterRun cs)

/-- The token that starts with the letter x, and the rest of the text: a hexadecimal number if a
minus sign or a digit follows, a name otherwise. -/
def afterX (x : Char) : List Char → Except LexError Token × List Char
  | [] => (.ok (ident x.toString), [])
  | c :: cs =>
    if c = '-' then (ofNegative .hex (run cs), afterRun cs)
    else if startsHex c then (ofUnsigned .hex (run (c :: cs)), afterRun (c :: cs))
    else (.ok (ident (String.ofList (x :: run (c :: cs)))), afterRun (c :: cs))

/-- The token after a period, and the rest of the text. -/
def afterPeriod : List Char → Except LexError Token × List Char
  | [] => (.error .badSymbol, [])
  | c :: cs =>
    if Text.isNameStart c then
      (.ok (directive (String.ofList ((run (c :: cs)).map Char.toLower))), afterRun (c :: cs))
    else (.error .badSymbol, c :: cs)

/-- The token after a carriage return, and the rest of the text. -/
def afterReturn : List Char → Except LexError Token × List Char
  | '\n' :: cs => (.ok newline, cs)
  | cs => (.error .badSymbol, cs)

/-- The token that starts with a character, and the rest of the text. -/
def next (c : Char) (cs : List Char) : Except LexError Token × List Char :=
  if c = ':' then (.ok colon, cs)
  else if c = '\n' then (.ok newline, cs)
  else if c = '\r' then afterReturn cs
  else if c = ';' then
    (.ok (comment (String.ofList (c :: cs.takeWhile (· != '\n')))), cs.dropWhile (· != '\n'))
  else if c = '.' then afterPeriod cs
  else if c = '#' then afterSharp cs
  else if c = '-' then (ofNegative .decimal (run cs), afterRun cs)
  else if c = 'x' ∨ c = 'X' then afterX c cs
  else if Text.isDecimalDigit c then (ofUnsigned .decimal (c :: run cs), afterRun cs)
  else if Text.isNameStart c then (.ok (ident (String.ofList (c :: run cs))), afterRun cs)
  else (.error .badSymbol, cs)

theorem afterSharp_length_le (cs : List Char) : (afterSharp cs).2.length ≤ cs.length := by
  unfold afterSharp
  split
  · have h := afterRun_length_le ‹_›
    simp only [List.length_cons]
    omega
  · exact afterRun_length_le _

theorem afterX_length_le (x : Char) (cs : List Char) :
    (afterX x cs).2.length ≤ cs.length := by
  unfold afterX
  split
  · exact Nat.le_refl _
  · rename_i c cs
    have h := afterRun_length_le cs
    have h' := afterRun_length_le (c :: cs)
    simp only [List.length_cons] at h' ⊢
    split
    · exact Nat.le_succ_of_le h
    · split <;> exact h'

theorem afterPeriod_length_le (cs : List Char) : (afterPeriod cs).2.length ≤ cs.length := by
  unfold afterPeriod
  split
  · exact Nat.le_refl _
  · split
    · exact afterRun_length_le _
    · exact Nat.le_refl _

theorem afterReturn_length_le (cs : List Char) : (afterReturn cs).2.length ≤ cs.length := by
  unfold afterReturn
  split
  · exact Nat.le_succ _
  · exact Nat.le_refl _

theorem rest_le_ite {p : Prop} [Decidable p] {x y : Except LexError Token × List Char} {n : Nat}
    (hx : x.2.length ≤ n) (hy : y.2.length ≤ n) : (if p then x else y).2.length ≤ n := by
  split
  · exact hx
  · exact hy

/-- A token never gives characters back. -/
theorem next_length_le (c : Char) (cs : List Char) : (next c cs).2.length ≤ cs.length := by
  have run_le := afterRun_length_le cs
  have comment_le : (cs.dropWhile (· != '\n')).length ≤ cs.length :=
    (List.dropWhile_suffix _).length_le
  unfold next
  refine rest_le_ite (Nat.le_refl _) (rest_le_ite (Nat.le_refl _) ?_)
  refine rest_le_ite (afterReturn_length_le cs) (rest_le_ite comment_le ?_)
  refine rest_le_ite (afterPeriod_length_le cs) (rest_le_ite (afterSharp_length_le cs) ?_)
  refine rest_le_ite run_le (rest_le_ite (afterX_length_le c cs) ?_)
  exact rest_le_ite run_le (rest_le_ite run_le (Nat.le_refl _))

/-! ### Whole texts -/

/-- The tokens of a text and the errors between them, in order. -/
def scan : List Char → List (Except LexError Token)
  | [] => []
  | c :: cs =>
    if c = ' ' ∨ c = '\t' then scan cs
    else (next c cs).1 :: scan (next c cs).2
termination_by cs => cs.length
decreasing_by
  · exact Nat.lt_succ_self _
  · exact Nat.lt_succ_of_le (next_length_le c cs)

end Token

end Lc3
