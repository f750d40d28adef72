import Lc3.Proofs.LineFeeds
import Lc3.Proofs.Numerals
import Mathlib.Data.List.Forall2

/-!
# Reading back written tokens

What the scanner makes of a piece of text, whatever follows it (`Reads`). A word ends before a blank,
a colon or a line break (`Stops`), which are all that follows one in a printed text. Pieces are put
together by `Reads.append`, and lines by `splitLines_scan`.
-/

namespace Lc3.Token

/-! ### Plain characters -/

theorem isUpper_iff {c : Char} : c.isUpper ↔ 65 ≤ c.toNat ∧ c.toNat ≤ 90 := by
  show decide (c.val ≥ 'A'.val ∧ c.val ≤ 'Z'.val) = true ↔ _
  simp [UInt32.le_iff_toNat_le, ← Char.toNat_val]

theorem isLower_iff {c : Char} : c.isLower ↔ 97 ≤ c.toNat ∧ c.toNat ≤ 122 := by
  show (decide (c.val ≥ 'a'.val) && decide (c.val ≤ 'z'.val)) = true ↔ _
  simp [UInt32.le_iff_toNat_le, ← Char.toNat_val]

theorem isDigit_iff {c : Char} : c.isDigit ↔ 48 ≤ c.toNat ∧ c.toNat ≤ 57 := Char.isDigit_iff_toNat

theorem isNameStart_iff {c : Char} : Text.isNameStart c ↔ c.isUpper ∨ c.isLower ∨ c.toNat = 95 := by
  have line : c = '_' ↔ c.toNat = 95 := Char.toNat_inj.symm
  show ((c.isUpper || c.isLower) || c == '_') = true ↔ _
  simp [line, or_assoc]

/-- A letter or digit of the basic alphabet, or the underscore. -/
def isPlain (c : Char) : Bool := Text.isNameStart c || c.isDigit

theorem toNat_lt_of_isPlain {c : Char} (plain : isPlain c) : c.toNat < 128 := by
  rw [isPlain, Bool.or_eq_true, isNameStart_iff, isUpper_iff, isLower_iff, isDigit_iff] at plain
  omega

theorem isWordChar_of_isPlain {c : Char} (plain : isPlain c) : Text.isWordChar c := by
  rw [Text.isWordChar_ascii (toNat_lt_of_isPlain plain)]
  simp only [isPlain, Text.isNameStart, Bool.or_eq_true] at plain
  rcases plain with (letter | line) | digit
  · simp [Char.isAlphanum, letter]
  · simp [line]
  · simp [Char.isAlphanum, digit]

theorem isDecimalDigit_of_isPlain {c : Char} (plain : isPlain c) :
    Text.isDecimalDigit c = c.isDigit := by
  simp [Text.isDecimalDigit, toNat_lt_of_isPlain plain]

theorem isPlain_of_isDigit {c : Char} (digit : c.isDigit) : isPlain c := by simp [isPlain, digit]

theorem isPlain_of_isNameStart {c : Char} (start : Text.isNameStart c) : isPlain c := by
  simp [isPlain, start]

theorem not_isDigit_of_isNameStart {c : Char} (start : Text.isNameStart c) : ¬c.isDigit := by
  rw [isNameStart_iff, isUpper_iff, isLower_iff] at start
  rw [isDigit_iff]
  omega

theorem hexValue_of_isDigit {c : Char} (digit : c.isDigit) : (hexValue c).isSome := by
  rw [isDigit_iff] at digit
  have range : '0' ≤ c ∧ c ≤ '9' := by
    simpa [Char.le_def, UInt32.le_iff_toNat_le, ← Char.toNat_val] using digit
  simp [hexValue, range]

/-! ### Words -/

/-- No word goes on in the text, and no sign makes a number of a single letter. -/
def Stops (cs : List Char) : Prop := ∀ c ∈ cs.head?, c = ' ' ∨ c = ':' ∨ c = '\n'

theorem Stops.nil : Stops [] := by simp [Stops]

theorem Stops.cons {c : Char} (stop : c = ' ' ∨ c = ':' ∨ c = '\n') (cs : List Char) :
    Stops (c :: cs) := by
  simpa [Stops] using stop

theorem Stops.append {cs rest : List Char} (h : Stops cs) (h' : Stops rest) :
    Stops (cs ++ rest) := by
  cases cs with
  | nil => exact h'
  | cons c cs => exact h

theorem Stops.run_eq_nil {cs : List Char} (h : Stops cs) : run cs = [] := by
  cases cs with
  | nil => rfl
  | cons c cs =>
    rcases h c rfl with rfl | rfl | rfl <;> rfl

section Word

variable {cs rest : List Char} (word : ∀ c ∈ cs, Text.isWordChar c) (stop : Stops rest)

include word stop

theorem run_word : run (cs ++ rest) = cs := by
  rw [run, List.takeWhile_append_of_pos word, ← run, stop.run_eq_nil, List.append_nil]

theorem afterRun_word : afterRun (cs ++ rest) = rest := by
  have whole := run_append_afterRun (cs ++ rest)
  rw [run_word word stop] at whole
  exact List.append_cancel_left whole

end Word

/-! ### Pieces of text -/

/-- A piece of text is scanned as tokens, whatever follows it. -/
def Reads (cs : List Char) (ts : List Token) : Prop :=
  ∀ rest, Stops rest → scan (cs ++ rest) = ts.map .ok ++ scan rest

theorem Reads.append {cs cs' : List Char} {ts ts' : List Token} (h : Reads cs ts)
    (h' : Reads cs' ts') (stop : Stops cs') : Reads (cs ++ cs') (ts ++ ts') := by
  intro rest stop'
  rw [List.append_assoc, h _ (stop.append stop'), h' rest stop', List.map_append, List.append_assoc]

theorem Reads.blank {cs : List Char} {ts : List Token} (h : Reads cs ts) : Reads (' ' :: cs) ts := by
  intro rest stop
  rw [List.cons_append, scan_blank (Or.inl rfl), h rest stop]

/- A piece is read as one token if the token ends where the piece does. -/
theorem reads_of_next {c : Char} {cs : List Char} {t : Token} (visible : c ≠ ' ' ∧ c ≠ '\t')
    (h : ∀ rest, Stops rest → next c (cs ++ rest) = (.ok t, rest)) : Reads (c :: cs) [t] := by
  intro rest stop
  rw [List.cons_append, scan_visible (not_or.mpr visible), h rest stop]
  rfl

theorem reads_colon : Reads [':'] [.colon] := by
  refine reads_of_next (by decide) ?_
  intro rest _
  rfl

/-! ### Numbers -/

theorem hexDigit_cases {k n : Nat} {c : Char} (member : c ∈ hexDigits k n) :
    ∃ m < 16, c = hexDigit m := by
  induction k generalizing n with
  | zero => cases member
  | succ k ih =>
    rcases List.mem_append.mp member with front | last
    · exact ih front
    · exact ⟨n % 16, Nat.mod_lt n (by omega), List.mem_singleton.mp last⟩

theorem hexDigits_plain {k n : Nat} {c : Char} (member : c ∈ hexDigits k n) :
    Text.isWordChar c ∧ startsHex c ∧ c ≠ '-' := by
  have all : ∀ m ∈ List.range 16,
      Text.isWordChar (hexDigit m) ∧ startsHex (hexDigit m) ∧ hexDigit m ≠ '-' := by decide
  obtain ⟨m, small, rfl⟩ := hexDigit_cases member
  exact all m (List.mem_range.mpr small)

theorem reads_hex (w : Word) : Reads ('x' :: hexDigits 4 w.toNat) [.unsigned w] := by
  refine reads_of_next (by decide) ?_
  intro rest stop
  have word : ∀ c ∈ hexDigits 4 w.toNat, Text.isWordChar c := fun c hc => (hexDigits_plain hc).1
  have behind := run_word word stop
  have after := afterRun_word word stop
  have number : ofUnsigned .hex (hexDigits 4 w.toNat) = .ok (.unsigned w) := by
    simp [ofUnsigned, readUnsigned_hexDigits, Except.map, Except.mapError]
  have long : (hexDigits 4 w.toNat).length = 4 := hexDigits_length 4 w.toNat
  cases digits : hexDigits 4 w.toNat with
  | nil => simp [digits] at long
  | cons d ds =>
    obtain ⟨-, start, sign⟩ := hexDigits_plain (k := 4) (n := w.toNat) (c := d) (by simp [digits])
    rw [digits] at behind after number
    rw [List.cons_append] at behind after ⊢
    have branch : next 'x' (d :: (ds ++ rest)) = afterX 'x' (d :: (ds ++ rest)) := rfl
    rw [branch, afterX, if_neg sign, if_pos start, behind, after, number]

theorem next_digit {d : Char} (digit : d.isDigit) (cs : List Char) :
    next d cs = (ofUnsigned .decimal (d :: run cs), afterRun cs) := by
  have ne {c : Char} (other : c.isDigit = false) : d ≠ c := by
    rintro rfl
    rw [digit] at other
    cases other
  have decimal : Text.isDecimalDigit d := by
    rw [isDecimalDigit_of_isPlain (isPlain_of_isDigit digit), digit]
  simp [next, decimal, ne (c := ':') rfl, ne (c := '\n') rfl, ne (c := '\r') rfl, ne (c := ';') rfl,
    ne (c := '.') rfl, ne (c := '#') rfl, ne (c := '-') rfl, ne (c := 'x') rfl, ne (c := 'X') rfl]

theorem reads_decimal (w : Word) : Reads (Nat.toDigits 10 w.toNat) [.unsigned w] := by
  have number : ofUnsigned .decimal (Nat.toDigits 10 w.toNat) = .ok (.unsigned w) := by
    simp [ofUnsigned, readUnsigned_toDigits, Except.map, Except.mapError]
  have digit : ∀ c ∈ Nat.toDigits 10 w.toNat, c.isDigit := fun c hc =>
    Nat.isDigit_of_mem_toDigits (by omega) (by omega) hc
  cases digits : Nat.toDigits 10 w.toNat with
  | nil => exact absurd digits Nat.toDigits_ne_nil
  | cons d ds =>
    rw [digits] at number digit
    have first := digit d (by simp)
    refine reads_of_next ?_ ?_
    · constructor <;> rintro rfl <;> cases first
    · intro rest stop
      have word : ∀ c ∈ ds, Text.isWordChar c := fun c hc =>
        isWordChar_of_isPlain (isPlain_of_isDigit (digit c (by simp [hc])))
      rw [next_digit first, run_word word stop, afterRun_word word stop, number]

/-! ### Names -/

/-- A name of plain characters that cannot be taken for a number: it starts neither with a digit nor
with an x and a hexadecimal digit. -/
def isName : List Char → Bool
  | [] => false
  | c :: cs =>
    Text.isNameStart c && cs.all isPlain &&
      !((c == 'x' || c == 'X') && cs.head?.any fun d => (hexValue d).isSome)

theorem isName_cons {c : Char} {cs : List Char} :
    isName (c :: cs) ↔ Text.isNameStart c ∧ (∀ d ∈ cs, isPlain d) ∧
      (c = 'x' ∨ c = 'X' → ∀ d ∈ cs.head?, hexValue d = none) := by
  cases cs with
  | nil => simp [isName]
  | cons d ds =>
    simp only [isName, Bool.and_eq_true, List.all_eq_true, and_assoc]
    refine and_congr_right fun _ => and_congr_right fun _ => ?_
    have sides : ¬(c = 'x' ∨ c = 'X') ∨ hexValue d = none ↔
        (c = 'x' ∨ c = 'X' → hexValue d = none) := imp_iff_not_or.symm
    simpa [not_or] using sides

theorem not_startsHex {c : Char} (plain : isPlain c) (clear : hexValue c = none) :
    c ≠ '-' ∧ startsHex c = false := by
  have letter : ¬c.isDigit := fun digit => by simpa [clear] using hexValue_of_isDigit digit
  constructor
  · rintro rfl
    cases plain
  · simp [startsHex, isDecimalDigit_of_isPlain plain, letter, clear]

theorem afterX_name {x : Char} {cs : List Char}
    (clear : ∀ d ∈ cs.head?, d ≠ '-' ∧ startsHex d = false) :
    afterX x cs = (.ok (.ident (String.ofList (x :: run cs))), afterRun cs) := by
  cases cs with
  | nil => rfl
  | cons d ds =>
    obtain ⟨sign, digit⟩ := clear d rfl
    simp [afterX, sign, digit]

theorem next_letter {c : Char} (start : Text.isNameStart c) (other : c ≠ 'x' ∧ c ≠ 'X')
    (cs : List Char) :
    next c cs = (.ok (.ident (String.ofList (c :: run cs))), afterRun cs) := by
  have ne {d : Char} (other : Text.isNameStart d = false) : c ≠ d := by
    rintro rfl
    rw [start] at other
    cases other
  have letter : Text.isDecimalDigit c = false := by
    simp [isDecimalDigit_of_isPlain (isPlain_of_isNameStart start),
      not_isDigit_of_isNameStart start]
  simp [next, other, letter, start, ne (d := ':') rfl, ne (d := '\n') rfl, ne (d := '\r') rfl,
    ne (d := ';') rfl, ne (d := '.') rfl, ne (d := '#') rfl, ne (d := '-') rfl]

theorem next_name {c : Char} {cs rest : List Char} (name : isName (c :: cs)) (stop : Stops rest) :
    next c (cs ++ rest) =
      (.ok (.ident (String.ofList (c :: run (cs ++ rest)))), afterRun (cs ++ rest)) := by
  obtain ⟨start, plain, number⟩ := isName_cons.mp name
  by_cases x : c = 'x' ∨ c = 'X'
  · have branch : next c (cs ++ rest) = afterX c (cs ++ rest) := by
      rcases x with rfl | rfl <;> rfl
    rw [branch]
    refine afterX_name ?_
    intro d first
    -- what follows the letter is the name's second character, or comes after the name
    cases cs with
    | nil => rcases stop d first with rfl | rfl | rfl <;> exact ⟨by decide, rfl⟩
    | cons e es =>
      cases first
      exact not_startsHex (plain d (by simp)) (number x d rfl)
  · exact next_letter start (by simpa using x) _

theorem reads_name {cs : List Char} (name : isName cs) : Reads cs [.ident (String.ofList cs)] := by
  cases cs with
  | nil => cases name
  | cons c cs =>
    obtain ⟨start, plain, -⟩ := isName_cons.mp name
    have word : ∀ d ∈ cs, Text.isWordChar d := fun d hd => isWordChar_of_isPlain (plain d hd)
    refine reads_of_next ?_ ?_
    · constructor <;> rintro rfl <;> cases start
    · intro rest stop
      rw [next_name name stop, run_word word stop, afterRun_word word stop]

/-! ### Directives -/

/-- A name of a directive in lower case. -/
def isDirective : List Char → Bool
  | [] => false
  | c :: cs => Text.isNameStart c && (c :: cs).all fun d => isPlain d && d.toLower == d

theorem reads_directive {cs : List Char} (name : isDirective cs) :
    Reads ('.' :: cs) [.directive (String.ofList cs)] := by
  cases cs with
  | nil => cases name
  | cons c cs =>
    rw [isDirective, Bool.and_eq_true, List.all_eq_true] at name
    obtain ⟨start, lower⟩ := name
    have word : ∀ d ∈ c :: cs, Text.isWordChar d := fun d hd =>
      isWordChar_of_isPlain ((Bool.and_eq_true _ _).mp (lower d hd)).1
    have same : (c :: cs).map Char.toLower = c :: cs := by
      refine (List.map_congr_left fun d hd => ?_).trans (List.map_id _)
      exact eq_of_beq ((Bool.and_eq_true _ _).mp (lower d hd)).2
    refine reads_of_next (by decide) ?_
    intro rest stop
    have branch : next '.' (c :: cs ++ rest) = afterPeriod (c :: cs ++ rest) := rfl
    have behind := run_word word stop
    have after := afterRun_word word stop
    rw [List.cons_append] at behind after branch ⊢
    rw [branch, afterPeriod, if_pos start, behind, after, same]

/-! ### Lines -/

theorem splitLines_line {ts : List Token} (unbroken : .newline ∉ ts)
    (rest : List (Except LexError Token)) :
    splitLines (ts.map .ok ++ .ok .newline :: rest) = ts.map .ok :: splitLines rest := by
  induction ts with
  | nil => rfl
  | cons t ts ih =>
    simp only [List.mem_cons, not_or] at unbroken
    exact splitLines_inner (by simpa using Ne.symm unbroken.1) (ih unbroken.2)

theorem splitLines_last {ts : List Token} (unbroken : .newline ∉ ts) :
    splitLines (ts.map .ok) = [ts.map .ok] := by
  induction ts with
  | nil => rfl
  | cons t ts ih =>
    simp only [List.mem_cons, not_or] at unbroken
    exact splitLines_inner (by simpa using Ne.symm unbroken.1) (ih unbroken.2)

/-- The tokens of the lines of a text are what the lines read as. -/
theorem splitLines_scan {lines : List (List Char)} {tss : List (List Token)}
    (reads : List.Forall₂ Reads lines tss) (unbroken : ∀ ts ∈ tss, .newline ∉ ts)
    (written : lines ≠ []) :
    splitLines (scan (['\n'].intercalate lines)) = tss.map fun ts => ts.map .ok := by
  induction reads with
  | nil => exact absurd rfl written
  | @cons line ts lines tss first rest ih =>
    have unbroken' : ∀ ts ∈ tss, .newline ∉ ts := fun ts hts => unbroken ts (by simp [hts])
    have here := unbroken ts (by simp)
    cases rest with
    | nil =>
      have last := first [] .nil
      rw [List.append_nil, scan, List.append_nil] at last
      rw [List.intercalate_singleton, last, splitLines_last here]
      rfl
    | @cons line' ts' lines tss second rest =>
      have onward := ih unbroken' (by simp)
      have stop : Stops ('\n' :: ['\n'].intercalate (line' :: lines)) := .cons (by simp) _
      have broken : scan ('\n' :: ['\n'].intercalate (line' :: lines)) =
          .ok .newline :: scan (['\n'].intercalate (line' :: lines)) := by
        rw [scan, if_neg (by decide)]
        rfl
      rw [List.intercalate_cons_cons, List.append_assoc, List.singleton_append, first _ stop, broken,
        splitLines_line here, onward]
      rfl

end Lc3.Token
