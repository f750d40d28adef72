import Lc3.Image.Basic
import Lc3.Image.Token

/-!
# Text images

An image can be written as a text. The directive `.orig` opens a block and `.end` closes it; within
a block a line holds a word, as a number or after `.fill`, and may start with a label of the next
word. `.entry` chooses the entry point. A label may be used before it is defined. The lines are
read in order and the first faulty line is reported; labels are looked up at the end.
-/

namespace Lc3

/-- What can be wrong with a line of a text image. -/
inductive LineError where
  | lex (e : LexError)
  | unknownDirective (name : String)
  | missingOperand (directive : String)
  | unexpectedToken
  | origInsideBlock
  | outsideBlock
  | duplicateLabel (label : String)
  | undefinedLabel (label : String)
  /-- The block that was opened on the line cannot be added to the image. -/
  | block (e : BlockError)
deriving DecidableEq

/-- What is reported of a faulty line. -/
def LineError.message : LineError → String
  | .lex e => e.message
  | .unknownDirective name => s!"unknown directive .{name}"
  | .missingOperand name => s!".{name} requires an operand"
  | .unexpectedToken => "unexpected token"
  | .origInsideBlock => ".orig inside of an open block (missing .end)"
  | .outsideBlock => "not inside a block (missing .orig)"
  | .duplicateLabel label => s!"label {label} was already defined"
  | .undefinedLabel label => s!"label {label} was never defined"
  | .block e => e.message

/-- A faulty line of a text image, with its number counted from one. -/
structure TextError where
  line : Nat
  error : LineError
deriving DecidableEq

/-- What is reported of a text that is no image. -/
def TextError.message (e : TextError) : String := s!"line {e.line}: {e.error.message}"

/-! ### Drafts -/

/-- A word of a text image: a number, or a label used on a line. -/
inductive Value where
  | literal (word : Word)
  | label (name : String) (line : Nat)
deriving DecidableEq

/-- A block whose labels are not looked up yet, with the line that opened it. -/
structure DraftBlock where
  start : Word
  line : Nat
  values : List Value := []

/-- What the lines read so far amount to. -/
structure Draft where
  /-- The open block. -/
  current : Option DraftBlock := none
  /-- The closed blocks, in order of closing. -/
  closed : List DraftBlock := []
  entry : Option Value := none
  symbols : SymbolTable := {}

namespace Draft

/-- The open block. -/
def openBlock (d : Draft) : Except LineError DraftBlock :=
  match d.current with
  | some b => .ok b
  | none => .error .outsideBlock

/-- Label the next word of the open block. -/
def define (d : Draft) (label : String) : Except LineError Draft := do
  let b ← d.openBlock
  match d.symbols.insert? label (b.start + BitVec.ofNat 16 b.values.length) with
  | some t => .ok { d with symbols := t }
  | none => .error (.duplicateLabel (Text.upper label))

/-- Append a word to the open block. -/
def push (d : Draft) (v : Value) : Except LineError Draft := do
  let b ← d.openBlock
  return { d with current := some { b with values := b.values ++ [v] } }

/-! ### Lines -/

/-- The operand of a directive on a line. -/
def operand (line : Nat) (directive : String) : List Token → Except LineError Value
  | [] => .error (.missingOperand directive)
  | [.unsigned w] => .ok (.literal w)
  | [.signed w] => .ok (.literal w)
  | [.ident name] => .ok (.label name line)
  | _ => .error .unexpectedToken

/-- Open a block. -/
def orig (d : Draft) (line : Nat) (args : List Token) : Except LineError Draft :=
  if d.current.isSome then .error .origInsideBlock
  else do
    match ← operand line "orig" args with
    | .literal start => return { d with current := some { start, line } }
    | .label _ _ => .error .unexpectedToken

/-- Close the open block. -/
def close (d : Draft) (args : List Token) : Except LineError Draft :=
  if args.isEmpty then do
    let b ← d.openBlock
    return { d with current := none, closed := d.closed ++ [b] }
  else .error .unexpectedToken

/-- Read a directive and its operands. -/
def directive (d : Draft) (line : Nat) (name : String) (args : List Token) :
    Except LineError Draft :=
  if name = "orig" then d.orig line args
  else if name = "end" then d.close args
  else if name = "fill" then do d.push (← operand line name args)
  else if name = "entry" then do
    return { d with entry := some (← operand line name args) }
  else .error (.unknownDirective name)

/-- Read a line after its label. -/
def statement (d : Draft) (line : Nat) : List Token → Except LineError Draft
  | [] => .ok d
  | .directive name :: args => d.directive line name args
  | [.unsigned w] => d.push (.literal w)
  | [.signed w] => d.push (.literal w)
  | _ => .error .unexpectedToken

/-- Read a line: an optional label, an optional colon after it, and a statement. -/
def readLine (d : Draft) (line : Nat) : List Token → Except LineError Draft
  | .ident label :: .colon :: ts => do (← d.define label).statement line ts
  | .ident label :: ts => do (← d.define label).statement line ts
  | ts => d.statement line ts

/-- Read the tokens of a line, comments and faulty ones included. -/
def readTokens (d : Draft) (line : Nat) (ts : List (Except LexError Token)) :
    Except LineError Draft := do
  let tokens ← (ts.mapM id).mapError .lex
  d.readLine line (tokens.filter fun t => !t.isComment)

/-- Read lines in order; the first one has the given number. -/
def readLines (d : Draft) (line : Nat) :
    List (List (Except LexError Token)) → Except TextError Draft
  | [] => .ok d
  | l :: ls => do
    let d ← (d.readTokens line l).mapError (TextError.mk line)
    d.readLines (line + 1) ls

/-! ### Images -/

/-- The word that a value stands for. -/
def resolve (d : Draft) : Value → Except TextError Word
  | .literal w => .ok w
  | .label name line =>
    match d.symbols.address? name with
    | some a => .ok a
    | none => .error ⟨line, .undefinedLabel name⟩

/-- Add a block to the image, with its labels looked up. -/
def addBlock (d : Draft) (i : Image) (b : DraftBlock) : Except TextError Image := do
  let words ← b.values.mapM d.resolve
  (i.addBlock ⟨b.start, words⟩).mapError fun e => ⟨b.line, .block e⟩

/-- The image of a complete draft. An open block counts as closed at the end. -/
def finish (d : Draft) : Except TextError Image := do
  let i ← (d.closed ++ d.current.toList).foldlM d.addBlock {}
  let entry ← d.entry.mapM d.resolve
  return { i with chosenEntry := entry, symbols := d.symbols }

end Draft

/-- The tokens of each line of a text. -/
def splitLines : List (Except LexError Token) → List (List (Except LexError Token))
  | [] => [[]]
  | .ok .newline :: ts => [] :: splitLines ts
  | t :: ts =>
    match splitLines ts with
    | [] => [[t]]
    | l :: ls => (t :: l) :: ls

/-- The image that a text describes. -/
def Image.ofText (source : String) : Except TextError Image := do
  let d ← ({} : Draft).readLines 1 (splitLines (Token.scan source.toList))
  d.finish

end Lc3
