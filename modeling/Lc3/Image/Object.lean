import Lc3.Image.Basic

/-!
# Object files

An object file is a sequence of big-endian words: the origin, then the words of one block that
starts there. The origin is the entry point.
-/

namespace Lc3

/-- Why bytes are no object file. -/
inductive ObjectError where
  | oddLength
  | missingOrigin
  | block (e : BlockError)
deriving DecidableEq

/-- What is reported of bytes that are no object file. -/
def ObjectError.message : ObjectError → String
  | .oddLength => "object file has an odd number of bytes"
  | .missingOrigin => "object file is missing its origin"
  | .block e => e.message

/-- The words of an even number of bytes, the high byte of each first. -/
def wordsOfBytes : List Byte → Option (List Word)
  | [] => some []
  | [_] => none
  | high :: low :: rest => (wordsOfBytes rest).map ((high ++ low : BitVec (8 + 8)) :: ·)

/-- The bytes of words, the high byte of each first. -/
def bytesOfWords (ws : List Word) : List Byte :=
  ws.flatMap fun w => [w.extractLsb' 8 8, w.extractLsb' 0 8]

/-- The image that an object file holds. -/
def Image.ofObject (bytes : List Byte) : Except ObjectError Image :=
  match wordsOfBytes bytes with
  | none => .error .oddLength
  | some [] => .error .missingOrigin
  | some (origin :: words) =>
    ((({} : Image).addBlock ⟨origin, words⟩).map (·.withEntry origin)).mapError .block

end Lc3
