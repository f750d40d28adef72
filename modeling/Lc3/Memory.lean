import Lc3.Bank
import Lc3.Register

/-!
# Memory and registers

The memory is a bank of words addressed by words, the register file a bank of words addressed by
register numbers. A block of words is copied cell by cell and wraps around at the last address.
-/

namespace Lc3

/-- The words at all addresses, without any effect of memory-mapped input and output. -/
abbrev Memory := Bank Word 16

/-- The words in the general-purpose registers. -/
abbrev RegFile := Bank Word 3

namespace Memory

/-- Write words into consecutive cells. -/
def write (m : Memory) : Word → List Word → Memory
  | _, [] => m
  | a, w :: ws => write (m.set a w) (a + 1) ws

/-- Copy a block of words into memory. Words that do not fit behind the start go on at the first
address; words beyond the size of the memory are left out. -/
def copyBlock (m : Memory) (start : Word) (words : List Word) : Memory :=
  let words := words.take 65536
  let room := 65536 - start.toNat
  (m.write start (words.take room)).write 0 (words.drop room)

end Memory

end Lc3
