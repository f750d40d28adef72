import Lc3.Image.SymbolTable

/-!
# Memory images

An image is what is loaded into memory: blocks of words, each at its address, the entry point of
the program, and the labels of its addresses. Blocks are not empty, end within the address space
and do not meet; `addBlock` keeps these rules and refuses what breaks them.
-/

namespace Lc3

/-! ### Blocks -/

/-- Words in consecutive cells of memory. -/
structure Block where
  start : Word
  words : List Word
deriving DecidableEq

/-- The number after the last address of a block. -/
def Block.stop (b : Block) : Nat := b.start.toNat + b.words.length

/-- Why a block cannot be added to an image. -/
inductive BlockError where
  /-- The block runs past the last address. -/
  | outOfRange (start : Word) (length : Nat)
  /-- The block has an address in common with the block at `other`. -/
  | overlap (start other : Word)
deriving DecidableEq

/-- What is reported of a block that cannot be added. -/
def BlockError.message : BlockError → String
  | .outOfRange start length =>
    s!"block at x{start.hex} with {length} word(s) runs past xFFFF"
  | .overlap start other => s!"block at x{start.hex} overlaps block at x{other.hex}"

/-! ### Images -/

/-- Blocks in increasing order of address, an entry point and labels. -/
structure Image where
  blocks : List Block := []
  /-- The start of the first block that was added. -/
  first : Option Word := none
  /-- The entry point, if it was set. -/
  chosenEntry : Option Word := none
  symbols : SymbolTable := {}
deriving DecidableEq

namespace Image

/-- The blocks with a new one in its place. -/
def place (b : Block) : List Block → List Block
  | [] => [b]
  | c :: cs => if b.start < c.start then b :: c :: cs else c :: place b cs

/-- The last block that starts at an address or below it. -/
def below? (i : Image) (a : Word) : Option Block := (i.blocks.filter (·.start ≤ a)).getLast?

/-- The first block that starts at an address or above it. -/
def above? (i : Image) (a : Word) : Option Block := i.blocks.find? (a ≤ ·.start)

/-- The neighbour in the way of a new block: the block below if it reaches the new start, else the
block above if the new block reaches its start. The blocks beyond them are not looked at. -/
def obstacle? (i : Image) (b : Block) : Option Block :=
  ((i.below? b.start).filter fun c => b.start.toNat < c.stop).or
    ((i.above? b.start).filter fun c => c.start.toNat < b.stop)

/-- The image with another block. An empty block changes nothing; a block that runs past the last
address is refused before its overlaps are looked at. -/
def addBlock (i : Image) (b : Block) : Except BlockError Image :=
  if b.words.isEmpty then .ok i
  else if 65536 < b.stop then .error (.outOfRange b.start b.words.length)
  else match i.obstacle? b with
    | some other => .error (.overlap b.start other.start)
    | none =>
      .ok { i with blocks := place b i.blocks, first := i.first <|> some b.start }

/-- The image with a chosen entry point. -/
def withEntry (i : Image) (entry : Word) : Image := { i with chosenEntry := some entry }

/-- The entry point: the chosen one, else the first block that was added, else the start of user
space. -/
def entry (i : Image) : Word := (i.chosenEntry <|> i.first).getD userStart

end Image

end Lc3
