import Lc3.Word

/-!
# Breakpoints

A run stops in front of an instruction whose address carries a breakpoint. Breakpoints are named
by ids that increase and are never used twice, also after breakpoints were removed; several
breakpoints may share an address, and the one with the lowest id speaks for all of them.
-/

namespace Lc3

/-- A breakpoint at an address. -/
structure Breakpoint where
  id : Nat
  address : Word
deriving DecidableEq

/-- A breakpoint as it is shown: its id and its address. -/
def Breakpoint.text (b : Breakpoint) : String := s!"#{b.id}: x{b.address.hex}"

/-- The breakpoints of a machine, in increasing order of their ids. -/
structure Breakpoints where
  nextId : Nat := 0
  list : List Breakpoint := []
deriving DecidableEq

namespace Breakpoints

/-- The breakpoint that `set` creates at an address. -/
def fresh (bs : Breakpoints) (a : Word) : Breakpoint := ⟨bs.nextId, a⟩

/-- Add a breakpoint at an address. -/
def set (bs : Breakpoints) (a : Word) : Breakpoints :=
  ⟨bs.nextId + 1, bs.list ++ [bs.fresh a]⟩

/-- The breakpoint with an id. -/
def get? (bs : Breakpoints) (id : Nat) : Option Breakpoint := bs.list.find? (·.id == id)

/-- The breakpoint with the lowest id at an address. -/
def at? (bs : Breakpoints) (a : Word) : Option Breakpoint := bs.list.find? (·.address == a)

/-- Remove the breakpoint with an id, if there is one. -/
def remove (bs : Breakpoints) (id : Nat) : Breakpoints :=
  { bs with list := bs.list.filter (·.id != id) }

/-- Remove all breakpoints. Their ids stay used. -/
def clear (bs : Breakpoints) : Breakpoints := { bs with list := [] }

end Breakpoints

end Lc3
