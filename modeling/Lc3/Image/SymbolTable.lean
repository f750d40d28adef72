import Lc3.Word
import Lc3.Text.Uppercase

/-!
# Symbol tables

Labels and their addresses. A label is kept in upper case, so that its spelling does not matter,
and the labels are kept in increasing order without repetition.
-/

namespace Lc3

/-- Labels in upper case with their addresses, in increasing order of the labels. -/
structure SymbolTable where
  entries : List (String × Word) := []
deriving DecidableEq

namespace SymbolTable

/-- The entries with a new one in its place, unless the label is taken. -/
def place (label : String) (a : Word) :
    List (String × Word) → Option (List (String × Word))
  | [] => some [(label, a)]
  | e :: es =>
    if label = e.1 then none
    else if label < e.1 then some ((label, a) :: e :: es)
    else (place label a es).map (e :: ·)

/-- The table with a new label, unless the label is already defined. -/
def insert? (t : SymbolTable) (label : String) (a : Word) : Option SymbolTable :=
  (place (Text.upper label) a t.entries).map SymbolTable.mk

/-- The address of a label. -/
def address? (t : SymbolTable) (label : String) : Option Word :=
  t.entries.lookup (Text.upper label)

/-- The first label of an address. -/
def label? (t : SymbolTable) (a : Word) : Option String :=
  (t.entries.find? fun e => e.2 == a).map Prod.fst

/-- The number of labels. -/
def size (t : SymbolTable) : Nat := t.entries.length

/-- Whether there are no labels. -/
def isEmpty (t : SymbolTable) : Bool := t.entries.isEmpty

end SymbolTable

end Lc3
