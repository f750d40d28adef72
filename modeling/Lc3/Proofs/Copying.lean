import Lc3.Proofs.Loading

/-!
# Copying a block

A block is copied in two parts, the second at the first address, and each part fits where it is put.
So the word of a cell is found at its distance from the start, counted around the memory
(`Memory.get_copyBlock`). The copy that minds the ends of its words and of the memory never meets
them (`Memory.copyBlock?_eq_some`).
-/

namespace Lc3.Memory

/-! ### What cells hold -/

theorem get_write_eq {a : Word} {words : List Word} (fits : a.toNat + words.length ≤ 65536) (m : Memory)
    (c : Word) :
    (m.write a words).get c =
      if a.toNat ≤ c.toNat then words[c.toNat - a.toNat]?.getD (m.get c) else m.get c := by
  by_cases low : a.toNat ≤ c.toNat
  · by_cases high : c.toNat < a.toNat + words.length
    · rw [if_pos low, get_write_inside fits low high, Option.getD_some]
    · have behind : words[c.toNat - a.toNat]? = none := List.getElem?_eq_none (by omega)
      rw [if_pos low, behind, Option.getD_none]
      exact get_write_outside fits fun covered => high covered.2
  · rw [if_neg low]
    exact get_write_outside fits fun covered => low covered.1

theorem get_write_zero {words : List Word} (fits : words.length ≤ 65536) (m : Memory) (c : Word) :
    (m.write 0 words).get c = words[c.toNat]?.getD (m.get c) := by
  have zero : (0 : Word).toNat = 0 := rfl
  rw [get_write_eq (by omega), zero, if_pos (Nat.zero_le _), Nat.sub_zero]

section Parts

variable (start : Word) (words : List Word)

theorem head_fits : start.toNat + ((words.take 65536).take (65536 - start.toNat)).length ≤ 65536 := by
  have bound := start.isLt
  simp only [List.length_take]
  omega

theorem tail_length_le : ((words.take 65536).drop (65536 - start.toNat)).length ≤ start.toNat := by
  have bound := start.isLt
  simp only [List.length_drop, List.length_take]
  omega

end Parts

/- The distance from the start to a cell, counted upwards and around the end of the memory. -/
theorem distance_eq (a start : Word) :
    (a - start).toNat =
      if start.toNat ≤ a.toNat then a.toNat - start.toNat
      else 65536 - start.toNat + a.toNat := by
  have low := a.isLt
  have bound := start.isLt
  rw [BitVec.toNat_sub]
  split <;> omega

theorem get_copyBlock (m : Memory) (start : Word) (words : List Word) (a : Word) :
    (m.copyBlock start words).get a = words[(a - start).toNat]?.getD (m.get a) := by
  have headFits := head_fits start words
  have tailFits := tail_length_le start words
  have bound := start.isLt
  have low := a.isLt
  unfold copyBlock
  dsimp only
  rw [get_write_zero (by omega), get_write_eq headFits, distance_eq]
  by_cases behind : start.toNat ≤ a.toNat
  · -- the second part ends before the start, so the cell is one of the first part or of none
    have free : ((words.take 65536).drop (65536 - start.toNat))[a.toNat]? = none :=
      List.getElem?_eq_none (by omega)
    have near : a.toNat - start.toNat < 65536 - start.toNat := by omega
    rw [free, Option.getD_none, if_pos behind, if_pos behind, List.getElem?_take_of_lt near,
      List.getElem?_take_of_lt (by omega)]
  · rw [if_neg behind, if_neg behind, List.getElem?_drop, List.getElem?_take_of_lt (by omega)]

/-! ### Bounds -/

/-- Cut words behind the first `k`, unless there are fewer. -/
def cut? (k : Nat) (words : List Word) : Option (List Word × List Word) :=
  if k ≤ words.length then some (words.take k, words.drop k) else none

/-- Put words into the cells from number `i` up to number `j`, unless a cell is not in memory or the
words are more or fewer than the cells. -/
def overwrite? (m : Memory) (i j : Nat) (words : List Word) : Option Memory :=
  if i ≤ j ∧ j ≤ 65536 ∧ words.length = j - i then some (m.write (BitVec.ofNat 16 i) words) else none

/-- Copy a block of words into memory, with a check of each cut and of each range of cells. -/
def copyBlock? (m : Memory) (start : Word) (words : List Word) : Option Memory := do
  let (words, _) ← cut? (min words.length 65536) words
  let (head, tail) ← cut? (min words.length (65536 - start.toNat)) words
  let m ← m.overwrite? start.toNat (start.toNat + head.length) head
  m.overwrite? 0 tail.length tail

theorem cut?_min (k : Nat) (words : List Word) :
    cut? (min words.length k) words = some (words.take k, words.drop k) := by
  unfold cut?
  rw [if_pos (Nat.min_le_left _ _)]
  rcases Nat.le_total words.length k with short | long
  · rw [Nat.min_eq_left short, List.take_of_length_le short, List.drop_of_length_le short,
      List.take_length, List.drop_length]
  · rw [Nat.min_eq_right long]

theorem overwrite?_fits {a : Word} {words : List Word} (fits : a.toNat + words.length ≤ 65536)
    (m : Memory) :
    m.overwrite? a.toNat (a.toNat + words.length) words = some (m.write a words) := by
  unfold overwrite?
  rw [if_pos ⟨by omega, fits, by omega⟩, BitVec.ofNat_toNat, BitVec.setWidth_eq]

theorem overwrite?_zero {words : List Word} (fits : words.length ≤ 65536) (m : Memory) :
    m.overwrite? 0 words.length words = some (m.write 0 words) := by
  have whole : (0 : Word).toNat + words.length = words.length := Nat.zero_add _
  have written := overwrite?_fits (Nat.le_trans (Nat.le_of_eq whole) fits) m
  rwa [whole] at written

theorem copyBlock?_eq_some (m : Memory) (start : Word) (words : List Word) :
    m.copyBlock? start words = some (m.copyBlock start words) := by
  have headFits := head_fits start words
  have tailFits : ((words.take 65536).drop (65536 - start.toNat)).length ≤ 65536 :=
    Nat.le_trans (tail_length_le start words) (Nat.le_of_lt start.isLt)
  simp only [copyBlock?, cut?_min, Option.bind_eq_bind, Option.bind_some, overwrite?_fits headFits,
    overwrite?_zero tailFits, copyBlock]

/-- A block of any length is copied to its place, wherever it starts. No cut lies behind the end of the
words and no cell behind the end of the memory. A cell holds the word whose number is the distance
from the start to the cell, counted around the memory, if there is such a word among the first 65536;
any other cell keeps its word. -/
theorem copyBlock_around (m : Memory) (start : Word) (words : List Word) :
    m.copyBlock? start words = some (m.copyBlock start words) ∧
    ∀ a, (m.copyBlock start words).get a =
      if h : (a - start).toNat < min words.length 65536 then words[(a - start).toNat]
      else m.get a := by
  refine ⟨copyBlock?_eq_some m start words, fun a => ?_⟩
  have bound := (a - start).isLt
  rw [get_copyBlock]
  split
  · next inside =>
    rw [List.getElem?_eq_getElem (by omega), Option.getD_some]
  · next outside =>
    rw [List.getElem?_eq_none (by omega), Option.getD_none]

end Lc3.Memory
