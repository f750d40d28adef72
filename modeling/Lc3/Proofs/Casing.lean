import Lc3.Text.Uppercase
import Mathlib.Data.List.Basic

/-!
# Upper case of upper case

What upper case yields is upper case already: no run of small characters is shifted into another one,
and no expansion holds a small character. So a text in upper case is its own upper case.
-/

namespace Lc3.Text

/-- Whether a run has a character with a number. -/
def holds (n : Nat) (r : Nat × Nat × Nat × Int) : Bool :=
  decide (r.1 ≤ n) && decide (n ≤ r.2.1) && (n - r.1) % r.2.2.1 == 0

/-- The number of the upper-case character, for a character of a run. -/
def raised (n : Nat) (r : Nat × Nat × Nat × Int) : Nat := ((n : Int) + r.2.2.2).toNat

/-- The runs of characters that differ from their upper case. -/
def cased : List (Nat × Nat × Nat × Int) :=
  (0x61, 0x7A, 1, -32) :: (upperRuns ++ upperExpansions.map fun e => (e.1, e.1, 1, 0))

/-- Whether the upper case of one run lies before or behind another run, or between the
characters of that run. -/
def apart (r r' : Nat × Nat × Nat × Int) : Bool :=
  Nat.blt (raised r.2.1 r) r'.1 || Nat.blt r'.2.1 (raised r.1 r) ||
    r'.2.2.1 == 2 && (r.2.2.1 == 2 || r.1 == r.2.1) && Nat.blt 0 (raised r.1 r) &&
      (raised r.1 r + r'.1) % 2 == 1

theorem upperShift_eq (n : Nat) :
    upperShift n = ((upperRuns.find? (holds n)).map fun r => r.2.2.2).getD 0 := by
  unfold upperShift
  split
  · next r found =>
    have found' : upperRuns.find? (holds n) = some r := found
    rw [found', Option.map_some, Option.getD_some]
  · next missed =>
    have missed' : upperRuns.find? (holds n) = none := missed
    rw [missed', Option.map_none, Option.getD_none]

theorem apart_cased : (upperRuns.all fun r => cased.all (apart r)) = true := by decide +kernel

theorem not_holds_raised {n : Nat} {r r' : Nat × Nat × Nat × Int} (clear : apart r r' = true)
    (inside : holds n r = true) : holds (raised n r) r' = false := by
  obtain ⟨low, high, step, shift⟩ := r
  obtain ⟨low', high', step', shift'⟩ := r'
  rw [← Bool.not_eq_true]
  intro inside'
  simp only [holds, apart, Bool.and_eq_true, Bool.or_eq_true, decide_eq_true_eq, beq_iff_eq,
    Nat.blt_eq] at clear inside inside'
  unfold raised at clear inside'
  rcases clear with (before | behind) | ⟨⟨⟨rfl, rfl | rfl⟩, positive⟩, odd⟩ <;> omega

theorem holds_cased_of_find? {n : Nat} {r : Nat × Nat × Nat × Int}
    (found : upperRuns.find? (holds n) = some r) {r' : Nat × Nat × Nat × Int} (other : r' ∈ cased) :
    holds (raised n r) r' = false := by
  have clear := List.all_eq_true.mp apart_cased r (List.mem_of_find?_eq_some found)
  exact not_holds_raised (List.all_eq_true.mp clear r' other) (List.find?_some found)

theorem toUpper_self :
    ∀ n < 128, holds n (0x61, 0x7A, 1, -32) = false → (Char.ofNat n).toUpper = Char.ofNat n := by
  decide

theorem upperChar_ascii :
    ∀ n < 128, upperChar (Char.ofNat n).toUpper = [(Char.ofNat n).toUpper] := by
  decide +kernel

theorem upperChar_expansion :
    ∀ e ∈ upperExpansions, ∀ n ∈ e.2, upperChar (Char.ofNat n) = [Char.ofNat n] := by
  decide +kernel

/- A character that neither table has is its own upper case. -/
theorem upperChar_self {c : Char} (plain : ∀ r ∈ cased, holds c.toNat r = false) :
    upperChar c = [c] := by
  unfold upperChar
  split
  · next ascii =>
    have same := toUpper_self c.toNat ascii (plain _ (List.mem_cons_self ..))
    rw [Char.ofNat_toNat] at same
    rw [same]
  · have unexpanded : upperExpansions.lookup c.toNat = none := by
      rw [List.lookup_eq_none_iff]
      intro e he
      have listed : (e.1, e.1, 1, 0) ∈ cased :=
        List.mem_cons_of_mem _ (List.mem_append_right _ (List.mem_map_of_mem he))
      rw [bne_iff_ne]
      intro same
      have other := plain _ listed
      simp [holds, same] at other
    have outside : upperRuns.find? (holds c.toNat) = none := by
      rw [List.find?_eq_none]
      intro r hr
      rw [plain r (List.mem_cons_of_mem _ (List.mem_append_left _ hr))]
      exact Bool.false_ne_true
    simp [unexpanded, upperShift_eq, outside]

theorem toNat_ofNat (n : Nat) : (Char.ofNat n).toNat = n ∨ Char.ofNat n = Char.ofNat 0 := by
  by_cases valid : n.isValidChar
  · left
    rw [Char.ofNat, dif_pos valid]
    rfl
  · right
    rw [Char.ofNat, dif_neg valid]
    rfl

/- The characters of an upper case are upper case themselves. -/
theorem upperChar_of_mem {c d : Char} (member : d ∈ upperChar c) : upperChar d = [d] := by
  unfold upperChar at member
  split at member
  · next ascii =>
    have fixed := upperChar_ascii c.toNat ascii
    rw [Char.ofNat_toNat] at fixed
    rwa [List.mem_singleton.mp member]
  · next large =>
    split at member
    · next cs found =>
      obtain ⟨n, hn, rfl⟩ := List.mem_map.mp member
      obtain ⟨before, after, table, -⟩ := List.lookup_eq_some_iff.mp found
      exact upperChar_expansion (c.toNat, cs) (by simp [table]) n hn
    · next unexpanded =>
      obtain rfl := List.mem_singleton.mp member
      rw [upperShift_eq]
      cases found : upperRuns.find? (holds c.toNat) with
      | none => simp [upperChar, large, unexpanded, upperShift_eq, found]
      | some r =>
        rcases toNat_ofNat (raised c.toNat r) with number | zero
        · refine upperChar_self (c := Char.ofNat (raised c.toNat r)) ?_
          rw [number]
          exact fun r' => holds_cased_of_find? found
        · change upperChar (Char.ofNat (raised c.toNat r)) = [Char.ofNat (raised c.toNat r)]
          rw [zero]
          rfl

theorem upperChar_flatMap (c : Char) : (upperChar c).flatMap upperChar = upperChar c := by
  have same : (upperChar c).flatMap upperChar = (upperChar c).flatMap fun d => [d] :=
    List.flatMap_congr fun d hd => upperChar_of_mem hd
  rw [same, List.flatMap_singleton']

/-- A text in upper case is its own upper case. -/
theorem upper_upper (s : String) : upper (upper s) = upper s := by
  simp only [upper, String.toList_ofList, List.flatMap_assoc, upperChar_flatMap]

end Lc3.Text
