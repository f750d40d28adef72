import Lc3.Word

/-!
# Banks of cells

A bank of `n` holds one value for each address of `n` bits, as a perfect binary tree that is
descended by the bits of the address, the highest first. A bank is determined by what its cells
hold (`Bank.ext`), and a write changes one cell only (`get_set_self`, `get_set_of_ne`).
-/

namespace Lc3

/-- A value for each address of `n` bits. -/
inductive Bank (α : Type) : Nat → Type where
  | cell (value : α) : Bank α 0
  | pair {n : Nat} (low high : Bank α n) : Bank α (n + 1)

namespace Bank

variable {α : Type}

/-! ### Operations -/

/-- What the cell at an address holds. -/
def get : {n : Nat} → Bank α n → BitVec n → α
  | _, .cell v, _ => v
  | n + 1, .pair low high, i =>
    if i.msb then high.get (i.setWidth n) else low.get (i.setWidth n)

/-- The bank with another value in the cell at an address. -/
def set : {n : Nat} → Bank α n → BitVec n → α → Bank α n
  | _, .cell _, _, v => .cell v
  | n + 1, .pair low high, i, v =>
    if i.msb then .pair low (high.set (i.setWidth n) v) else .pair (low.set (i.setWidth n) v) high

/-- The bank whose cell at address `i` holds `f (k * 2 ^ n + i)`. -/
def tabulate (f : Nat → α) : (n k : Nat) → Bank α n
  | 0, k => .cell (f k)
  | n + 1, k => .pair (tabulate f n (2 * k)) (tabulate f n (2 * k + 1))

/-- The bank whose cell at address `i` holds `f i`. -/
def ofFn (n : Nat) (f : Nat → α) : Bank α n := tabulate f n 0

/-- The bank whose cells all hold the same value. -/
def fill : (n : Nat) → α → Bank α n
  | 0, v => .cell v
  | n + 1, v => .pair (fill n v) (fill n v)

/-- The bank with a function applied to what every cell holds. -/
def map {β : Type} (f : α → β) : {n : Nat} → Bank α n → Bank β n
  | _, .cell v => .cell (f v)
  | _, .pair low high => .pair (low.map f) (high.map f)

/-- The values of the cells in order of address, followed by other values. -/
def toListAppend : {n : Nat} → Bank α n → List α → List α
  | _, .cell v, rest => v :: rest
  | _, .pair low high, rest => low.toListAppend (high.toListAppend rest)

/-- The values of the cells in order of address. -/
def toList {n : Nat} (b : Bank α n) : List α := b.toListAppend []

/-! ### Laws -/

theorem eq_of_msb_setWidth {n : Nat} {i j : BitVec (n + 1)} (hm : i.msb = j.msb)
    (hl : i.setWidth n = j.setWidth n) : i = j := by
  rw [← BitVec.cons_msb_setWidth i, ← BitVec.cons_msb_setWidth j, hm, hl]

theorem get_set_self {n : Nat} (b : Bank α n) (i : BitVec n) (v : α) :
    (b.set i v).get i = v := by
  induction b with
  | cell w => rfl
  | pair low high ihl ihh =>
    cases h : i.msb with
    | false => simp [set, get, h, ihl]
    | true => simp [set, get, h, ihh]

theorem get_set_of_ne {n : Nat} (b : Bank α n) {i j : BitVec n} (v : α) (h : i ≠ j) :
    (b.set i v).get j = b.get j := by
  induction b with
  | cell w => exact absurd (Subsingleton.elim i j) h
  | pair low high ihl ihh =>
    cases hi : i.msb <;> cases hj : j.msb
    · have hne : i.setWidth _ ≠ j.setWidth _ := fun e => h (eq_of_msb_setWidth (by simp [hi, hj]) e)
      simp [set, get, hi, hj, ihl hne]
    · simp [set, get, hi, hj]
    · simp [set, get, hi, hj]
    · have hne : i.setWidth _ ≠ j.setWidth _ := fun e => h (eq_of_msb_setWidth (by simp [hi, hj]) e)
      simp [set, get, hi, hj, ihh hne]

theorem get_set {n : Nat} (b : Bank α n) (i j : BitVec n) (v : α) :
    (b.set i v).get j = if i = j then v else b.get j := by
  split
  · next h => rw [← h, get_set_self]
  · next h => exact get_set_of_ne b v h

theorem get_fill {n : Nat} (v : α) (i : BitVec n) : (fill n v).get i = v := by
  induction n with
  | zero => rfl
  | succ n ih => simp [fill, get, ih]

theorem get_map {β : Type} (f : α → β) {n : Nat} (b : Bank α n) (i : BitVec n) :
    (b.map f).get i = f (b.get i) := by
  induction b with
  | cell v => rfl
  | pair low high ihl ihh =>
    cases h : i.msb with
    | false => simp only [map, get, h, ihl, Bool.false_eq_true, if_false]
    | true => simp only [map, get, h, ihh, if_true]

theorem toNat_eq_msb_add {n : Nat} (i : BitVec (n + 1)) :
    i.toNat = i.msb.toNat <<< n + (i.setWidth n).toNat := by
  have h := congrArg BitVec.toNat (BitVec.cons_msb_setWidth i)
  rw [BitVec.toNat_cons, ← Nat.shiftLeft_add_eq_or_of_lt (i.setWidth n).isLt] at h
  exact h.symm

theorem get_tabulate (f : Nat → α) {n : Nat} (k : Nat) (i : BitVec n) :
    (tabulate f n k).get i = f (k <<< n + i.toNat) := by
  induction n generalizing k with
  | zero => simp [tabulate, get, Subsingleton.elim i 0]
  | succ n ih =>
    have hi := toNat_eq_msb_add i
    cases h : i.msb with
    | false =>
      rw [h, Bool.toNat_false, Nat.zero_shiftLeft, Nat.zero_add] at hi
      rw [tabulate, get, h, if_neg Bool.false_ne_true, ih, hi, Nat.shiftLeft_succ_inside]
    | true =>
      have hk : (2 * k + 1) <<< n = k <<< (n + 1) + 1 <<< n := by
        rw [Nat.shiftLeft_succ_inside, Nat.shiftLeft_eq, Nat.shiftLeft_eq, Nat.shiftLeft_eq,
          Nat.add_mul]
      rw [h, Bool.toNat_true] at hi
      rw [tabulate, get, h, if_pos rfl, ih, hi, hk, Nat.add_assoc]

theorem get_ofFn {n : Nat} (f : Nat → α) (i : BitVec n) : (ofFn n f).get i = f i.toNat := by
  simp [ofFn, get_tabulate]

theorem ext {n : Nat} {b c : Bank α n} (h : ∀ i, b.get i = c.get i) : b = c := by
  induction b with
  | cell v => cases c with
    | cell w => exact congrArg cell (h 0)
  | pair low high ihl ihh => cases c with
    | pair low' high' =>
      have hl : low = low' := ihl fun i => by
        have := h (BitVec.cons false i)
        simpa [get] using this
      have hh : high = high' := ihh fun i => by
        have := h (BitVec.cons true i)
        simpa [get] using this
      rw [hl, hh]

theorem toListAppend_length {n : Nat} (b : Bank α n) (rest : List α) :
    (b.toListAppend rest).length = 1 <<< n + rest.length := by
  induction b generalizing rest with
  | cell v => rw [toListAppend, List.length_cons, Nat.shiftLeft_zero, Nat.add_comm]
  | pair low high ihl ihh =>
    rw [toListAppend, ihl, ihh, Nat.shiftLeft_succ]
    omega

end Bank

end Lc3
