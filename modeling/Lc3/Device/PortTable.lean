import Lc3.Bank
import Lc3.Device.Display

/-!
# The port table

Which device each port leads to. The table holds an id for every address of memory-mapped input and
output: one id stands for no device, two are kept for the keyboard and the display, and the attached
devices have the ids above. A port is led to a device only while it leads to none
(`PortTable.assign`), and removing a device frees all its ports (`PortTable.release`). So the ports of
the keyboard and of the display stay theirs (`PortTable.Fixed`).
-/

namespace Lc3

/-! ### Ids -/

/-- The id of no device. -/
@[match_pattern]
def noDevice : Nat := 0

/-- The id of the keyboard. -/
@[match_pattern]
def keyboardId : Nat := 1

/-- The id of the display. -/
@[match_pattern]
def displayId : Nat := 2

/-- The id of the first device that is attached. -/
def firstCustomId : Nat := 3

/-- The highest id that there is. -/
def lastId : Nat := 65535

/-! ### The table -/

/-- The id of the device at each port. -/
abbrev PortTable := Bank Nat 9

namespace PortTable

/-- The place of an address in the table. An address below the ports has none. -/
def offset? (a : Word) : Option (BitVec 9) :=
  if isPort a then some ((a - ioStart).setWidth 9) else none

/-- The id of the device that a port leads to. -/
def id? (t : PortTable) (a : Word) : Option Nat := (offset? a).map t.get

/-- Lead a port to a device, and whether this was done: not if the address is no port, and not if
the port leads to a device. -/
def assign (t : PortTable) (a : Word) (id : Nat) : Bool × PortTable :=
  match offset? a with
  | none => (false, t)
  | some i => if t.get i = noDevice then (true, t.set i id) else (false, t)

/-- Lead several ports to a device. -/
def assignAll (t : PortTable) (ports : List Word) (id : Nat) : PortTable :=
  ports.foldl (fun t a => (t.assign a id).2) t

/-- Free the ports of a device. -/
def release (t : PortTable) (id : Nat) : PortTable := t.map fun i => if i = id then noDevice else i

/-- The table with the ports of the keyboard and of the display. -/
def initial : PortTable :=
  let free : PortTable := Bank.fill 9 noDevice
  ((free.assignAll [kbsr, kbdr] keyboardId).assignAll [dsr, ddr] displayId)

/-! ### Lookups -/

theorem isSome_offset? (a : Word) : (offset? a).isSome = isPort a := by
  unfold offset?
  cases isPort a <;> rfl

/- Different ports have different places. -/
theorem offset?_inj {a b : Word} {i : BitVec 9} (ha : offset? a = some i) (hb : offset? b = some i) :
    a = b := by
  unfold offset? at ha hb
  split at ha
  · next pa =>
    split at hb
    · next pb =>
      have place := (Option.some.inj ha).trans (Option.some.inj hb).symm
      unfold isPort ioStart at pa pb
      unfold ioStart at place
      simp only [decide_eq_true_eq] at pa pb
      have same := congrArg BitVec.toNat place
      rw [BitVec.toNat_setWidth, BitVec.toNat_setWidth] at same
      bv_omega
    · cases hb
  · cases ha

variable (t : PortTable) (a b : Word) (id : Nat)

/- The table has a place for each port, and for no other address. -/
theorem isSome_id? : (t.id? a).isSome = isPort a := by
  unfold id?
  rw [Option.isSome_map, isSome_offset?]

theorem isPort_of_id? {t : PortTable} {a : Word} {id : Nat} (h : t.id? a = some id) :
    isPort a = true := by
  rw [← t.isSome_id?, h]
  rfl

theorem id?_assign : (t.assign a id).2.id? b =
    if b = a ∧ t.id? a = some noDevice then some id else t.id? b := by
  unfold assign id?
  cases ha : offset? a with
  | none => simp
  | some i =>
    cases hb : offset? b with
    | none =>
      have other : b ≠ a := by
        rintro rfl
        rw [ha] at hb
        cases hb
      dsimp only
      split <;> simp [other]
    | some j =>
      have place : i = j ↔ b = a := by
        refine ⟨fun h => offset?_inj hb (h ▸ ha), fun h => ?_⟩
        rw [h, ha] at hb
        exact Option.some.inj hb
      by_cases free : t.get i = noDevice
      · simp only [free, Option.map_some, Bank.get_set, place, and_true, if_true, apply_ite some]
      · simp [free]

theorem id?_assignAll (ports : List Word) : (t.assignAll ports id).id? b =
    if b ∈ ports ∧ t.id? b = some noDevice then some id else t.id? b := by
  induction ports generalizing t with
  | nil => simp [assignAll]
  | cons a ports ih =>
    have step : t.assignAll (a :: ports) id = ((t.assign a id).2).assignAll ports id := rfl
    rw [step, ih, id?_assign]
    by_cases here : b = a
    · subst here
      by_cases free : t.id? b = some noDevice <;> simp [free]
    · simp [here]

theorem id?_release : (t.release id).id? a =
    if t.id? a = some id then some noDevice else t.id? a := by
  unfold release id?
  cases offset? a with
  | none => rfl
  | some i =>
    simp only [Option.map_some, Bank.get_map, Option.some.injEq]
    split <;> rfl

theorem id?_fill : id? (Bank.fill 9 id) a = if isPort a then some id else none := by
  unfold id? offset?
  split
  · exact congrArg some (Bank.get_fill id _)
  · rfl

theorem id?_initial : initial.id? a =
    if a = kbsr ∨ a = kbdr then some keyboardId
    else if a = dsr ∨ a = ddr then some displayId
    else if isPort a then some noDevice else none := by
  unfold initial
  rw [id?_assignAll, id?_assignAll, id?_fill]
  simp only [List.mem_cons, List.not_mem_nil, or_false]
  by_cases hk : a = kbsr ∨ a = kbdr
  · have port : isPort a = true := by obtain rfl | rfl := hk <;> decide
    have other : ¬(a = dsr ∨ a = ddr) := by obtain rfl | rfl := hk <;> decide
    simp [hk, port, other]
  · by_cases hd : a = dsr ∨ a = ddr
    · have port : isPort a = true := by obtain rfl | rfl := hd <;> decide
      simp [hk, hd, port]
    · simp [hk, hd]

/- A table holds nothing but the ids of the ports. -/
theorem ext_id? {t t' : PortTable} (h : ∀ a, t'.id? a = t.id? a) : t' = t := by
  refine Bank.ext fun i => ?_
  have place : offset? (ioStart + i.setWidth 16) = some i := by
    unfold offset? isPort ioStart
    rw [if_pos (decide_eq_true (by bv_omega))]
    refine congrArg some (BitVec.eq_of_toNat_eq ?_)
    rw [BitVec.toNat_setWidth]
    bv_omega
  have same := h (ioStart + i.setWidth 16)
  unfold id? at same
  rw [place] at same
  exact Option.some.inj same

/-! ### The ports that are not free for others -/

/-- The ports of the keyboard and of the display lead to them, and no others do. -/
structure Fixed (t : PortTable) : Prop where
  keyboard : ∀ a, t.id? a = some keyboardId ↔ a = kbsr ∨ a = kbdr
  display : ∀ a, t.id? a = some displayId ↔ a = dsr ∨ a = ddr

theorem fixed_initial : initial.Fixed where
  keyboard a := by
    rw [id?_initial]
    split
    · next hk => exact iff_of_true rfl hk
    · next hk =>
      refine iff_of_false ?_ hk
      split
      · decide
      · split <;> decide
  display a := by
    rw [id?_initial]
    split
    · next hk =>
      refine iff_of_false (by decide) ?_
      obtain rfl | rfl := hk <;> decide
    · split
      · next hd => exact iff_of_true rfl hd
      · next hd =>
        refine iff_of_false ?_ hd
        split <;> decide

section

variable {t : PortTable} {id : Nat}

/- Neither table has an entry of a fixed device that the other has not. -/
theorem Fixed.of_iff {t' : PortTable} (h : t.Fixed)
    (keyboard : ∀ a, t'.id? a = some keyboardId ↔ t.id? a = some keyboardId)
    (display : ∀ a, t'.id? a = some displayId ↔ t.id? a = some displayId) : t'.Fixed where
  keyboard a := (keyboard a).trans (h.keyboard a)
  display a := (display a).trans (h.display a)

theorem Fixed.assignAll (h : t.Fixed) (ports : List Word) (custom : firstCustomId ≤ id) :
    (t.assignAll ports id).Fixed := by
  have kept {fixed : Nat} (below : fixed < firstCustomId) (used : fixed ≠ noDevice) (a : Word) :
      (t.assignAll ports id).id? a = some fixed ↔ t.id? a = some fixed := by
    rw [id?_assignAll]
    split
    · next led =>
      rw [led.2, Option.some.injEq, Option.some.injEq]
      exact iff_of_false (by omega) used.symm
    · rfl
  exact h.of_iff (kept (by decide) (by decide)) (kept (by decide) (by decide))

theorem Fixed.release (h : t.Fixed) (custom : firstCustomId ≤ id) : (t.release id).Fixed := by
  have kept {fixed : Nat} (below : fixed < firstCustomId) (used : fixed ≠ noDevice) (a : Word) :
      (t.release id).id? a = some fixed ↔ t.id? a = some fixed := by
    rw [id?_release]
    split
    · next led =>
      rw [led, Option.some.injEq, Option.some.injEq]
      exact iff_of_false used.symm (by omega)
    · rfl
  exact h.of_iff (kept (by decide) (by decide)) (kept (by decide) (by decide))

/- Where no port leads to an attached device, the table is as at first. -/
theorem Fixed.eq_initial (h : t.Fixed) (bare : ∀ a slot, t.id? a ≠ some (slot + 3)) :
    t = initial := by
  refine ext_id? fun a => ?_
  rw [id?_initial]
  split
  · next keyboard => exact (h.keyboard a).mpr keyboard
  · next keyboard =>
    split
    · next display => exact (h.display a).mpr display
    · next display =>
      split
      · next port =>
        obtain ⟨id, led⟩ := Option.isSome_iff_exists.mp ((t.isSome_id? a).trans port)
        match id with
        | 0 => exact led
        | 1 => exact absurd ((h.keyboard a).mp led) keyboard
        | 2 => exact absurd ((h.display a).mp led) display
        | slot + 3 => exact absurd led (bare a slot)
      · next outside =>
        refine Option.not_isSome_iff_eq_none.mp ?_
        rwa [t.isSome_id?]

end

end PortTable

end Lc3
