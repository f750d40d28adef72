import Lc3.Machine.Run

/-!
# What an access changes

A load brings the stored word at its own address up to date, if a control register or a device has
one (`refresh?`), and leaves every other cell alone (`load_memory`); a store changes its own cell at
most (`store_memory_of_ne`). Below memory-mapped input and output both act on the memory alone
(`load_of_lt`, `store_of_lt`), and above it they go to the bus but for the two control registers
(`load_bus`, `store_bus`). What else an access reaches is said as a whole, by the machine it ends in:
the bus for a load (`load_frame`), the bus and the two control registers for a store (`store_frame`).
What a machine holds for its host is out of reach for both (`load_host`, `store_host`), and neither
depends on which instruction makes it (`load_fetching`, `store_fetching`).
-/

namespace Lc3

/-! ### Kinds of addresses -/

theorem ne_psrAddress_of_lt {a : Word} (h : a < ioStart) : a ≠ psrAddress := by
  rintro rfl
  exact absurd h (by decide)

theorem ne_mcrAddress_of_lt {a : Word} (h : a < ioStart) : a ≠ mcrAddress := by
  rintro rfl
  exact absurd h (by decide)

theorem isPort_eq_false_iff {a : Word} : isPort a = false ↔ a < ioStart := by
  simp only [isPort, decide_eq_false_iff_not, BitVec.not_le]

theorem isPort_eq_false_of_lt {a : Word} (h : a < ioStart) : isPort a = false :=
  isPort_eq_false_iff.mpr h

theorem unsignedField_lt_ioStart (b : Byte) : unsignedField b < ioStart := by
  unfold unsignedField ioStart
  bv_omega

theorem lt_ioStart_of_inUserSpace {a : Word} (h : inUserSpace a = true) : a < ioStart := by
  simp only [inUserSpace, Bool.and_eq_true, decide_eq_true_eq] at h
  exact h.2

theorem permits_kbdr (c : Access) : c.permits kbdr = c.privileged := Bool.or_false _

theorem permits_of_privileged {c : Access} (h : c.privileged = true) (a : Word) :
    c.permits a = true := by
  unfold Access.permits
  rw [h, Bool.true_or]

theorem kbdr_ne_unsignedField (v : BitVec 8) : kbdr ≠ unsignedField v := by
  unfold kbdr unsignedField
  bv_omega

theorem kbdr_ne_interruptVector (v : Byte) : kbdr ≠ interruptTable + unsignedField v := by
  unfold kbdr interruptTable unsignedField
  bv_omega

/- An inspection does not change the keyboard. -/
theorem Keyboard.read_inspection (k : Keyboard) (a : Word) : (k.read a false).2 = k := by
  unfold read
  split
  · rfl
  · split
    · split <;> rfl
    · rfl

/-- An access at the address goes to the bus. -/
def ReachesBus (a : Word) : Prop := a ≠ psrAddress ∧ a ≠ mcrAddress ∧ isPort a = true

instance (a : Word) : Decidable (ReachesBus a) := inferInstanceAs (Decidable (_ ∧ _ ∧ _))

/-- What a machine holds for its host. -/
structure Host where
  condition : Condition
  retired : Nat
  lastStop : Option StopReason
  limitExceeded : Bool
  parked : Option Word
  flags : Flags
  breakpoints : Breakpoints
  entropy : Entropy

namespace Machine

variable {δ : Type}

def host (m : Machine δ) : Host :=
  ⟨m.condition, m.retired, m.lastStop, m.limitExceeded, m.parked, m.flags, m.breakpoints, m.entropy⟩

/- With another address noted as that of the instruction. -/
def fetching (m : Machine δ) (a : Word) : Machine δ := { m with fetchPc := a }

/-! ### Stored words -/

theorem stored_memory_self (m : Machine δ) (a w : Word) : (m.stored a w).memory.get a = w :=
  Bank.get_set_self _ _ _

theorem stored_memory_of_ne (m : Machine δ) {a b : Word} (w : Word) (h : a ≠ b) :
    (m.stored a w).memory.get b = m.memory.get b :=
  Bank.get_set_of_ne _ _ h

variable [Device δ]

/-! ### Loads -/

/- The word that a load finds in a control register or at a device, if it finds one. -/
def refresh? (m : Machine δ) (a : Word) (effects : Bool) : Option Word :=
  if a = psrAddress then some m.psr.word
  else if a = mcrAddress then some m.mcr
  else if isPort a then (m.bus.read a effects).word
  else none

theorem load_eq (m : Machine δ) (a : Word) (effects : Bool) :
    m.load a effects =
      { word := (m.refresh? a effects).getD (m.memory.get a)
        machine := { m with
          memory := (m.refresh? a effects).elim m.memory (m.memory.set a)
          bus := if ReachesBus a then (m.bus.read a effects).bus else m.bus }
        events := if ReachesBus a then (m.bus.read a effects).events else [] } := by
  unfold load refresh?
  by_cases psr : a = psrAddress
  · rw [if_pos psr, if_pos psr, if_neg fun h => h.1 psr, if_neg fun h => h.1 psr]
    rfl
  · rw [if_neg psr, if_neg psr]
    by_cases mcr : a = mcrAddress
    · rw [if_pos mcr, if_pos mcr, if_neg fun h => h.2.1 mcr, if_neg fun h => h.2.1 mcr]
      rfl
    · rw [if_neg mcr, if_neg mcr]
      by_cases port : isPort a = true
      · rw [if_pos port, if_pos port, if_pos ⟨psr, mcr, port⟩, if_pos ⟨psr, mcr, port⟩]
        dsimp only
        cases (m.bus.read a effects).word <;> rfl
      · rw [if_neg port, if_neg port, if_neg fun h => port h.2.2, if_neg fun h => port h.2.2]
        rfl

theorem load_fetching (m : Machine δ) (b a : Word) (effects : Bool) :
    (m.fetching b).load a effects =
      ⟨(m.load a effects).word, (m.load a effects).machine.fetching b, (m.load a effects).events⟩ := by
  rw [load_eq, load_eq]
  rfl

theorem refresh?_of_lt (m : Machine δ) {a : Word} (effects : Bool) (h : a < ioStart) :
    m.refresh? a effects = none := by
  unfold refresh?
  rw [if_neg (ne_psrAddress_of_lt h), if_neg (ne_mcrAddress_of_lt h), isPort_eq_false_of_lt h]
  rfl

theorem load_of_lt (m : Machine δ) {a : Word} (effects : Bool) (h : a < ioStart) :
    m.load a effects = ⟨m.memory.get a, m, []⟩ := by
  have inside : ¬ReachesBus a := fun reaches =>
    Bool.false_ne_true ((isPort_eq_false_of_lt h).symm.trans reaches.2.2)
  rw [load_eq, m.refresh?_of_lt effects h, if_neg inside, if_neg inside]
  rfl

theorem load_frame (m : Machine δ) (a : Word) (effects : Bool) :
    (m.load a effects).machine =
      { m with
        memory := (m.load a effects).machine.memory
        bus := (m.load a effects).machine.bus } := by
  rw [load_eq]

theorem load_host (m : Machine δ) (a : Word) (effects : Bool) :
    (m.load a effects).machine.host = m.host := by
  rw [load_frame]
  rfl

theorem load_bus (m : Machine δ) (a : Word) (effects : Bool) :
    (m.load a effects).machine.bus =
      if ReachesBus a then (m.bus.read a effects).bus else m.bus := by
  rw [load_eq]

theorem load_memory (m : Machine δ) (a b : Word) (effects : Bool) :
    (m.load a effects).machine.memory.get b =
      if a = b then (m.load a effects).word else m.memory.get b := by
  rw [load_eq]
  dsimp only
  cases m.refresh? a effects with
  | some w => exact Bank.get_set ..
  | none =>
    split
    · next h =>
      rw [h]
      rfl
    · rfl

theorem load_memory_of_lt (m : Machine δ) (a : Word) {b : Word} (effects : Bool)
    (h : b < ioStart) : (m.load a effects).machine.memory.get b = m.memory.get b := by
  rw [load_memory]
  split
  · next e => rw [e, load_of_lt m effects h]
  · rfl

/-! ### Stores -/

theorem store_of_lt (m : Machine δ) {a : Word} (w : Word) (h : a < ioStart) :
    m.store a w = m.stored a w := by
  unfold store
  rw [if_neg (ne_psrAddress_of_lt h), if_neg (ne_mcrAddress_of_lt h), isPort_eq_false_of_lt h]
  rfl

theorem store_frame (m : Machine δ) (a w : Word) :
    m.store a w =
      { m with
        memory := (m.store a w).memory
        psr := (m.store a w).psr
        clock := (m.store a w).clock
        bus := (m.store a w).bus } := by
  unfold store
  split
  · rfl
  · split
    · rfl
    · split
      · dsimp only
        split <;> rfl
      · rfl

theorem store_fetching (m : Machine δ) (b a w : Word) :
    (m.fetching b).store a w = (m.store a w).fetching b := by
  unfold store
  split
  · rfl
  · split
    · rfl
    · split
      · dsimp only [fetching]
        split <;> rfl
      · rfl

theorem store_host (m : Machine δ) (a w : Word) : (m.store a w).host = m.host := by
  rw [store_frame]
  rfl

theorem store_bus (m : Machine δ) (a w : Word) :
    (m.store a w).bus = if ReachesBus a then (m.bus.write a w).2 else m.bus := by
  unfold store
  by_cases h : ReachesBus a
  · rw [if_neg h.1, if_neg h.2.1, if_pos h.2.2, if_pos h]
    dsimp only
    split <;> rfl
  · rw [if_neg h]
    split
    · rfl
    · split
      · rfl
      · split
        · exact absurd ⟨by assumption, by assumption, by assumption⟩ h
        · rfl

theorem store_memory_of_ne (m : Machine δ) {a b : Word} (w : Word) (h : a ≠ b) :
    (m.store a w).memory.get b = m.memory.get b := by
  unfold store
  split
  · exact Bank.get_set_of_ne _ _ h
  · split
    · exact Bank.get_set_of_ne _ _ h
    · split
      · dsimp only
        split
        · exact Bank.get_set_of_ne _ _ h
        · rfl
      · exact Bank.get_set_of_ne _ _ h

end Machine

end Lc3
