import Lc3.Proofs.Parts

/-!
# The stack of a handler

An entry pushes the status and the program counter onto the stack of the supervisor and a return
pops them. This module says what both do to the registers and to memory: in general an entry moves
the stack pointers (`entered_sp`, `entered_savedSp`) and changes no cell below memory-mapped input
and output but the two it pushes to (`entered_memory_of_ne`). With these two apart from the status
register (`PushesApart`) the status is known too, and with both below memory-mapped input and output
(`PushesBelow`) so are the pushed words.
-/

namespace Lc3.Machine

variable {δ : Type}

/-- Neither of the words that an entry pushes lands in the status register. -/
def PushesApart (m : Machine δ) : Prop :=
  m.supervisorSp - 1 ≠ psrAddress ∧ m.supervisorSp - 2 ≠ psrAddress

/-- The words that an entry pushes land in plain memory. -/
def PushesBelow (m : Machine δ) : Prop :=
  m.supervisorSp - 1 < ioStart ∧ m.supervisorSp - 2 < ioStart

theorem PushesBelow.apart {m : Machine δ} (h : m.PushesBelow) : m.PushesApart :=
  ⟨ne_psrAddress_of_lt h.1, ne_psrAddress_of_lt h.2⟩

theorem PushesBelow.bounds {m : Machine δ} (h : m.PushesBelow) :
    2 ≤ m.supervisorSp ∧ m.supervisorSp ≤ ioStart := by
  obtain ⟨h₁, h₂⟩ := h
  unfold ioStart at *
  constructor <;> bv_omega

variable [Device δ]

theorem load_core (m : Machine δ) (a : Word) (effects : Bool) :
    (m.load a effects).machine.core = m.core := by
  rw [load_frame]
  rfl

theorem store_core (m : Machine δ) (a w : Word) :
    (m.store a w).core = { m.core with psr := (m.store a w).psr } := by
  rw [store_frame]
  rfl

theorem store_psr_of_ne (m : Machine δ) {a : Word} (w : Word) (h : a ≠ psrAddress) :
    (m.store a w).psr = m.psr := by
  unfold store
  rw [if_neg h]
  split
  · rfl
  · split
    · dsimp only
      split <;> rfl
    · rfl

theorem store_clock_of_ne (m : Machine δ) {a : Word} (w : Word) (h : a ≠ mcrAddress) :
    (m.store a w).clock = m.clock := by
  unfold store
  rw [if_neg h]
  split
  · rfl
  · split
    · dsimp only
      split <;> rfl
    · rfl

/-! ### The fetch -/

theorem fetched_core (m : Machine δ) : m.fetched.core = { m.core with pc := m.pc + 1 } := by
  unfold fetched
  dsimp only
  rw [load_frame]
  rfl

theorem fetched_host (m : Machine δ) : m.fetched.host = m.host := m.load_host m.pc true

theorem fetched_registers (m : Machine δ) : m.fetched.registers = m.registers :=
  congrArg Core.registers m.fetched_core

theorem fetched_psr (m : Machine δ) : m.fetched.psr = m.psr := congrArg Core.psr m.fetched_core

theorem fetched_savedSp (m : Machine δ) : m.fetched.savedSp = m.savedSp :=
  congrArg Core.savedSp m.fetched_core

theorem fetched_access (m : Machine δ) : m.fetched.access = m.access := by
  have hf : m.fetched.flags = m.flags := congrArg Host.flags m.fetched_host
  unfold access
  rw [m.fetched_psr, hf]

theorem fetched_memory_of_lt (m : Machine δ) {b : Word} (h : b < ioStart) :
    m.fetched.memory.get b = m.memory.get b :=
  m.load_memory_of_lt m.pc true h

theorem upcoming_of_lt {m : Machine δ} (here : m.pc < ioStart) :
    m.upcoming = Instruction.decode (m.memory.get m.pc) := by
  rw [upcoming, load_of_lt _ _ here]

theorem fetched_of_lt {m : Machine δ} (here : m.pc < ioStart) :
    m.fetched = { m with pc := m.pc + 1, fetchPc := m.pc } := by
  rw [fetched, load_of_lt _ _ here]

/-! ### Entries -/

theorem pushed_host (m : Machine δ) : m.pushed.host = m.host :=
  (store_host _ _ _).trans (store_host _ _ _)

theorem entered_host (m : Machine δ) (vector : Word) (priority : Option (BitVec 3)) :
    (m.entered vector priority).host = m.host :=
  (load_host (m.poised priority) vector true).trans m.pushed_host

theorem pushed_memory_of_ne (m : Machine δ) {b : Word} (h₁ : m.supervisorSp - 1 ≠ b)
    (h₂ : m.supervisorSp - 2 ≠ b) : m.pushed.memory.get b = m.memory.get b := by
  rw [← sp_supervisor] at h₁ h₂
  exact (store_memory_of_ne _ _ h₂).trans (store_memory_of_ne _ _ h₁)

theorem entered_memory_of_ne (m : Machine δ) (vector : Word) (priority : Option (BitVec 3))
    {b : Word} (hb : b < ioStart) (h₁ : m.supervisorSp - 1 ≠ b) (h₂ : m.supervisorSp - 2 ≠ b) :
    (m.entered vector priority).memory.get b = m.memory.get b :=
  (load_memory_of_lt (m.poised priority) vector true hb).trans (m.pushed_memory_of_ne h₁ h₂)

theorem accepted_host (m : Machine δ) : m.accepted.host = m.host := by
  unfold accepted
  split
  · rfl
  · exact m.polled.entered_host _ _

theorem accepted_memory_of_ne (m : Machine δ) {b : Word} (hb : b < ioStart)
    (h₁ : m.supervisorSp - 1 ≠ b) (h₂ : m.supervisorSp - 2 ≠ b) :
    m.accepted.memory.get b = m.memory.get b := by
  unfold accepted
  split
  · rfl
  · exact m.polled.entered_memory_of_ne _ _ hb h₁ h₂

theorem pushed_of_below {m : Machine δ} (h : m.PushesBelow) :
    m.pushed = ((m.withCore (m.core.supervisor.descend m.supervisorSp)).stored
      (m.supervisorSp - 1) m.psr.word).stored (m.supervisorSp - 2) m.pc := by
  unfold pushed
  dsimp only
  rw [sp_supervisor, store_of_lt _ _ h.1, store_of_lt _ _ h.2]

theorem pushed_core (m : Machine δ) :
    m.pushed.core = { m.core.supervisor.descend m.supervisorSp with psr := m.pushed.psr } := by
  unfold pushed
  dsimp only
  rw [sp_supervisor, store_core, store_core]
  rfl

theorem pushed_psr {m : Machine δ} (h : m.PushesApart) :
    m.pushed.psr = m.psr.withPrivileged true := by
  have hs : m.core.supervisor.psr = m.psr := by
    unfold Core.supervisor
    split <;> rfl
  unfold pushed
  dsimp only
  rw [sp_supervisor, store_psr_of_ne _ _ h.2, store_psr_of_ne _ _ h.1]
  exact congrArg (Psr.withPrivileged · true) hs

theorem entered_core (m : Machine δ) (vector : Word) (priority : Option (BitVec 3)) :
    (m.entered vector priority).core =
      { m.core.supervisor.descend m.supervisorSp with
        pc := (m.entered vector priority).pc
        psr := m.pushed.psr.entered priority } := by
  have loaded := (m.poised priority).load_core vector true
  have poised : (m.poised priority).core =
      { m.pushed.core with psr := m.pushed.psr.entered priority } := rfl
  calc (m.entered vector priority).core
      = { (m.poised priority).core with pc := (m.entered vector priority).pc } := by
        rw [← loaded]
        rfl
    _ = _ := by rw [poised, m.pushed_core]

theorem entered_sp (m : Machine δ) (vector : Word) (priority : Option (BitVec 3)) :
    (m.entered vector priority).reg stackReg = m.supervisorSp - 2 :=
  (congrArg Core.sp (m.entered_core vector priority)).trans (Bank.get_set_self _ _ _)

theorem entered_savedSp (m : Machine δ) (vector : Word) (priority : Option (BitVec 3)) :
    (m.entered vector priority).savedSp =
      if m.psr.privileged then m.savedSp else m.reg stackReg := by
  refine (congrArg Core.savedSp (m.entered_core vector priority)).trans ?_
  change (if m.psr.privileged then m.core else m.core.swap).savedSp = _
  split <;> rfl

theorem entered_privileged_of_apart {m : Machine δ} (h : m.PushesApart) (vector : Word)
    (priority : Option (BitVec 3)) : (m.entered vector priority).psr.privileged = true :=
  calc (m.entered vector priority).psr.privileged
      = (m.pushed.psr.entered priority).privileged :=
        congrArg (fun c => c.psr.privileged) (m.entered_core vector priority)
    _ = m.pushed.psr.privileged := Psr.privileged_entered _ _
    _ = true := by rw [pushed_psr h, Psr.privileged_withPrivileged]

section Entered

variable {m : Machine δ} (h : m.PushesBelow) (vector : Word) (priority : Option (BitVec 3))

include h

theorem entered_privileged : (m.entered vector priority).psr.privileged = true :=
  entered_privileged_of_apart h.apart vector priority

theorem entered_pushed_pc : (m.entered vector priority).memory.get (m.supervisorSp - 2) = m.pc := by
  refine (load_memory_of_lt (m.poised priority) vector true h.2).trans ?_
  change m.pushed.memory.get _ = _
  rw [pushed_of_below h]
  exact stored_memory_self _ _ _

theorem entered_pushed_psr :
    (m.entered vector priority).memory.get (m.supervisorSp - 1) = m.psr.word := by
  have hne : m.supervisorSp - 2 ≠ m.supervisorSp - 1 := by bv_omega
  refine (load_memory_of_lt (m.poised priority) vector true h.1).trans ?_
  change m.pushed.memory.get _ = _
  rw [pushed_of_below h, stored_memory_of_ne _ _ hne]
  exact stored_memory_self _ _ _

end Entered

/-- The machine stands on the frame that an entry from another machine pushed. -/
structure OnFrame (s m : Machine δ) : Prop where
  sp : m.reg stackReg = s.supervisorSp - 2
  savedSp : m.savedSp = if s.psr.privileged then s.savedSp else s.reg stackReg
  pc : m.memory.get (s.supervisorSp - 2) = s.pc
  psr : m.memory.get (s.supervisorSp - 1) = s.psr.word

theorem entered_onFrame {m : Machine δ} (h : m.PushesBelow) (vector : Word)
    (priority : Option (BitVec 3)) : OnFrame m (m.entered vector priority) where
  sp := m.entered_sp vector priority
  savedSp := m.entered_savedSp vector priority
  pc := entered_pushed_pc h vector priority
  psr := entered_pushed_psr h vector priority

/-! ### Returns -/

theorem popped_host (m : Machine δ) : m.popped.host = m.host :=
  (load_host _ (m.core.sp + 1) true).trans (m.load_host m.core.sp true)

theorem returned_host (m : Machine δ) : m.returned.host = m.host := by
  unfold returned
  split
  · exact m.popped_host
  · exact m.popped_host

theorem popped_of_lt {m : Machine δ} (h : m.reg stackReg < ioStart)
    (h' : m.reg stackReg + 1 < ioStart) :
    m.popped = { m.setReg stackReg (m.reg stackReg + 2) with
      pc := m.memory.get (m.reg stackReg)
      psr := ⟨m.memory.get (m.reg stackReg + 1)⟩ } := by
  unfold popped
  change m.core.sp < ioStart at h
  change m.core.sp + 1 < ioStart at h'
  rw [load_of_lt m true h]
  dsimp only
  rw [load_of_lt m true h']
  rfl

theorem popped_core (m : Machine δ) :
    m.popped.core = { m.core.setReg stackReg (m.core.sp + 2) with
      pc := m.popped.pc
      psr := m.popped.psr } := by
  have target := m.load_core m.core.sp true
  have status := (m.load m.core.sp true).machine.load_core (m.core.sp + 1) true
  calc m.popped.core
      = { ((m.load m.core.sp true).machine.load (m.core.sp + 1) true).machine.core.setReg stackReg
            (m.core.sp + 2) with
          pc := m.popped.pc
          psr := m.popped.psr } := rfl
    _ = _ := by rw [status, target]

theorem popped_sp (m : Machine δ) : m.popped.core.sp = m.core.sp + 2 := by
  rw [m.popped_core]
  exact Bank.get_set_self _ _ _

theorem popped_savedSp (m : Machine δ) : m.popped.core.savedSp = m.savedSp :=
  congrArg Core.savedSp m.popped_core

/- A return exchanges the stack pointers if the status that it pops is one of user mode, whatever the
mode was before. -/
theorem returned_core (m : Machine δ) :
    m.returned.core = if m.returned.psr.privileged then m.popped.core else m.popped.core.swap := by
  have psr : m.returned.psr = m.popped.psr := by
    unfold returned
    split <;> rfl
  rw [psr]
  unfold returned
  split <;> rfl

/- What a return brings back of the machine that was interrupted. -/
structure Resumed (s m : Machine δ) : Prop where
  pc : m.pc = s.pc
  psr : m.psr = s.psr
  sp : m.reg stackReg = s.reg stackReg
  savedSp : m.savedSp = s.savedSp

theorem OnFrame.popped {s m : Machine δ} (h : s.PushesBelow) (hm : OnFrame s m) :
    m.popped = { m.setReg stackReg s.supervisorSp with pc := s.pc, psr := s.psr } := by
  have h₁ : s.supervisorSp - 2 + 1 = s.supervisorSp - 1 := by bv_omega
  have h₂ : s.supervisorSp - 2 + 2 = s.supervisorSp := by bv_omega
  have hlow : m.reg stackReg < ioStart := by
    rw [hm.sp]
    exact h.2
  have hhigh : m.reg stackReg + 1 < ioStart := by
    rw [hm.sp, h₁]
    exact h.1
  rw [popped_of_lt hlow hhigh, hm.sp, h₁, h₂, hm.pc, hm.psr]

theorem OnFrame.returned_memory {s m : Machine δ} (h : s.PushesBelow) (hm : OnFrame s m) :
    m.returned.memory = m.memory := by
  unfold returned
  rw [hm.popped h]
  split <;> rfl

theorem OnFrame.returned {s m : Machine δ} (h : s.PushesBelow) (hm : OnFrame s m) :
    Resumed s m.returned := by
  have hsp : (m.registers.set stackReg s.supervisorSp).get stackReg = s.supervisorSp :=
    Bank.get_set_self _ _ _
  have hsaved := hm.savedSp
  unfold Machine.returned
  rw [hm.popped h]
  dsimp only
  unfold supervisorSp at hsp ⊢
  split
  · next hp =>
    rw [if_pos hp] at hsaved hsp
    exact ⟨rfl, rfl, hsp, hsaved⟩
  · next hp =>
    rw [if_neg hp] at hsaved hsp
    exact ⟨rfl, rfl, (Bank.get_set_self _ _ _).trans hsaved, hsp⟩

end Lc3.Machine
