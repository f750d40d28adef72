import Lc3.Proofs.Confinement
import Lc3.Proofs.Refusals

/-!
# What an instruction changes

An instruction other than a trap or a return changes little (`Effects`): one register at most, one cell
of plain memory at most, where a store puts its source, and of the status the condition codes only,
which say the sign of what a computation delivered. The control registers change through their
addresses only. Such an instruction reads first and then delivers, stores or jumps, and each of these
three has its lemma (`effects_delivered`, `effects_store`, `effects_moved`); with the fetch in front
they give the effects of a step (`step_effects`).
-/

namespace Lc3

variable {δ : Type}

/-! ### Targets of instructions -/

namespace Instruction

/- The register that the result of a computation is delivered to. -/
def destination? : Instruction → Option Reg
  | .add dst _ _ | .and dst _ _ | .not dst _ | .lea dst _ => some dst
  | .ld dst _ | .ldr dst _ _ | .ldi dst _ => some dst
  | _ => none

/- The register that the instruction may change: a call keeps its way back. -/
def changed? : Instruction → Option Reg
  | .jsr _ => some linkReg
  | i => i.destination?

/- The register whose word is stored. -/
def source? : Instruction → Option Reg
  | .st src _ | .str src _ _ | .sti src _ => some src
  | _ => none

theorem changed?_of_destination? {i : Instruction} {r : Reg} (h : i.destination? = some r) :
    i.changed? = some r := by
  cases i with
  | jsr t => cases h
  | _ => exact h

end Instruction

/-- The status tells the sign of a word: its condition code is n, z or p alone. -/
def Psr.Tells (s : Psr) (w : Word) : Prop :=
  s.codes = if w.toInt < 0 then 0b100 else if w.toInt = 0 then 0b010 else 0b001

theorem Psr.tells_record (s : Psr) (w : Word) : (s.record w).Tells w := by
  unfold Tells
  rw [codes_record, codeOf, BitVec.msb_eq_toInt]
  have zero : w = 0#16 ↔ w.toInt = 0 := by
    rw [← BitVec.toInt_inj]
    rfl
  by_cases negative : w.toInt < 0
  · simp [negative, Psr.negative]
  · by_cases h : w.toInt = 0
    · simp [zero.mpr h, Psr.zero]
    · have h' : ¬w = 0#16 := mt zero.mp h
      simp [negative, h, h', Psr.positive]

namespace Machine

/-! ### Reads in front of an effect -/

/- The machine after reads alone: only devices and their cells may differ. -/
structure OnlyRead (m x : Machine δ) : Prop where
  core : x.core = m.core
  clock : x.clock = m.clock
  memory : ∀ a, a < ioStart → x.memory.get a = m.memory.get a

theorem OnlyRead.refl (m : Machine δ) : OnlyRead m m := ⟨rfl, rfl, fun _ _ => rfl⟩

variable [Device δ] {m x : Machine δ} {i : Instruction}

theorem OnlyRead.load (h : OnlyRead m x) (a : Word) : OnlyRead m (x.load a true).machine where
  core := (x.load_core a true).trans h.core
  clock := by rw [load_frame, h.clock]
  memory b hb := (x.load_memory_of_lt a true hb).trans (h.memory b hb)

/- The address that an instruction stores to, with the program counter behind it. -/
def target? (m : Machine δ) (i : Instruction) : Option Word :=
  if i.source?.isSome then (i.operands m.pc m.reg m.word).getLast? else none

/-! ### Effects -/

/-- What is left of a machine behind whose program counter an instruction was executed. -/
structure Effects (m : Machine δ) (i : Instruction) (m' : Machine δ) : Prop where
  registers : ∀ r, i.changed? ≠ some r → m'.reg r = m.reg r
  savedSp : m'.savedSp = m.savedSp
  memory : ∀ a, a < ioStart → m.target? i ≠ some a → m'.memory.get a = m.memory.get a
  written : ∀ a r, a < ioStart → m.target? i = some a → i.source? = some r →
    m'.memory.get a = m.reg r
  result : ∀ r, i.destination? = some r → m'.psr = m.psr.record (m'.reg r)
  psr : i.destination? = none → m.target? i ≠ some psrAddress → m'.psr = m.psr
  clock : m.target? i ≠ some mcrAddress → m'.clock = m.clock

theorem effects_delivered (h : OnlyRead m x) {r : Reg} (destination : i.destination? = some r)
    (source : i.source? = none) (w : Word) : Effects m i (x.delivered r w) where
  registers s hs := by
    have apart : r ≠ s := fun e => hs (e ▸ Instruction.changed?_of_destination? destination)
    exact (Bank.get_set_of_ne _ _ apart).trans (congrArg (fun c => c.registers.get s) h.core)
  savedSp := congrArg Core.savedSp h.core
  memory a ha _ := h.memory a ha
  written a s _ _ hs := by rw [source] at hs; cases hs
  result s hs := by
    obtain rfl : r = s := Option.some.inj (destination.symm.trans hs)
    have held : (x.delivered r w).reg r = w := Bank.get_set_self _ _ _
    rw [held]
    exact congrArg (fun c => c.psr.record w) h.core
  psr hd _ := by rw [destination] at hd; cases hd
  clock _ := h.clock

theorem effects_store (h : OnlyRead m x) {a : Word} {r : Reg} (target : m.target? i = some a)
    (source : i.source? = some r) (destination : i.destination? = none) :
    Effects m i (x.store a (x.reg r)) where
  registers s _ := by
    refine (congrArg (fun c => c.registers.get s) (x.store_core a _)).trans ?_
    exact congrArg (fun c => c.registers.get s) h.core
  savedSp := (congrArg Core.savedSp (x.store_core a _)).trans (congrArg Core.savedSp h.core)
  memory b hb hne := by
    have apart : a ≠ b := fun e => hne (e ▸ target)
    rw [x.store_memory_of_ne _ apart, h.memory b hb]
  written b s hb ht hs := by
    obtain rfl : a = b := Option.some.inj (target.symm.trans ht)
    obtain rfl : r = s := Option.some.inj (source.symm.trans hs)
    rw [x.store_of_lt _ hb, stored_memory_self]
    exact congrArg (fun c => c.registers.get r) h.core
  result s hs := by rw [destination] at hs; cases hs
  psr _ hne := by
    have apart : a ≠ psrAddress := fun e => hne (e ▸ target)
    rw [x.store_psr_of_ne _ apart]
    exact congrArg Core.psr h.core
  clock hne := by
    have apart : a ≠ mcrAddress := fun e => hne (e ▸ target)
    rw [x.store_clock_of_ne _ apart, h.clock]

theorem effects_moved (destination : i.destination? = none) (source : i.source? = none)
    {registers : RegFile} (kept : ∀ r, i.changed? ≠ some r → registers.get r = m.reg r) (pc : Word) :
    Effects m i { m with registers := registers, pc := pc } where
  registers r hr := kept r hr
  savedSp := rfl
  memory _ _ _ := rfl
  written _ _ _ _ hs := by rw [source] at hs; cases hs
  result _ hr := by rw [destination] at hr; cases hr
  psr _ _ := rfl
  clock _ := rfl

end Machine

variable [Device δ]

/-! ### Instructions -/

namespace Cycle

variable {α : Type} {pc a : Word} {p q : Progress δ} {b : α}

theorem run_of_loadPermitted {k : Word → Cycle δ α}
    (h : (loadPermitted pc a >>= k).run p = .ok b q) :
    (k (p.machine.word a)).run (p.loaded a) = .ok b q := by
  rw [run_bind_of_ite (run_loadPermitted pc a p)] at h
  split at h
  · exact h
  · cases h

theorem run_of_storePermitted {w : Word} {k : Unit → Cycle δ α}
    (h : (storePermitted pc a w >>= k).run p = .ok b q) :
    (k ()).run (p.stored a w) = .ok b q := by
  rw [run_bind_of_ite (run_storePermitted pc a w p)] at h
  split at h
  · exact h
  · cases h

open Machine in
/- Nothing but reads stands in front of the effect of an instruction. -/
theorem execute_effects {i : Instruction} {halts : Bool} (h : (execute pc i).run p = .ok halts q)
    (stays : i ≠ .rti)
    (direct : ∀ v, i = .trap v → v = haltVector ∧ (!p.machine.flags.realHalt) = true) :
    Effects p.machine i q.machine := by
  have still := OnlyRead.refl p.machine
  have linked {t : Operand 11} (r : Reg) (hr : (Instruction.jsr t).changed? ≠ some r) :
      (p.machine.registers.set linkReg p.machine.pc).get r = p.machine.reg r :=
    Bank.get_set_of_ne _ _ fun e => hr (congrArg some e)
  cases i with
  | add d s x =>
    cases x <;>
    · cases h
      exact effects_delivered still rfl rfl _
  | and d s x =>
    cases x <;>
    · cases h
      exact effects_delivered still rfl rfl _
  | not d s =>
    cases h
    exact effects_delivered still rfl rfl _
  | lea d o =>
    cases h
    exact effects_delivered still rfl rfl _
  | ld d o =>
    unfold execute relative at h
    rw [run_bind_of_ok (run_look _ _)] at h
    cases run_of_loadPermitted h
    exact effects_delivered (still.load _) rfl rfl _
  | ldr d r o =>
    unfold execute at h
    rw [run_bind_of_ok (run_look _ _)] at h
    cases run_of_loadPermitted h
    exact effects_delivered (still.load _) rfl rfl _
  | ldi d o =>
    unfold execute relative at h
    rw [run_bind_of_ok (run_look _ _)] at h
    cases run_of_loadPermitted (run_of_loadPermitted h)
    exact effects_delivered ((still.load _).load _) rfl rfl _
  | st s o =>
    unfold execute relative at h
    rw [run_bind_of_ok (run_look _ _), run_bind_of_ok (run_look _ _)] at h
    cases run_of_storePermitted h
    exact effects_store still rfl rfl rfl
  | str s r o =>
    unfold execute at h
    rw [run_bind_of_ok (run_look _ _), run_bind_of_ok (run_look _ _)] at h
    cases run_of_storePermitted h
    exact effects_store still rfl rfl rfl
  | sti s o =>
    unfold execute relative at h
    rw [run_bind_of_ok (run_look _ _)] at h
    have stored := run_of_loadPermitted h
    rw [run_bind_of_ok (run_look _ _)] at stored
    cases run_of_storePermitted stored
    exact effects_store (still.load _) rfl rfl rfl
  | br codes o =>
    cases h
    dsimp only
    split
    · exact effects_moved rfl rfl (fun _ _ => rfl) _
    · exact effects_moved rfl rfl (fun _ _ => rfl) p.machine.pc
  | jsr t =>
    cases t <;>
    · cases h
      exact effects_moved rfl rfl linked _
  | jmp r =>
    cases h
    exact effects_moved rfl rfl (fun _ _ => rfl) _
  | trap v =>
    rw [run_execute_trap, if_pos (direct v rfl)] at h
    cases h
    exact effects_moved rfl rfl (fun _ _ => rfl) p.machine.pc
  | rti => exact absurd rfl stays
  | reserved w => cases h

end Cycle

/-! ### Steps -/

namespace Machine

variable {m : Machine δ}

/- A step without a handler executes the instruction at the program counter and counts it. -/
theorem effects_step (ready : m.condition = .ready) (calm : ¬m.entersHandler)
    (completes : ∀ f, m.step.result ≠ .faulted f) (stays : m.polled.upcoming ≠ .rti) :
    Effects m.polled.fetched m.polled.upcoming m.step.machine := by
  obtain ⟨accepted, direct⟩ := accepted_of_calm ready calm
  have hm : m.accepted = m.polled := by rw [← Progress.accepted_machine ⟨m, #[]⟩, accepted]
  obtain ⟨halts, q, permitted, -, run, step⟩ | ⟨f, q, -, step⟩ := m.step_cases ready
  · rw [hm] at permitted run
    rw [accepted] at run
    have flags : m.polled.fetched.flags = m.polled.flags :=
      congrArg Host.flags m.polled.fetched_host
    have effects : Effects m.polled.fetched m.polled.upcoming q.machine :=
      Cycle.execute_effects run stays fun v hv => by
        change _ ∧ (!m.polled.fetched.flags.realHalt) = true
        rw [flags]
        exact dispatched_none (direct permitted) hv
    rw [step]
    exact { effects with }
  · exact absurd (congrArg Step.result step) (completes f)

/-- A step that enters no handler, completes and is no return changes no register but the one of the
instruction, no cell of plain memory but the one that a store puts its source into, and not the saved
stack pointer. A computation leaves the sign of its result in the condition codes and the rest of the
status as it was; all else reaches the status and the control bit through their addresses only. -/
theorem step_effects (ready : m.condition = .ready) (calm : ¬m.entersHandler)
    (completes : ∀ f, m.step.result ≠ .faulted f) (stays : m.polled.upcoming ≠ .rti) :
    let i := m.polled.upcoming
    let target := m.polled.fetched.target? i
    let m' := m.step.machine
    (∀ r, i.changed? ≠ some r → m'.reg r = m.reg r) ∧ m'.savedSp = m.savedSp ∧
    (∀ a, a < ioStart → target ≠ some a → m'.memory.get a = m.memory.get a) ∧
    (∀ a r, a < ioStart → target = some a → i.source? = some r → m'.memory.get a = m.reg r) ∧
    (∀ r, i.destination? = some r → m'.psr.Tells (m'.reg r) ∧ m'.psr.upper = m.psr.upper) ∧
    (i.destination? = none → target ≠ some psrAddress → m'.psr = m.psr) ∧
    (target ≠ some mcrAddress → m'.clock = m.clock) := by
  have effects := effects_step ready calm completes stays
  have reg (r : Reg) : m.polled.fetched.reg r = m.reg r :=
    congrArg (Bank.get · r) m.polled.fetched_registers
  have psr : m.polled.fetched.psr = m.psr := m.polled.fetched_psr
  have clock : m.polled.fetched.clock = m.clock := by
    show (m.polled.load m.polled.pc true).machine.clock = _
    rw [load_frame]
    rfl
  refine ⟨fun r hr => (effects.registers r hr).trans (reg r),
    effects.savedSp.trans m.polled.fetched_savedSp,
    fun a ha hne => (effects.memory a ha hne).trans (m.polled.fetched_memory_of_lt ha),
    fun a r ha ht hs => (effects.written a r ha ht hs).trans (reg r), fun r hr => ?_,
    fun hd hne => (effects.psr hd hne).trans psr, fun hne => (effects.clock hne).trans clock⟩
  rw [effects.result r hr, psr]
  exact ⟨Psr.tells_record _ _, Psr.upper_record _ _⟩

/- An addition, and a store over the word behind it. -/
theorem step_effects_single :
    (single 0x1021 {}).step.machine.psr.Tells ((single 0x1021 {}).step.machine.reg 0) ∧
      (single 0x3200 {}).step.machine.memory.get 0x3001 = 0 := by
  have added : (single 0x1021 {}).step.result = .retired := by decide +kernel
  have stored : (single 0x3200 {}).step.result = .retired := by decide +kernel
  obtain ⟨-, -, -, -, result, -, -⟩ := step_effects (m := single 0x1021 {}) rfl (by decide +kernel)
    (fun f h => nomatch added.symm.trans h) (by decide +kernel)
  obtain ⟨-, -, -, written, -, -, -⟩ := step_effects (m := single 0x3200 {}) rfl (by decide +kernel)
    (fun f h => nomatch stored.symm.trans h) (by decide +kernel)
  exact ⟨(result 0 (by decide +kernel)).1,
    written 0x3001 1 (by decide) (by decide +kernel) (by decide +kernel)⟩

end Machine

end Lc3
