import Lc3.Device.Peripheral
import Lc3.Proofs.Confinement
import Lc3.Proofs.Rollback
import Lc3.Proofs.Simulation

/-!
# What a program in user mode cannot learn

Machines in user mode that agree on the registers, the control bit, the flags and user space look
alike to their program (`SameView`). The memory outside user space, the stack pointer saved for the
supervisor and the devices may differ: an access that the program may make lands in user space, and
one that it may not make faults before it reads. So both machines take the same steps, up to the same
fault, as long as neither enters a handler (`steps_noninterference`).
-/

namespace Lc3

variable {δ : Type}

namespace Machine

/-! ### Views -/

/-- The machines agree on all that a program in user mode can see. -/
structure SameView (m m' : Machine δ) : Prop where
  registers : m'.registers = m.registers
  pc : m'.pc = m.pc
  psr : m'.psr = m.psr
  clock : m'.clock = m.clock
  flags : m'.flags = m.flags
  condition : m'.condition = m.condition
  memory : ∀ a, inUserSpace a = true → m'.memory.get a = m.memory.get a

/- Machines with the same view, both held to user mode. -/
def Twins (m m' : Machine δ) : Prop := m.Restricted ∧ SameView m m'

namespace SameView

variable {m m' : Machine δ}

theorem front (h : SameView m m') : m'.core.front = m.core.front := by
  change (⟨m'.registers, m'.pc, m'.psr⟩ : Front) = ⟨m.registers, m.pc, m.psr⟩
  rw [h.registers, h.pc, h.psr]

theorem access (h : SameView m m') : m'.access = m.access := by
  unfold Machine.access
  rw [h.psr, h.flags]

theorem restricted (h : SameView m m') (r : m.Restricted) : m'.Restricted where
  user := by
    rw [h.psr]
    exact r.user
  strict := by
    rw [h.flags]
    exact r.strict

theorem stored (h : SameView m m') (a w : Word) : SameView (m.stored a w) (m'.stored a w) where
  registers := h.registers
  pc := h.pc
  psr := h.psr
  clock := h.clock
  flags := h.flags
  condition := h.condition
  memory b hb := by
    change (m'.memory.set a w).get b = (m.memory.set a w).get b
    rw [Bank.get_set, Bank.get_set, h.memory b hb]

end SameView

/-! ### Parts of a step -/

namespace Twins

variable {m m' : Machine δ}

/- A change of the registers that a program has, computed from what it sees. -/
theorem move (h : Twins m m') (registers : Front → RegFile) (pc : Front → Word) :
    Twins { m with registers := registers m.core.front, pc := pc m.core.front }
      { m' with registers := registers m'.core.front, pc := pc m'.core.front } := by
  obtain ⟨r, same⟩ := h
  rw [same.front]
  exact ⟨⟨r.user, r.strict⟩, ⟨rfl, rfl, same.psr, same.clock, same.flags, same.condition, same.memory⟩⟩

theorem marked (h : Twins m m') : Twins m.marked m'.marked :=
  ⟨⟨h.1.user, h.1.strict⟩, ⟨h.2.registers, h.2.pc, h.2.psr, h.2.clock, h.2.flags, h.2.condition,
    h.2.memory⟩⟩

theorem deliver (h : Twins m m') (r : Reg) (w : Word) :
    Twins { m.setReg r w with psr := m.psr.record w }
      { m'.setReg r w with psr := m'.psr.record w } := by
  obtain ⟨held, same⟩ := h
  have user : (m.psr.record w).privileged = false :=
    (Psr.privileged_of_upper (Psr.upper_record m.psr w)).trans held.user
  refine ⟨⟨user, held.strict⟩, ⟨?_, same.pc, ?_, same.clock, same.flags, same.condition, same.memory⟩⟩
  · exact congrArg (·.set r w) same.registers
  · exact congrArg (·.record w) same.psr

end Twins

end Machine

open Machine in
theorem Paired.access {p p' : Progress δ} (h : Paired Twins p p') :
    p'.machine.access = p.machine.access := h.1.2.access

variable [Device δ]

namespace Machine.Twins

variable {m m' : Machine δ}

theorem word (h : Twins m m') {a : Word} (permitted : m.access.permits a = true) :
    (m'.load a true).word = (m.load a true).word := by
  have ha := h.1.permits permitted
  have low := lt_ioStart_of_inUserSpace ha
  rw [m.load_of_lt true low, m'.load_of_lt true low]
  exact h.2.memory a ha

theorem loaded {p p' : Progress δ} (h : Paired Twins p p') {a : Word}
    (permitted : p.machine.access.permits a = true) : Paired Twins (p.loaded a) (p'.loaded a) := by
  have ha := lt_ioStart_of_inUserSpace (h.1.1.permits permitted)
  unfold Progress.loaded
  rw [p.machine.load_of_lt true ha, p'.machine.load_of_lt true ha, h.2]
  exact ⟨h.1, rfl⟩

theorem stored {p p' : Progress δ} (h : Paired Twins p p') {a : Word} (w : Word)
    (permitted : p.machine.access.permits a = true) :
    Paired Twins (p.stored a w) (p'.stored a w) := by
  have ha := lt_ioStart_of_inUserSpace (h.1.1.permits permitted)
  unfold Progress.stored
  rw [p.machine.store_of_lt w ha, p'.machine.store_of_lt w ha, h.2]
  exact ⟨⟨⟨h.1.1.user, h.1.1.strict⟩, h.1.2.stored a w⟩, rfl⟩

theorem fetched {p p' : Progress δ} (h : Paired Twins p p')
    (permitted : p.machine.access.permits p.machine.pc = true) :
    p'.machine.upcoming = p.machine.upcoming ∧ Paired Twins p.fetched p'.fetched := by
  have hu : p'.machine.upcoming = p.machine.upcoming := by
    unfold Machine.upcoming
    rw [h.1.2.pc, h.1.word permitted]
  have hl := loaded h permitted
  have hm : Paired Twins p.marked p'.marked := ⟨h.1.marked, h.2⟩
  refine ⟨hu, ?_, ?_⟩
  · unfold Progress.fetched
    rw [Machine.fetched_eq, Machine.fetched_eq, h.1.2.pc]
    exact (loaded hm permitted).1.move (·.registers) fun c => c.pc + 1
  · unfold Progress.fetched
    rw [hu, h.1.2.pc, hl.2]

open Lc3.Cycle in
theorem compositional :
    Compositional fun (_ : Type) (c : Cycle δ _) => Agrees (Paired Twins) c where
  pure := agrees_pure
  throw := agrees_throw
  bind := agrees_bind
  look g := agrees_look fun _ _ h => congrArg g h.1.2.front
  move registers pc := agrees_update fun _ _ h => ⟨h.1.move registers pc, h.2⟩
  deliver r w := agrees_update fun _ _ h => ⟨h.1.deliver r w, h.2⟩
  read pc a := agrees_guarded (run_loadPermitted pc a) (fun _ _ h => by rw [h.access])
    (fun _ _ h permitted => h.1.word permitted) fun _ _ h permitted => loaded h permitted
  write pc a w := agrees_guarded (run_storePermitted pc a w) (fun _ _ h => by rw [h.access])
    (fun _ _ _ _ => rfl) fun _ _ h permitted => stored h w permitted
  leave pc := agrees_guarded (run_leave pc) (fun _ _ h => by rw [h.access]) (fun _ _ _ _ => rfl) <| by
    intro p p' h privileged
    unfold Machine.access at privileged
    rw [h.1.1.user, h.1.1.strict] at privileged
    cases privileged

open Lc3.Cycle in
/- A trap that is not dispatched halts at once, and all other instructions see user space only. -/
theorem perform {p p' : Progress δ} (h : Paired Twins p p')
    (direct : p.machine.access.permits p.machine.pc = true → p.machine.dispatched? = none) :
    Ends (Paired Twins) ((perform p.machine.pc).run p) ((perform p'.machine.pc).run p') := by
  have marked : Paired Twins p.marked p'.marked := ⟨h.1.marked, h.2⟩
  rw [run_perform, run_perform, h.access, h.1.2.pc]
  by_cases permitted : p.machine.access.permits p.machine.pc = true
  · obtain ⟨hu, related⟩ := fetched h permitted
    rw [if_pos permitted, if_pos permitted, hu]
    by_cases legal : p.machine.upcoming.isLegal = true
    · rw [if_pos legal, if_pos legal]
      by_cases trap : ∃ v, p.machine.upcoming = .trap v
      · obtain ⟨v, hv⟩ := trap
        have hf : p.fetched.machine.flags = p.machine.flags :=
          congrArg Host.flags p.machine.fetched_host
        have halts := dispatched_none (direct permitted) hv
        rw [hv, run_execute_trap, run_execute_trap, related.1.2.flags, hf, if_pos halts, if_pos halts]
        exact .ok related
      · exact compositional.execute _ _ (fun v hv => absurd ⟨v, hv⟩ trap) _ _ related
    · rw [if_neg legal, if_neg legal, h.1.word permitted]
      exact .error (loaded marked permitted)
  · rw [if_neg permitted, if_neg permitted]
    exact .error marked

end Machine.Twins

/-! ### Steps -/

namespace Machine

variable {m m' : Machine δ}

theorem Restricted.step (r : m.Restricted) (calm : ¬m.entersHandler) :
    m.step.machine.Restricted := by
  by_cases ready : m.condition = .ready
  · exact (step_confined ready r calm).1.restricted r
  · rw [step_of_not_ready ready]
    exact r

theorem SameView.completed {m m' : Machine δ} (h : SameView m m') (halts : Bool) :
    SameView (m.completed halts) (m'.completed halts) where
  registers := h.registers
  pc := h.pc
  psr := h.psr
  clock := h.clock
  flags := h.flags
  condition := by
    change (if halts || !m'.clock then _ else m'.condition) =
      if halts || !m.clock then _ else m.condition
    rw [h.clock, h.condition]
  memory := h.memory

/- The cells that a roll back writes may differ between the two machines. That tells the program
nothing, because each holds what it held before the step. -/
theorem SameView.undone {q q' : Progress δ} (h : SameView m m') (hq : SameView q.machine q'.machine)
    (remains : Remains m q) (remains' : Remains m' q') (f : Fault) :
    SameView { m.rollBack q.machine with condition := .faulted f }
      { m'.rollBack q'.machine with condition := .faulted f } where
  registers := h.registers
  pc := h.pc
  psr := h.psr
  clock := h.clock
  flags := hq.flags
  condition := rfl
  memory a ha := by
    have hio := lt_ioStart_of_inUserSpace ha
    calc (m'.rollBack q'.machine).memory.get a
        = m'.memory.get a := remains'.rollBack_memory hio
      _ = m.memory.get a := h.memory a ha
      _ = (m.rollBack q.machine).memory.get a := (remains.rollBack_memory hio).symm

theorem SameView.step_of_ready (ready : m.condition = .ready) (r : m.Restricted)
    (h : SameView m m') (calm : ¬m.entersHandler) (calm' : ¬m'.entersHandler) :
    m'.step.result = m.step.result ∧ m'.step.events = m.step.events ∧
      SameView m.step.machine m'.step.machine := by
  have ready' := h.condition.trans ready
  obtain ⟨ha, direct⟩ := accepted_of_calm ready calm
  obtain ⟨ha', -⟩ := accepted_of_calm ready' calm'
  have polled : Twins m.polled m'.polled := ⟨⟨r.user, r.strict⟩,
    ⟨h.registers, h.pc, h.psr, h.clock, h.flags, h.condition, h.memory⟩⟩
  have start : Paired Twins (⟨m.polled, #[]⟩ : Progress δ) ⟨m'.polled, #[]⟩ := ⟨polled, rfl⟩
  have ends := Twins.perform start direct
  have remains := Remains.accepted m
  have remains' := Remains.accepted m'
  have hm : m.accepted = m.polled := by rw [← Progress.accepted_machine ⟨m, #[]⟩, ha]
  have hm' : m'.accepted = m'.polled := by rw [← Progress.accepted_machine ⟨m', #[]⟩, ha']
  rw [ha] at remains
  rw [ha'] at remains'
  have hpc : m'.polled.pc = m.polled.pc := h.pc
  rw [m.step_of_ready ready, m'.step_of_ready ready', ha, ha', hm, hm']
  obtain ⟨halts, q, q', hp, hp', related⟩ | ⟨f, q, q', hp, hp', related⟩ := ends.cases
  · rw [hp, hp', hpc]
    obtain ⟨result, events⟩ := related.concluded related.1.2.clock m.polled.pc halts
    exact ⟨result, events, related.1.2.completed halts⟩
  · rw [hp, hp']
    have same := h.undone related.1.2 (remains.perform hp) (remains'.perform hp') f
    exact ⟨rfl, related.undone m m' f, same⟩

/-- Machines with the same view take a step in the same way if neither enters a handler. -/
theorem SameView.step (r : m.Restricted) (h : SameView m m') (calm : ¬m.entersHandler)
    (calm' : ¬m'.entersHandler) :
    m'.step.result = m.step.result ∧ m'.step.events = m.step.events ∧
      SameView m.step.machine m'.step.machine := by
  by_cases ready : m.condition = .ready
  · exact h.step_of_ready ready r calm calm'
  · obtain ⟨result, events, here, here'⟩ := step_of_stopped ready h.condition
    rw [here, here']
    exact ⟨result, events, h⟩

/-! ### Runs -/

/-- A program in user mode learns nothing of what it may not access. Machines that agree on its view
take the same steps, with the same results and the same log, and agree on the view afterwards, as long
as neither enters a handler. -/
theorem steps_noninterference {m m' : Machine δ} (user : m.psr.privileged = false)
    (strict : m.flags.ignorePrivilege = false) (same : SameView m m') (n : Nat)
    (calm : ∀ i < n, ¬(m.after i).entersHandler ∧ ¬(m'.after i).entersHandler) :
    (∀ i < n, (m'.after i).step.result = (m.after i).step.result ∧
        (m'.after i).step.events = (m.after i).step.events) ∧
      SameView (m.after n) (m'.after n) := by
  suffices h : (m.after n).Restricted ∧ (∀ i < n, (m'.after i).step.result = (m.after i).step.result ∧
      (m'.after i).step.events = (m.after i).step.events) ∧ SameView (m.after n) (m'.after n) from h.2
  induction n with
  | zero => exact ⟨⟨user, strict⟩, fun i hi => absurd hi (Nat.not_lt_zero i), same⟩
  | succ n ih =>
    obtain ⟨held, results, view⟩ := ih fun i hi => calm i (Nat.lt_succ_of_lt hi)
    obtain ⟨calmHere, calmHere'⟩ := calm n (Nat.lt_succ_self n)
    obtain ⟨result, events, view'⟩ := view.step held calmHere calmHere'
    rw [after_succ, after_succ]
    refine ⟨held.step calmHere, ?_, view'⟩
    intro i hi
    obtain earlier | rfl := Nat.lt_succ_iff_lt_or_eq.mp hi
    · exact results i earlier
    · exact ⟨result, events⟩

/- A program that counts, stores the count, and then reads a word of the supervisor through a
pointer. The stack pointer saved for the supervisor may lie in user space. -/
def snooper (secret savedSp : Word) (queue : List Byte) : Machine Peripheral where
  memory := (((((Bank.fill 16 0).set 0x3000 0x1021).set 0x3001 0x3002).set 0x3002 0xA202).set
    0x3005 0x0200).set 0x0200 secret
  registers := Bank.fill 3 0
  savedSp := savedSp
  flags := { ignorePrivilege := false }
  bus := { keyboard := { queue := queue } }

theorem steps_noninterference_snooper :
    let m := snooper 0x1234 0x4000 []
    let m' := snooper 0x5678 0x3005 [0x61]
    (m.after 2).step.result = .faulted (.accessViolation 0x3002 0x0200) ∧
      (m'.after 2).step.result = (m.after 2).step.result ∧ SameView (m.after 3) (m'.after 3) := by
  have same : SameView (snooper 0x1234 0x4000 []) (snooper 0x5678 0x3005 [0x61]) := {
    registers := rfl
    pc := rfl
    psr := rfl
    clock := rfl
    flags := rfl
    condition := rfl
    memory := by
      intro a ha
      have hne : (0x0200 : Word) ≠ a := by
        rintro rfl
        exact absurd ha (by decide)
      exact (Bank.get_set_of_ne _ _ hne).trans (Bank.get_set_of_ne _ _ hne).symm }
  obtain ⟨results, view⟩ := steps_noninterference rfl rfl same 3 (by decide +kernel)
  exact ⟨by decide +kernel, (results 2 (by decide)).1, view⟩

end Machine

end Lc3
