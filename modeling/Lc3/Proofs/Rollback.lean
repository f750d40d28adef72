import Lc3.Device.Peripheral
import Lc3.Proofs.Faults
import Lc3.Proofs.Handlers

/-!
# What a fault leaves behind

A step that faults is undone as a whole: all that its machine holds is as it was before the step,
but for the memory-mapped words that accesses refresh, and for the devices, and the address that is
noted as that of the instruction is the program counter. What happened to the
devices is in the log of the step: they were asked for interrupts once, and then saw the logged
accesses in their order (`Bus.replay`). Nothing else happened to them, so none was told of a
completed instruction (`step_faulted_rollBack`).
-/

namespace Lc3

variable {δ : Type} [Device δ]

/-! ### The devices in the log -/

namespace Bus

/-- The devices after an event of a step. Only an access at a port does something to them. -/
def after (b : Bus δ) : Event → Bus δ
  | .read a => if ReachesBus a then (b.read a true).bus else b
  | .wrote a w => if ReachesBus a then (b.write a w).2 else b
  | _ => b

/-- The devices after the events of a log. -/
def replay (b : Bus δ) (events : Array Event) : Bus δ := events.foldl after b

theorem replay_push (b : Bus δ) (events : Array Event) (e : Event) :
    b.replay (events.push e) = (b.replay events).after e :=
  Array.foldl_push

theorem replay_append_silent (b : Bus δ) (events : Array Event) {silent : List Event}
    (h : ∀ e ∈ silent, ∀ c : Bus δ, c.after e = c) : b.replay (events ++ silent) = b.replay events := by
  induction silent generalizing events with
  | nil => rw [Array.appendList_nil]
  | cons e es ih =>
    have he := h e (List.mem_cons_self ..)
    rw [Array.appendList_cons, ih _ (fun x hx => h x (List.mem_cons_of_mem _ hx)), replay_push, he]

/- A read tells of the byte that it consumed, which has happened already. -/
theorem read_events_silent (b : Bus δ) (a : Word) (effects : Bool) :
    ∀ e ∈ (b.read a effects).events, ∀ c : Bus δ, c.after e = c := by
  intro e he c
  unfold read at he
  split at he
  · cases he
  · dsimp only at he
    split at he
    · cases List.mem_singleton.mp he
      rfl
    · cases he
  · cases he
  · cases he

end Bus

namespace Machine

theorem load_events_silent (m : Machine δ) (a : Word) (effects : Bool) :
    ∀ e ∈ (m.load a effects).events, ∀ c : Bus δ, c.after e = c := by
  intro e he c
  unfold load at he
  split at he
  · cases he
  · split at he
    · cases he
    · split at he
      · dsimp only at he
        split at he
        · exact Bus.read_events_silent _ _ _ e he c
        · exact Bus.read_events_silent _ _ _ e he c
      · cases he

end Machine

/-! ### Logs that account for the devices -/

/- All that happened to the devices is in the log. -/
def Accounts (b : Bus δ) (p : Progress δ) : Prop := p.machine.bus = b.replay p.events

namespace Accounts

variable {b : Bus δ} {p : Progress δ}

theorem loaded (h : Accounts b p) (a : Word) : Accounts b (p.loaded a) := by
  unfold Accounts at h ⊢
  calc (p.machine.load a true).machine.bus
      = p.machine.bus.after (.read a) := p.machine.load_bus a true
    _ = b.replay (p.events.push (.read a)) := by rw [h, Bus.replay_push]
    _ = b.replay (p.loaded a).events :=
        (Bus.replay_append_silent _ _ (p.machine.load_events_silent a true)).symm

theorem stored (h : Accounts b p) (a w : Word) : Accounts b (p.stored a w) := by
  unfold Accounts at h ⊢
  calc (p.machine.store a w).bus
      = p.machine.bus.after (.wrote a w) := p.machine.store_bus a w
    _ = b.replay (p.events.push (.wrote a w)) := by rw [h, Bus.replay_push]

theorem fetched (h : Accounts b p) : Accounts b p.fetched := by
  unfold Accounts Progress.fetched
  rw [Bus.replay_push]
  exact h.loaded p.machine.pc

theorem entered (h : Accounts b p) (vector : Word) (priority : Option (BitVec 3)) :
    Accounts b (p.entered vector priority) := by
  let c := p.machine.core.supervisor
  have hc : Accounts b ⟨p.machine.withCore (c.descend c.sp), p.events⟩ := h
  have hs := (hc.stored (c.sp - 1) p.machine.psr.word).stored (c.sp - 2) p.machine.pc
  have hp : Accounts b ⟨p.machine.poised priority, _⟩ := hs
  exact hp.loaded vector

theorem accepted (m : Machine δ) : Accounts m.bus.poll.2 (Progress.accepted ⟨m, #[]⟩) := by
  unfold Progress.accepted
  split
  · rfl
  · next i _ => exact Accounts.entered (p := Progress.noted ⟨m.polled, #[]⟩ (.interrupted i)) rfl _ _

end Accounts

/-! ### A fault -/

namespace Machine

/- What a faulted step has left of the machine it started from, before it is rolled back. -/
structure Remains (m : Machine δ) (p : Progress δ) : Prop where
  host : p.machine.host = m.host
  memory : ∀ b, b < ioStart → m.supervisorSp - 1 ≠ b → m.supervisorSp - 2 ≠ b →
    p.machine.memory.get b = m.memory.get b
  devices : Accounts m.bus.poll.2 p

namespace Remains

variable {m : Machine δ} {p : Progress δ}

theorem accepted (m : Machine δ) : Remains m (Progress.accepted ⟨m, #[]⟩) where
  host := by
    rw [Progress.accepted_machine]
    exact m.accepted_host
  memory b hb h₁ h₂ := by
    rw [Progress.accepted_machine]
    exact m.accepted_memory_of_ne hb h₁ h₂
  devices := Accounts.accepted m

theorem marked (h : Remains m p) : Remains m p.marked where
  host := h.host
  memory := h.memory
  devices := h.devices

theorem loaded (h : Remains m p) (a : Word) : Remains m (p.loaded a) where
  host := (p.machine.load_host a true).trans h.host
  memory b hb h₁ h₂ := (p.machine.load_memory_of_lt a true hb).trans (h.memory b hb h₁ h₂)
  devices := h.devices.loaded a

theorem fetched (h : Remains m p) : Remains m p.fetched where
  host := (h.loaded p.machine.pc).host
  memory := (h.loaded p.machine.pc).memory
  devices := h.devices.fetched

theorem perform (h : Remains m p) {f : Fault} {q : Progress δ}
    (hq : (Cycle.perform p.machine.pc).run p = .error f q) : Remains m q := by
  rcases Cycle.perform_error hq with rfl | rfl | rfl | ⟨a, -, rfl⟩
  · exact h.marked
  · exact h.marked.loaded _
  · exact h.fetched
  · exact h.fetched.loaded a

end Remains

omit [Device δ] in
theorem rollBack_eq {m after : Machine δ} (h : after.host = m.host) :
    m.rollBack after =
      { m with memory := (m.rollBack after).memory, fetchPc := m.pc, bus := after.bus } := by
  cases m
  cases after
  cases h
  rfl

/- The two cells that an entry may have pushed to are put back, and no other one has changed. -/
theorem Remains.rollBack_memory {m : Machine δ} {p : Progress δ} (h : Remains m p) {b : Word}
    (hb : b < ioStart) : (m.rollBack p.machine).memory.get b = m.memory.get b := by
  change ((p.machine.memory.set (m.supervisorSp - 1) _).set (m.supervisorSp - 2) _).get b = _
  rw [Bank.get_set, Bank.get_set]
  split
  · next h₂ => rw [h₂]
  · next h₂ =>
    split
    · next h₁ => rw [h₁]
    · next h₁ => exact h.memory b hb h₁ h₂

/-- A step of a ready machine that faults is undone: the machine is as it was, but for its condition,
the words kept for memory-mapped addresses, and the devices, and the program counter is noted as the
address of the instruction. The devices were asked for interrupts and saw the accesses in the log of
the step, and nothing else happened to them. -/
theorem step_faulted_rollBack (m : Machine δ) (f : Fault) (ready : m.condition = .ready)
    (faulted : m.step.result = .faulted f) :
    m.step.machine =
        { m with
          condition := .faulted f
          memory := m.step.machine.memory
          fetchPc := m.pc
          bus := m.bus.poll.2.replay m.step.events } ∧
      ∀ a, a < ioStart → m.step.machine.memory.get a = m.memory.get a := by
  obtain ⟨halts, q, -, -, -, hs⟩ | ⟨e, q, hq, hs⟩ := m.step_cases ready
  · rw [hs] at faulted
    unfold Progress.concluded at faulted
    dsimp only at faulted
    split at faulted <;> cases faulted
  · rw [hs] at faulted ⊢
    cases faulted
    rw [← Progress.accepted_machine ⟨m, #[]⟩] at hq
    have remains := (Remains.accepted m).perform hq
    have devices : q.machine.bus = m.bus.poll.2.replay (q.events.push (.faulted f)) := by
      rw [Bus.replay_push]
      exact remains.devices
    constructor
    · unfold Progress.undone
      dsimp only
      rw [rollBack_eq remains.host, devices]
    · intro a ha
      exact remains.rollBack_memory ha

/- A program with a key waiting, whose interrupt handler is no instruction. -/
def brokenHandler : Machine Peripheral where
  memory := ((Bank.fill 16 0).set 0x0180 0x1000).set 0x1000 0xD000
  registers := Bank.fill 3 0
  bus := { keyboard := { queue := [0x61], interrupts := true } }

/- The step enters the handler, with both words pushed, before the fault undoes it. -/
theorem step_faulted_rollBack_brokenHandler :
    let fault : Fault := .illegalInstruction 0x1000 0xD000
    brokenHandler.step.events =
        #[.interrupted ⟨0x80, 4⟩, .wrote 0x2FFF 0x8002, .wrote 0x2FFE 0x3000, .read 0x0180,
          .read 0x1000, .faulted fault] ∧
      brokenHandler.step.machine =
        { brokenHandler with
          condition := .faulted fault
          memory := brokenHandler.step.machine.memory
          fetchPc := brokenHandler.pc
          bus := brokenHandler.bus.poll.2.replay brokenHandler.step.events } ∧
      ∀ a, a < ioStart → brokenHandler.step.machine.memory.get a = brokenHandler.memory.get a :=
  ⟨rfl, step_faulted_rollBack brokenHandler (.illegalInstruction 0x1000 0xD000) rfl rfl⟩

end Machine

end Lc3
