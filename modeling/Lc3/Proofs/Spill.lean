import Lc3.Device.Peripheral
import Lc3.Proofs.Output
import Lc3.Proofs.Supply

/-!
# What a fault leaves of the keyboard and the display

A faulted step is undone, but for the devices, to which a program may already have written. Up to the
fault only the entry of an interrupt handler writes, and it writes the two words that it pushes. So
the keyboard and the display are as before the step unless one of these is pushed to a register of
theirs, and then they keep it (`Machine.step_faulted_spills`). No read before the fault reaches them.
-/

namespace Lc3

variable {δ : Type}

/-! ### The console -/

/-- The two devices that every machine has. -/
structure Console where
  keyboard : Keyboard
  display : Display
deriving DecidableEq

namespace Console

/- After a write to an address, which one of the devices may have. -/
def write (c : Console) (a w : Word) : Console := ⟨(c.keyboard.write a w).2, (c.display.write a w).2⟩

theorem write_of_ne (c : Console) {a : Word} (hk : a ≠ kbsr) (hd : a ≠ ddr) (w : Word) :
    c.write a w = c := by
  unfold write
  rw [c.keyboard.write_of_ne hk, c.display.write_of_ne hd]

/- After writes one after another. -/
def writes (c : Console) (ws : List (Word × Word)) : Console := ws.foldl (fun c x => c.write x.1 x.2) c

theorem writes_of_ne (c : Console) {ws : List (Word × Word)}
    (h : ∀ x ∈ ws, x.1 ≠ kbsr ∧ x.1 ≠ ddr) : c.writes ws = c := by
  induction ws with
  | nil => rfl
  | cons x ws ih =>
    obtain ⟨hk, hd⟩ := h x List.mem_cons_self
    unfold writes
    rw [List.foldl_cons, c.write_of_ne hk hd]
    exact ih fun y hy => h y (List.mem_cons_of_mem x hy)

end Console

theorem Keyboard.eq_of_supply {k k' : Keyboard} (supply : k'.supply = k.supply)
    (interrupts : k'.interrupts = k.interrupts) : k' = k := by
  have whole (k : Keyboard) : k = { k.supply with interrupts := k.interrupts } := rfl
  rw [whole k, whole k', supply, interrupts]

def Bus.console (b : Bus δ) : Console := ⟨b.keyboard, b.display⟩

variable [Device δ]

/-! ### Accesses -/

namespace Bus

theorem write_console (b : Bus δ) (a w : Word) : (b.write a w).2.console = b.console.write a w := by
  unfold console Console.write
  rw [b.write_keyboard, b.write_display]

theorem read_interrupts (b : Bus δ) (a : Word) (effects : Bool) :
    (b.read a effects).bus.keyboard.interrupts = b.keyboard.interrupts := by
  by_cases here : a = kbdr
  · subst here
    cases effects with
    | false => rw [b.read_inspection]
    | true =>
      cases consumed : b.keyboard.consume? with
      | none => rw [b.read_kbdr_of_none consumed]
      | some x =>
        rw [b.read_kbdr_of_some consumed]
        exact Keyboard.interrupts_of_consume? consumed
  · rw [(b.read_keyboard_of_ne here effects).1]

end Bus

namespace Machine

theorem store_console (m : Machine δ) (a w : Word) :
    (m.store a w).bus.console = m.bus.console.write a w := by
  rw [store_bus]
  split
  · exact m.bus.write_console a w
  · next elsewhere =>
    refine (m.bus.console.write_of_ne ?_ ?_ w).symm
    · rintro rfl
      exact elsewhere (by decide)
    · rintro rfl
      exact elsewhere (by decide)

theorem load_interrupts (m : Machine δ) (a : Word) (effects : Bool) :
    (m.load a effects).machine.bus.keyboard.interrupts = m.bus.keyboard.interrupts := by
  rw [load_bus]
  split
  · exact m.bus.read_interrupts a effects
  · rfl

theorem load_console_of_ne (m : Machine δ) {a : Word} (h : a ≠ kbdr) (effects : Bool) :
    (m.load a effects).machine.bus.console = m.bus.console := by
  unfold Bus.console
  rw [(m.load_keyboard_of_ne h effects).1, m.load_display]

/-! ### The entry of an interrupt handler -/

/- The addresses and the words that the next step pushes before it executes an instruction: where it
accepts an interrupt, the status and the program counter. -/
def pushes (m : Machine δ) : List (Word × Word) :=
  if m.urgent?.isSome then [(m.supervisorSp - 1, m.psr.word), (m.supervisorSp - 2, m.pc)] else []

theorem pushed_console (m : Machine δ) : m.pushed.bus.console =
    m.bus.console.writes [(m.supervisorSp - 1, m.psr.word), (m.supervisorSp - 2, m.pc)] := by
  unfold pushed
  dsimp only
  rw [store_console, store_console, sp_supervisor]
  rfl

theorem accepted_console (m : Machine δ) :
    m.accepted.bus.console = m.bus.console.writes m.pushes := by
  unfold accepted pushes
  cases m.urgent? with
  | none => rfl
  | some i =>
    have vector := (kbdr_ne_interruptVector i.vector).symm
    exact ((m.polled.poised _).load_console_of_ne vector true).trans m.polled.pushed_console

end Machine

/-! ### Faults -/

/- Only reads stand between the acceptance of interrupts and a fault, and none of them consumes. -/
theorem perform_console {p q : Progress δ} {f : Fault}
    (run : (Cycle.perform p.machine.pc).run p = .error f q) :
    q.machine.bus.console = p.machine.bus.console := by
  have still : Still p q := by
    have drawn := perform_drawn p
    rw [run] at drawn
    exact drawn
  have reads : q.machine.bus.keyboard.interrupts = p.machine.bus.keyboard.interrupts ∧
      q.machine.bus.display = p.machine.bus.display := by
    have fetched := And.intro (p.machine.load_interrupts p.machine.pc true)
      (p.machine.load_display p.machine.pc true)
    obtain rfl | rfl | rfl | ⟨a, -, rfl⟩ := Cycle.perform_error run
    · exact ⟨rfl, rfl⟩
    · exact ⟨p.marked.machine.load_interrupts p.machine.pc true,
        p.marked.machine.load_display p.machine.pc true⟩
    · exact fetched
    · exact ⟨(p.fetched.machine.load_interrupts a true).trans fetched.1,
        (p.fetched.machine.load_display a true).trans fetched.2⟩
  unfold Bus.console
  rw [Keyboard.eq_of_supply still.supply reads.1, reads.2]

namespace Machine

/-- A step that faults leaves the keyboard and the display as they were, but for the words that the
entry of an interrupt handler pushed to their registers. -/
theorem step_faulted_spills (m : Machine δ) (f : Fault) (ready : m.condition = .ready)
    (faulted : m.step.result = .faulted f) :
    m.step.machine.bus.console = m.bus.console.writes m.pushes ∧
      ((∀ x ∈ m.pushes, x.1 ≠ kbsr ∧ x.1 ≠ ddr) →
        m.step.machine.bus.console = m.bus.console) := by
  obtain ⟨q, run, step⟩ := step_of_faulted ready faulted
  rw [← Progress.accepted_machine ⟨m, #[]⟩] at run
  have console : m.step.machine.bus.console = m.bus.console.writes m.pushes := by
    calc m.step.machine.bus.console
        = q.machine.bus.console := by rw [step]; rfl
      _ = m.accepted.bus.console := by rw [perform_console run, Progress.accepted_machine]
      _ = m.bus.console.writes m.pushes := m.accepted_console
  exact ⟨console, fun apart => console.trans (m.bus.console.writes_of_ne apart)⟩

/- A key is waiting, the handler is no instruction, and the stack ends at the display. -/
def spillingHandler : Machine Peripheral where
  memory := ((Bank.fill 16 0).set 0x0180 0x0700).set 0x0700 0xD000
  registers := (Bank.fill 3 0).set stackReg 0xFE07
  psr := ⟨0x0002⟩
  bus := { keyboard := { queue := [0x7A], interrupts := true } }

/- The step is undone, and its status stays on the display. -/
theorem spillingHandler_displays :
    spillingHandler.condition = .ready ∧ spillingHandler.bus.attached = [] ∧
      spillingHandler.step.result = .faulted (.illegalInstruction 0x0700 0xD000) ∧
      spillingHandler.bus.display.output = #[] ∧
      spillingHandler.step.machine.bus.display.output = #[0x02] := by
  refine ⟨rfl, rfl, ?_, rfl, ?_⟩
  · decide +kernel
  · decide +kernel

/- With the stack elsewhere, the same fault disturbs nothing. -/
theorem step_faulted_spills_brokenHandler :
    brokenHandler.step.result = .faulted (.illegalInstruction 0x1000 0xD000) ∧
      brokenHandler.pushes = [(0x2FFF, 0x8002), (0x2FFE, 0x3000)] ∧
      brokenHandler.step.machine.bus.console =
        ⟨{ queue := [0x61], interrupts := true }, {}⟩ := by
  have faulted : brokenHandler.step.result = .faulted (.illegalInstruction 0x1000 0xD000) := by
    decide +kernel
  have pushes : brokenHandler.pushes = [(0x2FFF, 0x8002), (0x2FFE, 0x3000)] := by decide +kernel
  obtain ⟨-, undisturbed⟩ := step_faulted_spills brokenHandler _ rfl faulted
  rw [pushes] at undisturbed
  have apart : ∀ x ∈ [((0x2FFF : Word), (0x8002 : Word)), (0x2FFE, 0x3000)],
      x.1 ≠ kbsr ∧ x.1 ≠ ddr :=
    List.forall_mem_cons.mpr ⟨by decide, List.forall_mem_singleton.mpr (by decide)⟩
  exact ⟨faulted, pushes, undisturbed apart⟩

end Machine

end Lc3
