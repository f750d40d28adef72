import Lc3.Proofs.Lookahead
import Lc3.Proofs.LoopSimulation
import Lc3.Proofs.Supply

/-!
# Stored words behind a veil

The word in the cell of a status or control register never reaches the program, since a read brings it
up to date first. The cell of the keyboard's data register is like that while a byte is ready, and
shows as soon as no byte is ready any more. By then the program has read the byte, which brought the
cell up to date, unless the host took the byte back. Machines that differ in such cells only
(`Veiled`) take every step in the same way, and stay so (`loopSimulation_veiled`).
-/

namespace Lc3

variable {δ : Type}

/-- The program can get to see the stored word at the address. If a word is hidden in the cell of the
keyboard's data register, it cannot see that one while a byte is ready. -/
def Shown (hidden : Bool) (m : Machine δ) (a : Word) : Prop :=
  ¬Mirror a ∧ (hidden = true → a = kbdr → m.bus.keyboard.ready = false)

/-- The machines differ in stored words only that the program cannot see. -/
structure Veiled (hidden : Bool) (m m' : Machine δ) : Prop where
  same : m' = { m with memory := m'.memory }
  memory : ∀ a, Shown hidden m a → m'.memory.get a = m.memory.get a

/- Where a byte stays ready, no word comes to be seen. -/
theorem Shown.before {hidden : Bool} {m m' : Machine δ} {a : Word} (h : Shown hidden m' a)
    (kept : hidden = true → m.bus.keyboard.ready = true → m'.bus.keyboard.ready = true) :
    Shown hidden m a := by
  refine ⟨h.1, fun hides here => ?_⟩
  cases ready : m.bus.keyboard.ready with
  | false => rfl
  | true => exact absurd ((kept hides ready).symm.trans (h.2 hides here)) Bool.noConfusion

namespace Veiled

variable {hidden : Bool} {m m' : Machine δ}

/- A change that neither looks at memory nor changes it, and leaves a byte ready. -/
theorem update (h : Veiled hidden m m') (g : Machine δ → Machine δ)
    (hg : ∀ m mem, g { m with memory := mem } = { g m with memory := mem })
    (kept : hidden = true → m.bus.keyboard.ready = true → (g m).bus.keyboard.ready = true)
    (hm : ∀ m, (g m).memory = m.memory := by intro m; rfl) : Veiled hidden (g m) (g m') where
  same := by
    rw [h.same, hg]
  memory a ha := by
    rw [hm, hm]
    exact h.memory a (ha.before kept)

theorem stored (h : Veiled hidden m m') {a w w' : Word} (hw : Shown hidden m a → w' = w) :
    Veiled hidden (m.stored a w) (m'.stored a w') where
  same := by
    rw [h.same]
    rfl
  memory b hb := by
    change (m'.memory.set a w').get b = (m.memory.set a w).get b
    rw [Bank.get_set, Bank.get_set]
    split
    · next e => exact hw (e ▸ hb)
    · exact h.memory b hb

theorem bus (h : Veiled hidden m m') : m'.bus = m.bus := by
  rw [h.same]

/- While no byte is ready nothing is hidden at the keyboard. -/
theorem of_idle (h : Veiled hidden m m') (idle : m.bus.keyboard.ready = false) :
    Veiled false m m' :=
  ⟨h.same, fun a ha => h.memory a ⟨ha.1, fun _ _ => idle⟩⟩

theorem weaken {hidden' : Bool} (h : Veiled hidden' m m') (le : hidden' = true → hidden = true) :
    Veiled hidden m m' :=
  ⟨h.same, fun a ha => h.memory a ⟨ha.1, fun hides => ha.2 (le hides)⟩⟩

/- Nor is it where the cells of the data register agree. -/
theorem of_cell (h : Veiled hidden m m') (cell : m'.memory.get kbdr = m.memory.get kbdr) :
    Veiled false m m' := by
  refine ⟨h.same, fun a ha => ?_⟩
  by_cases here : a = kbdr
  · rw [here]
    exact cell
  · exact h.memory a ⟨ha.1, fun _ e => absurd e here⟩

end Veiled

variable [Device δ] {hidden : Bool} {m m' : Machine δ}

/-! ### Accesses -/

/- A load that finds nothing to bring the stored word up to date with gives a word that can be seen. -/
theorem Machine.shown_of_refresh? {a : Word} {effects : Bool} (h : m.refresh? a effects = none)
    (hidden : Bool) : Shown hidden m a := by
  refine ⟨fun mirror => m.refresh?_of_mirror mirror effects h, ?_⟩
  rintro - rfl
  rw [Keyboard.ready_iff_consume?]
  have silent : (m.bus.keyboard.read kbdr effects).1 = none := by
    unfold refresh? Bus.read at h
    rw [if_neg (by decide), if_neg (by decide), if_pos (by decide),
      Bus.owner?_eq_keyboard_iff.mpr (Or.inr rfl)] at h
    exact h
  unfold Keyboard.read at silent
  rw [if_neg (by decide), if_pos rfl] at silent
  cases consumed : m.bus.keyboard.consume? with
  | none => rfl
  | some x =>
    rw [consumed] at silent
    cases silent

namespace Veiled

theorem load (h : Veiled hidden m m') (a : Word) (effects : Bool) :
    (m'.load a effects).word = (m.load a effects).word ∧
      (m'.load a effects).events = (m.load a effects).events ∧
      Veiled hidden (m.load a effects).machine (m'.load a effects).machine := by
  have found : m'.refresh? a effects = m.refresh? a effects := by
    rw [h.same]
    rfl
  have word : (m'.load a effects).word = (m.load a effects).word := by
    rw [m.load_eq, m'.load_eq, found]
    cases refresh : m.refresh? a effects with
    | some w => rfl
    | none => exact h.memory a (Machine.shown_of_refresh? refresh hidden)
  refine ⟨word, ?_, ?_, fun b hb => ?_⟩
  · rw [m.load_eq, m'.load_eq, h.bus]
  · rw [m.load_eq, m'.load_eq, found, h.bus, h.same]
  · rw [Machine.load_memory, Machine.load_memory, word]
    split
    · rfl
    · next other =>
      -- only a load of the data register itself can take the byte away that hides its cell
      refine h.memory b ⟨hb.1, fun hides here => ?_⟩
      have keyboard := (m.load_keyboard_of_ne (here ▸ other) effects).1
      rw [← keyboard]
      exact hb.2 hides here

theorem inspected (h : Veiled hidden m m') (a : Word) :
    (m'.inspect a).1 = (m.inspect a).1 ∧ Veiled hidden (m.inspect a).2 (m'.inspect a).2 :=
  have looked := h.load a false
  ⟨looked.1, looked.2.2⟩

theorem store (h : Veiled hidden m m') (a w : Word) :
    Veiled hidden (m.store a w) (m'.store a w) := by
  unfold Machine.store
  by_cases psr : a = psrAddress
  · rw [if_pos psr, if_pos psr]
    have set := h.update (fun m => { m with psr := ⟨w⟩ }) (fun _ _ => rfl) fun _ => id
    exact set.stored fun _ => rfl
  · by_cases mcr : a = mcrAddress
    · rw [if_neg psr, if_neg psr, if_pos mcr, if_pos mcr]
      have set := h.update (fun m => { m with clock := w.msb }) (fun _ _ => rfl) fun _ => id
      exact set.stored fun _ => rfl
    · rw [if_neg psr, if_neg psr, if_neg mcr, if_neg mcr]
      by_cases port : isPort a = true
      · have written := h.update (fun n => { n with bus := (m.bus.write a w).2 }) (fun _ _ => rfl)
          fun _ ready => (Keyboard.ready_of_supply (m.bus.supply_write a w)).trans ready
        rw [if_pos port, if_pos port, h.bus]
        dsimp only
        split
        · exact written.stored fun _ => rfl
        · exact written
      · rw [if_neg port, if_neg port]
        exact h.stored fun _ => rfl

/-! ### Steps -/

/- A step that faults has left the byte ready that was. -/
theorem undone {f : Fault} {after after' : Machine δ} (broke : m.BreaksOff f after)
    (h : Veiled hidden m m') (ha : Veiled hidden after after') :
    Veiled hidden { m.rollBack after with condition := .faulted f }
      { m'.rollBack after' with condition := .faulted f } := by
  have before {b : Word} (hb : Shown hidden after b) : Shown hidden m b :=
    hb.before fun _ ready => (Keyboard.ready_of_supply broke.supply).trans ready
  have sp : m'.supervisorSp = m.supervisorSp := by
    rw [h.same]
    rfl
  have restored := (ha.stored fun hb => h.memory (m.supervisorSp - 1) (before hb)).stored fun hb =>
    h.memory (m.supervisorSp - 2) (before hb)
  have whole := restored.update (fun n => { n with
    registers := m.registers
    psr := m.psr
    savedSp := m.savedSp
    clock := m.clock
    pc := m.pc
    fetchPc := m.pc
    condition := .faulted f }) (fun _ _ => rfl) fun _ => id
  have registers : m'.registers = m.registers := by rw [h.same]
  have psr : m'.psr = m.psr := by rw [h.same]
  have savedSp : m'.savedSp = m.savedSp := by rw [h.same]
  have clock : m'.clock = m.clock := by rw [h.same]
  have pc : m'.pc = m.pc := by rw [h.same]
  unfold Machine.rollBack
  dsimp only
  rw [sp, registers, psr, savedSp, clock, pc]
  exact whole

end Veiled

theorem Keyboard.ready_tick {k : Keyboard} (h : k.ready = true) : k.tick.ready = true := by
  unfold ready at h ⊢
  simp only [Bool.and_eq_true, Bool.not_eq_true', beq_iff_eq] at h
  unfold tick
  rw [h.1, if_neg Bool.false_ne_true, h.1, h.2]
  rfl

theorem loopSimulation_veiled (hidden : Bool) : LoopSimulation (Veiled (δ := δ) hidden) where
  core h := by
    rw [h.same]
    rfl
  flags h := by
    rw [h.same]
  clock h := by
    rw [h.same]
  condition h := by
    rw [h.same]
  marked h := h.update Machine.marked (fun _ _ => rfl) fun _ => id
  withCore c h := h.update (·.withCore c) (fun _ _ => rfl) fun _ => id
  word a h := (h.load a true).1
  events a h := (h.load a true).2.1
  load a h := (h.load a true).2.2
  store a w h := h.store a w
  offer h := by
    rw [h.bus]
  polled h := h.update Machine.polled (fun _ _ => rfl) fun _ => id
  completed halts h :=
    h.update (·.completed halts) (fun _ _ => rfl) fun _ => Keyboard.ready_tick
  undone := Veiled.undone
  inspected a h := h.inspected a
  queue h := by
    rw [h.bus]
  here h := by
    rw [h.same]
    rfl
  parked h := h.update (fun m => { m with parked := some m.pc }) (fun _ _ => rfl) fun _ => id

/-! ### Bytes that the program consumes -/

/- Whether the word is still hidden when the program has told of events. -/
def hiddenAfter (hidden : Bool) (events : Array Event) : Bool :=
  hidden && (consumption events).isEmpty

theorem hiddenAfter_of_silent (hidden : Bool) {events : Array Event} (h : consumption events = []) :
    hiddenAfter hidden events = hidden := by
  unfold hiddenAfter
  rw [h]
  exact Bool.and_true hidden

theorem hiddenAfter_of_consumption (hidden : Bool) {events : Array Event}
    (h : consumption events ≠ []) : hiddenAfter hidden events = false := by
  unfold hiddenAfter
  rw [List.isEmpty_eq_false_iff.mpr h]
  exact Bool.and_false hidden

theorem of_hiddenAfter {hidden : Bool} {events : Array Event}
    (h : hiddenAfter hidden events = true) : hidden = true :=
  (Bool.and_eq_true_iff.mp h).1

theorem hiddenAfter_append (hidden : Bool) (events events' : Array Event) :
    hiddenAfter hidden (events ++ events') = hiddenAfter (hiddenAfter hidden events) events' := by
  unfold hiddenAfter
  rw [consumption_append, Bool.and_assoc]
  cases consumption events <;> rfl

namespace Veiled

/-- A step that consumes a byte brings the cell of the data register up to date. -/
theorem step (h : Veiled hidden m m') :
    Veiled (hiddenAfter hidden m.step.events) m.step.machine m'.step.machine := by
  obtain ⟨-, same, stepped⟩ := (loopSimulation_veiled hidden).step h
  obtain ⟨-, silent⟩ | ⟨b, consumes⟩ := m.step_supply
  · rw [hiddenAfter_of_silent hidden silent]
    exact stepped
  · have told : consumption m'.step.events = [b] := by rw [same, consumes.told]
    have shown : m'.step.machine.memory.get kbdr = b.setWidth 16 := by
      obtain ⟨-, silent⟩ | ⟨b', consumes'⟩ := m'.step_supply
      · rw [silent] at told
        cases told
      · rw [consumes'.told] at told
        cases told
        exact consumes'.shown
    rw [hiddenAfter_of_consumption hidden (by rw [consumes.told]; exact List.cons_ne_nil b [])]
    exact stepped.of_cell (shown.trans consumes.shown.symm)

/- Before anything is told, and after a breakpoint was told of, the veil lies as before. -/
omit [Device δ] in
theorem untold (h : Veiled hidden m m') : Veiled (hiddenAfter hidden #[]) m m' := by
  rw [hiddenAfter_of_silent hidden rfl]
  exact h

theorem stepped {told : Array Event} (h : Veiled (hiddenAfter hidden told) m m') :
    Veiled (hiddenAfter hidden (told ++ m.step.events)) m.step.machine m'.step.machine := by
  rw [hiddenAfter_append]
  exact h.step

omit [Device δ] in
theorem stopped {told last : Array Event} (stops : ∀ e ∈ last, ∃ b, e = .stoppedAt b)
    (h : Veiled (hiddenAfter hidden told) m m') : Veiled (hiddenAfter hidden (told ++ last)) m m' := by
  have silent : consumption last = [] := consumption_eq_nil fun e he => by
    obtain ⟨b, rfl⟩ := stops e he
    rfl
  rw [hiddenAfter_append, hiddenAfter_of_silent _ silent]
  exact h

end Veiled

/-! ### Inspections -/

/-- Without further devices an inspection hides a word at most: the byte that is ready, in the cell of
the data register. -/
theorem inspect_veiled (bare : m.bus.attached = []) (a : Word) :
    Veiled (a == kbdr) m (m.inspect a).2 where
  same := by rw [Machine.inspect_frame bare a]
  memory b hb := by
    rw [Machine.inspect_memory]
    split
    · next here =>
      subst here
      refine Machine.inspect_word bare hb.1 fun here => ?_
      have idle := hb.2 (beq_iff_eq.mpr here) here
      rw [Keyboard.ready_iff_consume?] at idle
      exact Option.isSome_eq_false_iff.mp idle |> Option.isNone_iff_eq_none.mp
    · rfl

end Lc3
