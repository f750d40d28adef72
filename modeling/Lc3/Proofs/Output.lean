import Lc3.Device.Peripheral
import Lc3.Proofs.Confinement
import Lc3.Proofs.Delivery

/-!
# Output of the display

The display shows what is written to its data register, and keeps it: a step only ever appends to
the output (`Machine.step_continues`), and so does every command of a host that does not clear it
(`Session.performAll_continues`). A step that enters no handler appends the low byte of the word that
its instruction stores, if it stores at the data register, and nothing else (`Machine.step_displays`).
-/

namespace Lc3

variable {δ : Type}

/- The bytes that the program displayed, the first one first. -/
def Machine.output (m : Machine δ) : List Byte := m.bus.display.output.toList

namespace Display

theorem write_of_ne (d : Display) {a : Word} (h : a ≠ ddr) (w : Word) : (d.write a w).2 = d := by
  unfold write
  rw [if_neg h]

theorem write_ddr (d : Display) (w : Word) :
    (d.write ddr w).2.output.toList = d.output.toList ++ [w.setWidth 8] := by
  unfold write
  rw [if_pos rfl]
  exact Array.toList_push

theorem output_write (d : Display) (a w : Word) :
    d.output.toList <+: (d.write a w).2.output.toList := by
  by_cases h : a = ddr
  · rw [h, write_ddr]
    exact List.prefix_append _ _
  · exact ⟨[], by rw [List.append_nil, d.write_of_ne h]⟩

end Display

/- The output goes on from what it was. -/
def Continues (m m' : Machine δ) : Prop := m.output <+: m'.output

namespace Continues

variable {m m' m'' : Machine δ}

theorem of_display (h : m'.bus.display = m.bus.display) : Continues m m' := by
  unfold Continues Machine.output
  exact ⟨[], by rw [List.append_nil, h]⟩

theorem refl (m : Machine δ) : Continues m m := of_display rfl

theorem trans (h : Continues m m') (h' : Continues m' m'') : Continues m m'' :=
  List.IsPrefix.trans h h'

end Continues

/- The display is as before. -/
def Dark (p q : Progress δ) : Prop := q.machine.bus.display = p.machine.bus.display

theorem closed_dark : Cycle.Closed (Dark (δ := δ)) where
  refl _ := rfl
  trans h h' := h'.trans h

variable [Device δ]

/-! ### Accesses -/

namespace Bus

theorem read_display (b : Bus δ) (a : Word) (effects : Bool) :
    (b.read a effects).bus.display = b.display := by
  unfold read
  split <;> rfl

/- The display has its ports for itself, so that all it ever sees of a write is its own register. -/
theorem write_display (b : Bus δ) (a w : Word) :
    (b.write a w).2.display = (b.display.write a w).2 := by
  have elsewhere (h : b.owner? a ≠ some .display) : b.display = (b.display.write a w).2 := by
    refine (b.display.write_of_ne (fun here => h ?_) w).symm
    rw [here]
    exact owner?_eq_display_iff.mpr (Or.inr rfl)
  unfold write
  split
  · next none => exact elsewhere (by rw [none]; exact nofun)
  · next keyboard => exact elsewhere (by rw [keyboard]; exact nofun)
  · rfl
  · next other => exact elsewhere (by rw [other]; exact nofun)

end Bus

namespace Machine

theorem load_display (m : Machine δ) (a : Word) (effects : Bool) :
    (m.load a effects).machine.bus.display = m.bus.display := by
  rw [load_bus]
  split
  · exact m.bus.read_display a effects
  · rfl

theorem store_display (m : Machine δ) (a w : Word) :
    (m.store a w).bus.display = (m.bus.display.write a w).2 := by
  rw [store_bus]
  split
  · exact m.bus.write_display a w
  · next elsewhere =>
    refine (m.bus.display.write_of_ne (fun here => elsewhere ?_) w).symm
    rw [here]
    decide

end Machine

/-! ### What a step appends -/

namespace Continues

theorem load (m : Machine δ) (a : Word) (effects : Bool) :
    Continues m (m.load a effects).machine :=
  of_display (m.load_display a effects)

theorem store (m : Machine δ) (a w : Word) : Continues m (m.store a w) := by
  unfold Continues Machine.output
  rw [m.store_display]
  exact m.bus.display.output_write a w

theorem entered (m : Machine δ) (vector : Word) (priority : Option (BitVec 3)) :
    Continues m (m.entered vector priority) := by
  let c := m.core.supervisor
  have first := store (m.withCore (c.descend c.sp)) (c.sp - 1) m.psr.word
  have pushed : Continues m m.pushed := first.trans (store _ (c.sp - 2) m.pc)
  exact pushed.trans (load (m.poised priority) vector true)

theorem accepted (m : Machine δ) : Continues m m.accepted := by
  unfold Machine.accepted
  split
  · exact refl m
  · exact entered m.polled _ _

end Continues

theorem returned_display (m : Machine δ) : m.returned.bus.display = m.bus.display := by
  have popped : m.popped.bus.display = m.bus.display :=
    (Machine.load_display _ (m.core.sp + 1) true).trans (m.load_display m.core.sp true)
  unfold Machine.returned
  split
  · exact popped
  · exact popped

theorem frame_continues : Cycle.Frame fun p q : Progress δ => Continues p.machine q.machine where
  refl p := .refl p.machine
  trans := .trans
  mark p := .refl p.machine
  move _ _ _ := .refl _
  record _ _ := .refl _
  read p a _ := .load p.machine a true
  write p a w _ := .store p.machine a w
  leave p _ := .of_display (returned_display p.machine)

theorem perform_continues (pc : Word) :
    Cycle.Keeps (fun p q : Progress δ => Continues p.machine q.machine) (Cycle.perform pc) :=
  frame_continues.perform (fun p _ => .refl p.machine)
    (fun p vector => .entered p.machine vector none) pc

namespace Machine

theorem step_continues (m : Machine δ) : Continues m m.step.machine := by
  by_cases ready : m.condition = .ready
  · have accepted : Continues m (Progress.accepted ⟨m, #[]⟩).machine := by
      rw [Progress.accepted_machine]
      exact .accepted m
    rw [m.step_of_ready ready]
    -- neither the count of the instruction nor the roll back reaches the display
    cases run : (Cycle.perform m.accepted.pc).run (Progress.accepted ⟨m, #[]⟩) with
    | ok halts q => exact accepted.trans ((perform_continues _).of_ok run)
    | error f q => exact accepted.trans ((perform_continues _).of_error run)
  · rw [step_of_not_ready ready]
    exact .refl m

/- The address and the word that an instruction stores, with the program counter behind it. -/
def stores? (m : Machine δ) : Instruction → Option (Word × Word)
  | .st src offset => some (m.pc + signedField offset, m.reg src)
  | .str src base offset => some (m.reg base + signedField offset, m.reg src)
  | .sti src offset => some ((m.load (m.pc + signedField offset) true).word, m.reg src)
  | _ => none

/- What the display has become when an instruction has completed. -/
def shown (m : Machine δ) (i : Instruction) : Display :=
  match m.stores? i with
  | some (a, w) => (m.bus.display.write a w).2
  | none => m.bus.display

end Machine

theorem reading_dark : Cycle.Reading fun (_ : Type) c => Cycle.Keeps (Dark (δ := δ)) c where
  pure := Cycle.keeps_pure closed_dark
  throw := Cycle.keeps_throw closed_dark
  bind := Cycle.keeps_bind closed_dark
  look g := Cycle.keeps_look closed_dark fun m => g m.core.front
  move _ _ := Cycle.keeps_update fun _ => rfl
  deliver _ _ := Cycle.keeps_update fun _ => rfl
  read pc a := Cycle.keeps_guarded closed_dark (Cycle.run_loadPermitted pc a) fun p _ =>
    p.machine.load_display a true

namespace Cycle

/- The end of an instruction that has only its store left to do. -/
theorem stored_display {pc a w : Word} {p q : Progress δ} {halts : Bool}
    (run : (do storePermitted pc a w; return false : Cycle δ Bool).run p = .ok halts q) :
    q.machine.bus.display = (p.machine.bus.display.write a w).2 := by
  rw [run_bind_of_ite (run_storePermitted pc a w p)] at run
  split at run
  · cases run
    exact p.machine.store_display a w
  · cases run

/-- An instruction that completes shows what it stores, unless it enters a handler. -/
theorem execute_display {pc : Word} {i : Instruction} {p q : Progress δ} {halts : Bool}
    (direct : ∀ v, i = .trap v → v = haltVector ∧ (!p.machine.flags.realHalt) = true)
    (run : (execute pc i).run p = .ok halts q) : q.machine.bus.display = p.machine.shown i := by
  have dark (storeless : i.stores = false) (stays : i ≠ .rti) (other : ∀ v, i ≠ .trap v) :
      q.machine.bus.display = p.machine.bus.display :=
    (reading_dark.execute pc i (fun stores => by rw [storeless] at stores; cases stores)
      (fun rti => absurd rti stays) fun v hv => absurd hv (other v)).of_ok run
  cases i with
  | rti =>
    have returns := run_execute_rti pc p
    rw [run] at returns
    split at returns
    · cases returns
      exact returned_display p.machine
    · cases returns
  | trap v =>
    rw [run_execute_trap, if_pos (direct v rfl)] at run
    cases run
    rfl
  | st s o =>
    unfold execute relative at run
    rw [run_bind_of_ok (run_look _ _), run_bind_of_ok (run_look _ _)] at run
    exact stored_display run
  | str s b o =>
    unfold execute at run
    rw [run_bind_of_ok (run_look _ _), run_bind_of_ok (run_look _ _)] at run
    exact stored_display run
  | sti s o =>
    unfold execute relative at run
    rw [run_bind_of_ok (run_look _ _), run_bind_of_ite (run_loadPermitted pc _ p)] at run
    split at run
    · rw [run_bind_of_ok (run_look _ _)] at run
      -- the pointer was read before, which changes neither the display nor a register
      have registers : (p.loaded (p.machine.pc + signedField o)).machine.reg s = p.machine.reg s :=
        congrArg (fun c => c.registers.get s) (p.machine.load_core _ true)
      have display := p.machine.load_display (p.machine.pc + signedField o) true
      have stored := stored_display run
      rw [registers] at stored
      exact stored.trans (congrArg (fun d : Display => (d.write _ _).2) display)
    · cases run
  | _ => exact dark rfl Instruction.noConfusion fun _ => Instruction.noConfusion

theorem error_display {i : Instruction} {pc : Word} {p q : Progress δ} {f : Fault}
    (run : (execute pc i).run p = .error f q) :
    q.machine.bus.display = p.machine.bus.display := by
  obtain rfl | ⟨a, -, rfl⟩ := execute_error run
  · rfl
  · exact p.machine.load_display a true

end Cycle

namespace Machine

/-- The next step completes with an instruction that stores at the data register of the display. The
byte is the low half of the word it stores. -/
def Emits (m : Machine δ) (b : Byte) : Prop :=
  m.condition = .ready ∧ (∀ f, m.step.result ≠ .faulted f) ∧
    ∃ w, m.polled.fetched.stores? m.polled.upcoming = some (ddr, w) ∧ b = w.setWidth 8

theorem shown_display (m : Machine δ) {i : Instruction} :
    (∃ w, m.stores? i = some (ddr, w) ∧
        (m.shown i).output.toList = m.output ++ [w.setWidth 8]) ∨
      (∀ w, m.stores? i ≠ some (ddr, w)) ∧ m.shown i = m.bus.display := by
  unfold shown
  cases stores : m.stores? i with
  | none => exact Or.inr ⟨fun w => nofun, rfl⟩
  | some target =>
    obtain ⟨a, w⟩ := target
    by_cases here : a = ddr
    · subst here
      exact Or.inl ⟨w, rfl, m.bus.display.write_ddr w⟩
    · refine Or.inr ⟨fun w' same => here ?_, m.bus.display.write_of_ne here w⟩
      exact congrArg Prod.fst (Option.some.inj same)

/- The instruction of a step that enters no handler: what it has stored if it completes, nothing if it
faults. -/
theorem perform_display (p : Progress δ)
    (direct : p.machine.access.permits p.machine.pc = true → p.machine.dispatched? = none) :
    match (Cycle.perform p.machine.pc).run p with
    | .ok _ q => q.machine.bus.display = p.machine.fetched.shown p.machine.upcoming
    | .error _ q => q.machine.bus.display = p.machine.bus.display := by
  have fetched : p.fetched.machine.bus.display = p.machine.bus.display :=
    p.machine.load_display p.machine.pc true
  rw [Cycle.run_perform]
  by_cases permitted : p.machine.access.permits p.machine.pc = true
  · rw [if_pos permitted]
    by_cases legal : p.machine.upcoming.isLegal = true
    · rw [if_pos legal]
      cases run : (Cycle.execute p.machine.pc p.machine.upcoming).run p.fetched with
      | ok halts q =>
        have flags : p.fetched.machine.flags = p.machine.flags :=
          congrArg Host.flags p.machine.fetched_host
        have shown := Cycle.execute_display (fun v hv => by
          rw [flags]
          exact dispatched_none (direct permitted) hv) run
        exact shown
      | error f q => exact (Cycle.error_display run).trans fetched
    · rw [if_neg legal]
      exact p.marked.machine.load_display p.machine.pc true
  · rw [if_neg permitted]
    rfl

/-- A step that enters no handler appends the byte that its instruction emits, or nothing. -/
theorem step_displays {m : Machine δ} (direct : ¬m.entersHandler) :
    (∀ b, m.Emits b → m.step.machine.output = m.output ++ [b]) ∧
      ((∀ b, ¬m.Emits b) → m.step.machine.output = m.output) := by
  by_cases ready : m.condition = .ready
  · obtain ⟨accepted, undispatched⟩ := accepted_of_calm ready direct
    have machine : m.accepted = m.polled := by rw [← Progress.accepted_machine ⟨m, #[]⟩, accepted]
    have step := m.step_of_ready ready
    have display := perform_display ⟨m.polled, #[]⟩ undispatched
    have fetched : m.polled.fetched.output = m.output := by
      unfold output
      exact congrArg (·.output.toList) (m.polled.load_display m.polled.pc true)
    rw [accepted, machine] at step
    cases run : (Cycle.perform m.polled.pc).run (⟨m.polled, #[]⟩ : Progress δ) with
    | error f q =>
      rw [run] at step display
      have same : m.step.machine.output = m.output := by
        rw [step]
        exact congrArg (·.output.toList) display
      refine ⟨fun b ⟨_, completes, _⟩ => absurd ?_ (completes f), fun _ => same⟩
      rw [step]
      rfl
    | ok halts q =>
      rw [run] at step display
      have completes (f : Fault) : m.step.result ≠ .faulted f := by
        rw [step]
        exact q.concluded_completes _ _ f
      have output : m.step.machine.output =
          (m.polled.fetched.shown m.polled.upcoming).output.toList := by
        rw [step]
        exact congrArg (·.output.toList) display
      rw [output]
      obtain ⟨w, stores, shown⟩ | ⟨elsewhere, shown⟩ :=
        m.polled.fetched.shown_display (i := m.polled.upcoming)
      · rw [shown, fetched]
        refine ⟨fun b ⟨_, _, w', stores', hb⟩ => ?_, fun none => absurd ?_ (none (w.setWidth 8))⟩
        · rw [stores] at stores'
          cases stores'
          rw [hb]
        · exact ⟨ready, completes, w, stores, rfl⟩
      · rw [shown]
        exact ⟨fun b ⟨_, _, w, stores, _⟩ => absurd stores (elsewhere w), fun _ => fetched⟩
  · rw [step_of_not_ready ready]
    exact ⟨fun b emits => absurd emits.1 ready, fun _ => rfl⟩

/-! ### Runs -/

theorem inspect_continues (m : Machine δ) (a : Word) : Continues m (m.inspect a).2 :=
  .load m a false

theorem run_continues {η : Type} (m : Machine δ) (p : Policy) (handler : HitHandler δ η) (h : η) :
    Continues m (m.run p handler h).machine :=
  run_keeps .refl .trans step_continues inspect_continues (fun m _ => .refl m) (fun m _ _ => .refl m)
    m p handler h

end Machine

/-! ### Sessions -/

/- Whether the command clears the output. -/
def Command.clears : Command δ → Bool
  | .takeOutput => true
  | .clearOutput => true
  | .reset => true
  | .resetDevices => true
  | _ => false

theorem Bus.display_ticks (b : Bus δ) (n : Nat) :
    (Nat.repeat Bus.tick n b).display = b.display := by
  induction n with
  | zero => rfl
  | succ n ih => exact ih

namespace Session

theorem perform_continues (s : Session δ) {c : Command δ} (kept : c.clears = false) :
    Continues s.machine (s.perform c).session.machine := by
  have same {m : Machine δ} (h : m.bus.display = s.machine.bus.display) : Continues s.machine m :=
    .of_display h
  cases c with
  | takeOutput | clearOutput | reset | resetDevices => cases kept
  | load _ _ | loadText _ | loadObject _ | readRegister _ | removeBreakpoint _ =>
    unfold perform
    dsimp only
    split <;> exact same rfl
  | writeRegister n _ =>
    unfold perform Machine.writeRegister
    dsimp only
    cases Reg.ofNumber n <;> exact same rfl
  | attach device ports => exact same (s.machine.bus.attach_builtin device ports).2
  | detach id => exact same (s.machine.bus.detach_builtin id).2
  | attachMany device n => exact same (s.machine.bus.attachMany_builtin device n []).2
  | readMemory a => exact s.machine.inspect_continues a
  | writeMemory a w => exact .store s.machine a w
  | disassemble a n =>
    exact Machine.disassemble_keeps .refl .trans Machine.inspect_continues s.machine a n
  | step n => exact Machine.steps_keeps .refl .trans Machine.step_continues s.machine n
  | run p w => exact s.run_keeps p w (s.machine.run_continues p)
  | readPort a effects => exact same (s.machine.bus.read_display a effects)
  | writePort a w =>
    unfold Continues Machine.output
    change _ <+: (s.machine.bus.write a w).2.display.output.toList
    rw [s.machine.bus.write_display]
    exact s.machine.bus.display.output_write a w
  | tick n => exact same (s.machine.bus.display_ticks n)
  | _ => exact same rfl

theorem performAll_continues (s : Session δ) {cs : List (Command δ)}
    (kept : ∀ c ∈ cs, c.clears = false) : Continues s.machine (s.performAll cs).machine :=
  performAll_keeps .refl .trans (fun s _ kept => s.perform_continues kept) s kept

/-- The output is complete and in order. Whatever a host does that does not clear it, the output goes
on from what it was. And a step that enters no handler appends one byte if it completes with an
instruction that stores at the data register, the low half of the word it stores, and nothing
otherwise. -/
theorem output_displayed (s : Session δ) (cs : List (Command δ))
    (kept : ∀ c ∈ cs, c.clears = false) :
    s.machine.output <+: (s.performAll cs).machine.output ∧
      ∀ m : Machine δ, ¬m.entersHandler →
        (∀ b, m.Emits b → m.step.machine.output = m.output ++ [b]) ∧
          ((∀ b, ¬m.Emits b) → m.step.machine.output = m.output) :=
  ⟨s.performAll_continues kept, fun _ direct => Machine.step_displays direct⟩

/- A program that stores R0 at the data register through a pointer, twice. -/
def printer : Session Peripheral where
  machine := {
    memory := (((Bank.fill 16 0).set 0x3000 0xB002).set 0x3001 0xB001).set 0x3003 ddr
    registers := (Bank.fill 3 0).set 0 0xAB48 }

theorem output_displayed_printer :
    let cs := [.step 1, .writeRegister 0 0x69, .run (.steps 1) .nobody]
    printer.machine.Emits 0x48 ∧ printer.machine.step.machine.output = [0x48] ∧
      [] <+: (printer.performAll cs).machine.output ∧
      (printer.performAll cs).machine.output = [0x48, 0x69] := by
  intro cs
  have emits : printer.machine.Emits 0x48 :=
    ⟨rfl, StepResult.completes_iff.mp (by decide +kernel), 0xAB48, by decide +kernel, rfl⟩
  obtain ⟨goes, step⟩ := output_displayed printer cs (by decide)
  exact ⟨emits, (step printer.machine (by decide +kernel)).1 0x48 emits, goes, by decide +kernel⟩

end Session

end Lc3
