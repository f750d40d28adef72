import Lc3.Proofs.Loop
import Lc3.Proofs.Nesting

/-!
# The two stacks

Each mode has a stack of its own. The pointer of the current one is a register, the other one is
saved. Entries exchange the two when they change the mode, but returns look at the mode that they pop
only: they exchange them on the way to user mode. That is a change of mode when the return comes from
supervisor mode. Returns from user mode, which programs may perform where privileges are ignored, take
the stack of the user for that of the supervisor, and the two trade places. A pair of stack pointers
kept beside a run in this way always says what the machine holds (`run_banked`).
-/

namespace Lc3

/-- The stack pointers of the two modes. -/
structure Stacks where
  user : Word
  supervisor : Word

namespace Stacks

/-- The stack pointer of a mode. -/
def pointer (s : Stacks) (privileged : Bool) : Word := if privileged then s.supervisor else s.user

/- With another stack pointer for a mode. -/
def move (s : Stacks) (privileged : Bool) (w : Word) : Stacks :=
  if privileged then { s with supervisor := w } else { s with user := w }

/- Two words pushed by an entry. -/
def push (s : Stacks) : Stacks := { s with supervisor := s.supervisor - 2 }

/- Two words popped by a return. -/
def pop (s : Stacks) : Stacks := { s with supervisor := s.supervisor + 2 }

/- The stacks with their roles traded. -/
def traded (s : Stacks) : Stacks := ⟨s.supervisor, s.user⟩

theorem pointer_move_self (s : Stacks) (privileged : Bool) (w : Word) :
    (s.move privileged w).pointer privileged = w := by
  cases privileged <;> rfl

theorem pointer_move_other (s : Stacks) (privileged : Bool) (w : Word) :
    (s.move privileged w).pointer (!privileged) = s.pointer (!privileged) := by
  cases privileged <;> rfl

end Stacks

variable {δ : Type}

/-- The stack pointer of the current mode and the saved one. -/
def Machine.pointers (m : Machine δ) : Word × Word := (m.reg stackReg, m.savedSp)

/-- The stack pointer of the current mode is in its register, and that of the other mode is saved. -/
def Banked (s : Stacks) (m : Machine δ) : Prop :=
  m.pointers = (s.pointer m.psr.privileged, s.pointer (!m.psr.privileged))

instance (s : Stacks) (m : Machine δ) : Decidable (Banked s m) :=
  inferInstanceAs (Decidable (_ = _))

namespace Banked

variable {s : Stacks} {m : Machine δ}

theorem current (h : Banked s m) : m.reg stackReg = s.pointer m.psr.privileged :=
  congrArg Prod.fst h

theorem saved (h : Banked s m) : m.savedSp = s.pointer (!m.psr.privileged) := congrArg Prod.snd h

end Banked

/-! ### The saved stack pointer -/

/- The saved stack pointer is as before. -/
def Saved (p q : Progress δ) : Prop := q.machine.savedSp = p.machine.savedSp

theorem closed_saved : Cycle.Closed (Saved (δ := δ)) where
  refl _ := rfl
  trans h h' := h'.trans h

variable [Device δ]

theorem reading_saved : Cycle.Reading fun (_ : Type) c => Cycle.Keeps (Saved (δ := δ)) c where
  pure := Cycle.keeps_pure closed_saved
  throw := Cycle.keeps_throw closed_saved
  bind := Cycle.keeps_bind closed_saved
  look g := Cycle.keeps_look closed_saved fun m => g m.core.front
  move _ _ := Cycle.keeps_update fun _ => rfl
  deliver _ _ := Cycle.keeps_update fun _ => rfl
  read pc a := Cycle.keeps_guarded closed_saved (Cycle.run_loadPermitted pc a) fun p _ =>
    congrArg Core.savedSp (p.machine.load_core a true)

theorem write_saved (pc a w : Word) :
    Cycle.Keeps (Saved (δ := δ)) (Cycle.storePermitted pc a w) :=
  Cycle.keeps_guarded closed_saved (Cycle.run_storePermitted pc a w) fun p _ =>
    congrArg Core.savedSp (p.machine.store_core a w)

theorem Plain.savedSp {a b : Place δ} (h : Plain a b) : b.machine.savedSp = a.machine.savedSp := by
  cases h with
  | poll => rfl
  | count => rfl
  | @instruction m events halts q permitted legal stays direct run =>
    by_cases trap : ∃ v, m.upcoming = .trap v
    · obtain ⟨v, hv⟩ := trap
      have flags : m.fetched.flags = m.flags := congrArg Host.flags m.fetched_host
      rw [hv, Cycle.run_execute_trap, flags, if_pos (Machine.dispatched_none direct hv)] at run
      cases run
      exact m.fetched_savedSp
    · have keeps : Cycle.Keeps (Saved (δ := δ)) (Cycle.execute m.pc m.upcoming) :=
        reading_saved.execute m.pc m.upcoming (reading_saved.execute_store write_saved m.pc)
          (fun rti => absurd rti stays) fun v hv => absurd ⟨v, hv⟩ trap
      exact (keeps.of_ok run).trans m.fetched_savedSp

/-! ### Entries and returns -/

theorem Entry.pointers {a b : Place δ} {m : Machine δ} (h : Entry a m b) :
    b.machine.pointers =
      if a.machine.psr.privileged then (a.machine.reg stackReg - 2, a.machine.savedSp)
      else (a.machine.savedSp - 2, a.machine.reg stackReg) := by
  obtain ⟨vector, priority, entered⟩ := h.entered
  have quiet : Quiet 0 a.machine m := h.quiet (by decide)
  have pointers : b.machine.pointers =
      (m.supervisorSp - 2, if m.psr.privileged then m.savedSp else m.reg stackReg) := by
    rw [entered]
    exact Prod.ext (m.entered_sp vector priority) (m.entered_savedSp vector priority)
  rw [pointers, ← quiet.sp, ← quiet.savedSp, ← quiet.privileged]
  unfold Machine.supervisorSp
  split <;> rfl

theorem Entry.privileged {a b : Place δ} {m : Machine δ} (h : Entry a m b) (apart : m.PushesApart) :
    b.machine.psr.privileged = true := by
  obtain ⟨vector, priority, entered⟩ := h.entered
  rw [entered]
  exact Machine.entered_privileged_of_apart apart vector priority

theorem Machine.returned_pointers (m : Machine δ) :
    m.returned.pointers =
      if m.returned.psr.privileged then (m.reg stackReg + 2, m.savedSp)
      else (m.savedSp, m.reg stackReg + 2) := by
  have core (m : Machine δ) : m.pointers = (m.core.sp, m.core.savedSp) := rfl
  have sp := m.popped_sp
  have savedSp := m.popped_savedSp
  rw [core, m.returned_core]
  generalize m.popped.core = c at sp savedSp ⊢
  split
  · exact Prod.ext sp savedSp
  · exact Prod.ext (c.sp_swap.trans savedSp) sp

theorem Return.pointers {a b : Place δ} (h : Return a b) :
    b.machine.pointers =
      if b.machine.psr.privileged then (a.machine.reg stackReg + 2, a.machine.savedSp)
      else (a.machine.savedSp, a.machine.reg stackReg + 2) := by
  cases h with
  | @rti m =>
    have fetched : m.fetched.reg stackReg = m.reg stackReg :=
      congrArg (·.get stackReg) m.fetched_registers
    have returned := m.fetched.returned_pointers
    rw [fetched, m.fetched_savedSp] at returned
    exact returned

/-! ### Runs -/

/-- A run with a pair of stack pointers kept beside it. Only entries and returns change the mode. -/
inductive Tracks (a : Place δ) (s : Stacks) : Place δ → Stacks → Prop where
  | refl : Tracks a s a s
  /-- The program may have moved its own stack pointer. -/
  | plain {b c : Place δ} {t : Stacks} (before : Tracks a s b t) (part : Plain b c)
      (mode : c.machine.psr.privileged = b.machine.psr.privileged) :
      Tracks a s c (t.move b.machine.psr.privileged (c.machine.reg stackReg))
  | entry {b c : Place δ} {m : Machine δ} {t : Stacks} (before : Tracks a s b t)
      (entry : Entry b m c) (apart : m.PushesApart) : Tracks a s c t.push
  | back {b c : Place δ} {t : Stacks} (before : Tracks a s b t) (back : Return b c)
      (privileged : b.machine.psr.privileged = true) : Tracks a s c t.pop
  /-- A return from user mode pops from the stack of the user as if it were the other one. -/
  | lapse {b c : Place δ} {t : Stacks} (before : Tracks a s b t) (back : Return b c)
      (user : b.machine.psr.privileged = false) : Tracks a s c t.traded.pop
  /-- A step that faults is taken back. -/
  | fault {m : Machine δ} {f : Fault} {t : Stacks} (before : Tracks a s ⟨.start, m⟩ t)
      (faulted : m.step.result = .faulted f) : Tracks a s ⟨.start, m.step.machine⟩ t

namespace Banked

variable {s : Stacks} {m : Machine δ}

theorem plain {a b : Place δ} (h : Banked s a.machine) (part : Plain a b)
    (mode : b.machine.psr.privileged = a.machine.psr.privileged) :
    Banked (s.move a.machine.psr.privileged (b.machine.reg stackReg)) b.machine := by
  unfold Banked Machine.pointers
  rw [mode, s.pointer_move_self, s.pointer_move_other, part.savedSp, h.saved]

theorem entry {a b : Place δ} (h : Banked s a.machine) (entry : Entry a m b)
    (apart : m.PushesApart) : Banked s.push b.machine := by
  unfold Banked
  rw [entry.pointers, entry.privileged apart, h.current, h.saved]
  cases a.machine.psr.privileged <;> rfl

theorem back {a b : Place δ} (h : Banked s a.machine) (back : Return a b)
    (privileged : a.machine.psr.privileged = true) : Banked s.pop b.machine := by
  unfold Banked
  rw [back.pointers, h.current, h.saved, privileged]
  cases b.machine.psr.privileged <;> rfl

theorem lapse {a b : Place δ} (h : Banked s a.machine) (back : Return a b)
    (user : a.machine.psr.privileged = false) : Banked s.traded.pop b.machine := by
  unfold Banked
  rw [back.pointers, h.current, h.saved, user]
  cases b.machine.psr.privileged <;> rfl

theorem fault {f : Fault} (h : Banked s m) (faulted : m.step.result = .faulted f) :
    Banked s m.step.machine := by
  by_cases ready : m.condition = .ready
  · obtain ⟨q, -, step⟩ := m.step_of_faulted ready faulted
    rw [step]
    exact h
  · rw [Machine.step_of_not_ready ready]
    exact h

end Banked

/-- The stack pointers kept beside a run are those of the machine. From wherever the run has come to,
an entry exchanges them if the mode is that of the user, and a return if it becomes that of the user.
Steps that complete are made of such parts. -/
theorem run_banked {a b : Place δ} {s t : Stacks} (banked : Banked s a.machine)
    (run : Tracks a s b t) :
    Banked t b.machine ∧
      (∀ m c, Entry b m c →
        (c.machine.pointers =
          if b.machine.psr.privileged then (b.machine.reg stackReg - 2, b.machine.savedSp)
          else (b.machine.savedSp - 2, b.machine.reg stackReg)) ∧
        (m.PushesApart → c.machine.psr.privileged = true)) ∧
      (∀ c, Return b c →
        c.machine.pointers =
          if c.machine.psr.privileged then (b.machine.reg stackReg + 2, b.machine.savedSp)
          else (b.machine.savedSp, b.machine.reg stackReg + 2)) ∧
      ∀ m : Machine δ, b = ⟨.start, m⟩ → m.condition = .ready → (∀ f, m.step.result ≠ .faulted f) →
        Relation.TransGen Part b ⟨.start, m.step.machine⟩ := by
  have held : Banked t b.machine := by
    induction run with
    | refl => exact banked
    | plain _ part mode ih => exact ih.plain part mode
    | entry _ entry apart ih => exact ih.entry entry apart
    | back _ back privileged ih => exact ih.back back privileged
    | lapse _ back user ih => exact ih.lapse back user
    | fault _ faulted ih => exact ih.fault faulted
  refine ⟨held, fun m c entry => ⟨entry.pointers, entry.privileged⟩, fun c back => back.pointers, ?_⟩
  intro m here ready completes
  rw [here]
  exact Machine.step_parts ready completes

/- A program in user mode that returns, where privileges are ignored, to a status at its stack. -/
def userReturn (status : Word) : Machine Peripheral where
  memory := (((Bank.fill 16 0).set 0x3000 0x8000).set 0x4000 0x3001).set 0x4001 status
  registers := (Bank.fill 3 0).set stackReg 0x4000

/- Whether the status that it pops keeps the mode or changes it, the return exchanges the pointers in
the other case. -/
theorem userReturn_pointers :
    (userReturn 0x8002).psr.privileged = false ∧
    (userReturn 0x8002).pointers = (0x4000, 0x3000) ∧
    (userReturn 0x8002).step.result = .retired ∧
    (userReturn 0x8002).step.machine.psr.privileged = false ∧
    (userReturn 0x8002).step.machine.pointers = (0x3000, 0x4002) ∧
    (userReturn 0x0002).psr.privileged = false ∧
    (userReturn 0x0002).pointers = (0x4000, 0x3000) ∧
    (userReturn 0x0002).step.result = .retired ∧
    (userReturn 0x0002).step.machine.psr.privileged = true ∧
    (userReturn 0x0002).step.machine.pointers = (0x4002, 0x3000) := by
  decide +kernel

namespace NestedTraps

theorem run_banked_nestedTraps :
    Banked ⟨0x4000, 0x2FFC⟩ inner ∧ innerDone.pointers = (0x2FFE, 0x4000) ∧
      Banked ⟨0x4000, 0x3000⟩ outerDone := by
  have banked : Banked ⟨0x4000, 0x3000⟩ program := by decide +kernel
  have toOuter : Tracks ⟨.fetch, program⟩ ⟨0x4000, 0x3000⟩ ⟨.fetch, outer⟩ ⟨0x4000, 0x2FFE⟩ :=
    .plain (.plain (.entry .refl (.trap (by decide +kernel) (by decide +kernel))
      ⟨by decide +kernel, by decide +kernel⟩) .count rfl)
      (.poll (by decide +kernel) (by decide +kernel)) rfl
  have toInner : Tracks ⟨.fetch, program⟩ ⟨0x4000, 0x3000⟩ ⟨.fetch, inner⟩ ⟨0x4000, 0x2FFC⟩ :=
    .plain (.plain (.entry toOuter (.trap (by decide +kernel) (by decide +kernel))
      ⟨by decide +kernel, by decide +kernel⟩) .count rfl)
      (.poll (by decide +kernel) (by decide +kernel)) rfl
  have innerBack : Return ⟨.fetch, inner⟩ ⟨.start, innerDone⟩ :=
    .rti (by decide +kernel) (by decide +kernel) (by decide +kernel)
  have outerBack : Return ⟨.fetch, innerDone.polled⟩ ⟨.start, outerDone⟩ :=
    .rti (by decide +kernel) (by decide +kernel) (by decide +kernel)
  have whole : Tracks ⟨.fetch, program⟩ ⟨0x4000, 0x3000⟩ ⟨.start, outerDone⟩ ⟨0x4000, 0x3000⟩ :=
    .back (.plain (.back toInner innerBack (by decide +kernel))
      (.poll (by decide +kernel) (by decide +kernel)) rfl) outerBack (by decide +kernel)
  obtain ⟨atInner, -, returns, -⟩ := run_banked banked toInner
  have innerPointers := returns _ innerBack
  refine ⟨atInner, innerPointers.trans ?_, (run_banked banked whole).1⟩
  decide +kernel

end NestedTraps

end Lc3
