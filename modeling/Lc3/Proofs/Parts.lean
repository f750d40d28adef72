import Lc3.Proofs.Access

/-!
# The parts of a step in closed form

Every part of a step is a function of the machine it starts from. This module names these functions
and computes the parts with them: the permitted accesses, the fetch, the entry of a handler
(`Machine.entered`) and the return from it (`Machine.returned`), and the acceptance of an interrupt.
A step of a ready machine is the acceptance of an interrupt followed by one instruction, which
completes or faults (`step_cases`).
-/

namespace Lc3

variable {δ : Type}

/-! ### What an instruction computes with -/

/-- The registers of a machine, the control registers that an entry or a return changes included. -/
structure Core where
  registers : RegFile
  pc : Word
  psr : Psr
  savedSp : Word

namespace Core

def sp (c : Core) : Word := c.registers.get stackReg

def setReg (c : Core) (r : Reg) (w : Word) : Core := { c with registers := c.registers.set r w }

/- The stack pointer and the saved one exchanged. -/
def swap (c : Core) : Core :=
  { c.setReg stackReg c.savedSp with savedSp := c.registers.get stackReg }

/- On the stack of the supervisor, where an entry pushes. -/
def supervisor (c : Core) : Core := if c.psr.privileged then c else c.swap

/- In supervisor mode and with room for two words below a stack pointer. -/
def descend (c : Core) (sp : Word) : Core :=
  { c.setReg stackReg (sp - 2) with psr := c.psr.withPrivileged true }

theorem sp_swap (c : Core) : c.swap.sp = c.savedSp := Bank.get_set_self _ _ _

end Core

/- The status in which a handler starts. -/
def Psr.entered (s : Psr) : Option (BitVec 3) → Psr
  | none => s.withCodes Psr.zero
  | some p => (s.withCodes Psr.zero).withPriority p

theorem Psr.privileged_entered (s : Psr) (priority : Option (BitVec 3)) :
    (s.entered priority).privileged = s.privileged := by
  cases priority with
  | none => exact privileged_withCodes _ _
  | some p => exact (privileged_withPriority _ _).trans (privileged_withCodes _ _)

namespace Machine

def core (m : Machine δ) : Core := ⟨m.registers, m.pc, m.psr, m.savedSp⟩

def withCore (m : Machine δ) (c : Core) : Machine δ :=
  { m with registers := c.registers, pc := c.pc, psr := c.psr, savedSp := c.savedSp }

/- With the result of an instruction in a register, and its sign recorded. -/
def delivered (m : Machine δ) (r : Reg) (w : Word) : Machine δ :=
  { m.setReg r w with psr := m.psr.record w }

theorem sp_supervisor (m : Machine δ) : m.core.supervisor.sp = m.supervisorSp := by
  unfold Core.supervisor supervisorSp
  change (if m.psr.privileged then m.core else m.core.swap).sp = _
  split
  · rfl
  · exact Core.sp_swap _

/- With the program counter noted as the address of the instruction. -/
def marked (m : Machine δ) : Machine δ := m.fetching m.pc

variable [Device δ]

/-! ### Machines within a step -/

/- The status and the program counter pushed onto the stack of the supervisor. -/
def pushed (m : Machine δ) : Machine δ :=
  let c := m.core.supervisor
  ((m.withCore (c.descend c.sp)).store (c.sp - 1) m.psr.word).store (c.sp - 2) m.pc

/- Ready to look the handler up. -/
def poised (m : Machine δ) (priority : Option (BitVec 3)) : Machine δ :=
  { m.pushed with psr := m.pushed.psr.entered priority }

/- The machine after the entry of the handler that a vector holds. -/
def entered (m : Machine δ) (vector : Word) (priority : Option (BitVec 3)) : Machine δ :=
  let r := (m.poised priority).load vector true
  { r.machine with pc := r.word }

/- The program counter and the status popped, still on the stack they were popped from. -/
def popped (m : Machine δ) : Machine δ :=
  let target := m.load m.core.sp true
  let status := target.machine.load (m.core.sp + 1) true
  { status.machine.setReg stackReg (m.core.sp + 2) with pc := target.word, psr := ⟨status.word⟩ }

/- The machine after the return from a handler. -/
def returned (m : Machine δ) : Machine δ :=
  if m.popped.psr.privileged then m.popped else m.popped.withCore m.popped.core.swap

/- The interrupt that the next step accepts. -/
def urgent? (m : Machine δ) : Option Interrupt :=
  m.bus.poll.1.filter fun i => m.psr.priority < i.priority

/- The devices asked for interrupts. -/
def polled (m : Machine δ) : Machine δ := { m with bus := m.bus.poll.2 }

/- The machine about to fetch the instruction of its next step. -/
def accepted (m : Machine δ) : Machine δ :=
  match m.urgent? with
  | none => m.polled
  | some i => m.polled.entered (interruptTable + unsignedField i.vector) (some i.priority)

/- The instruction at the program counter, as a fetch reads it. -/
def upcoming (m : Machine δ) : Instruction := Instruction.decode (m.load m.pc true).word

/-- The trap vector that the instruction at the program counter looks up in the trap table. -/
def dispatched? (m : Machine δ) : Option (BitVec 8) :=
  match m.upcoming with
  | .trap v => if v = haltVector ∧ !m.flags.realHalt then none else some v
  | _ => none

theorem dispatched_none {m : Machine δ} (h : m.dispatched? = none) {v : BitVec 8}
    (hv : m.upcoming = .trap v) : v = haltVector ∧ (!m.flags.realHalt) = true := by
  unfold dispatched? at h
  rw [hv] at h
  dsimp only at h
  split at h
  · assumption
  · cases h

/- The machine after the fetch, with the program counter behind the instruction. -/
def fetched (m : Machine δ) : Machine δ :=
  let r := m.load m.pc true
  { r.machine with pc := r.machine.pc + 1, fetchPc := m.pc }

/- One more instruction counted, and the devices told. -/
def ticked (m : Machine δ) : Machine δ := { m with retired := m.retired + 1, bus := m.bus.tick }

/- The machine after a step that completed with an instruction, which may have halted it. -/
def completed (m : Machine δ) (halts : Bool) : Machine δ :=
  { m.ticked with
    parked := none
    condition := if halts || !m.clock then .halted else m.condition }

/- Nothing of this depends on the address that is noted. -/
theorem pushed_fetching (m : Machine δ) (b : Word) :
    (m.fetching b).pushed = m.pushed.fetching b := by
  let c := m.core.supervisor
  change (((m.withCore (c.descend c.sp)).fetching b).store (c.sp - 1) m.psr.word).store (c.sp - 2)
    m.pc = _
  rw [store_fetching, store_fetching]
  rfl

theorem poised_fetching (m : Machine δ) (b : Word) (priority : Option (BitVec 3)) :
    (m.fetching b).poised priority = (m.poised priority).fetching b := by
  unfold poised
  rw [pushed_fetching]
  rfl

theorem entered_fetching (m : Machine δ) (b vector : Word) (priority : Option (BitVec 3)) :
    (m.fetching b).entered vector priority = (m.entered vector priority).fetching b := by
  unfold entered
  rw [poised_fetching, load_fetching]
  rfl

theorem fetched_eq (m : Machine δ) : m.fetched =
    { (m.marked.load m.pc true).machine with pc := (m.marked.load m.pc true).machine.pc + 1 } := by
  have load : m.marked.load m.pc true = _ := m.load_fetching m.pc m.pc true
  rw [load]
  rfl

theorem upcoming_marked (m : Machine δ) : m.marked.upcoming = m.upcoming := by
  unfold upcoming marked
  rw [load_fetching]
  rfl

end Machine

namespace Progress

/- With the program counter noted as the address of the instruction. -/
def marked (p : Progress δ) : Progress δ := { p with machine := p.machine.marked }

variable [Device δ]

/- After a read of the program. -/
def loaded (p : Progress δ) (a : Word) : Progress δ where
  machine := (p.machine.load a true).machine
  events := p.events.push (.read a) ++ (p.machine.load a true).events

/- After a write of the program. -/
def stored (p : Progress δ) (a w : Word) : Progress δ where
  machine := p.machine.store a w
  events := p.events.push (.wrote a w)

/- With another event in the log. -/
def noted (p : Progress δ) (e : Event) : Progress δ := { p with events := p.events.push e }

/- After the fetch of a legal instruction whose address was noted before. -/
def advanced (p : Progress δ) : Progress δ where
  machine :=
    let r := p.machine.load p.machine.pc true
    { r.machine with pc := r.machine.pc + 1 }
  events := (p.loaded p.machine.pc).events.push (.fetched p.machine.pc p.machine.upcoming)

/- After the fetch of a legal instruction. -/
def fetched (p : Progress δ) : Progress δ where
  machine := p.machine.fetched
  events := (p.loaded p.machine.pc).events.push (.fetched p.machine.pc p.machine.upcoming)

/- After the count of the completed instruction at an address, which may halt the machine. -/
def finished (p : Progress δ) (pc : Word) (halts : Bool) : Progress δ where
  machine := p.machine.ticked
  events := if halts || !p.machine.clock then p.events.push (.halted pc) else p.events

/- The step that completed with the instruction at an address. -/
def concluded (p : Progress δ) (pc : Word) (halts : Bool) : Step δ where
  result := if halts || !p.machine.clock then .halted else .retired
  machine := p.machine.completed halts
  events := (p.finished pc halts).events

/- The step that a fault ended, taken back to the machine that it started from. -/
def undone (p : Progress δ) (m : Machine δ) (f : Fault) : Step δ where
  result := .faulted f
  machine := { m.rollBack p.machine with condition := .faulted f }
  events := p.events.push (.faulted f)

/- After the status and the program counter are pushed. -/
def pushed (p : Progress δ) : Progress δ :=
  let c := p.machine.core.supervisor
  let start : Progress δ := ⟨p.machine.withCore (c.descend c.sp), p.events⟩
  (start.stored (c.sp - 1) p.machine.psr.word).stored (c.sp - 2) p.machine.pc

/- After the entry of a handler. -/
def entered (p : Progress δ) (vector : Word) (priority : Option (BitVec 3)) : Progress δ where
  machine := p.machine.entered vector priority
  events :=
    let c := p.machine.core.supervisor
    ((p.events.push (.wrote (c.sp - 1) p.machine.psr.word)).push
      (.wrote (c.sp - 2) p.machine.pc)).push (.read vector) ++
        ((p.machine.poised priority).load vector true).events

/- After the return from a handler. -/
def returned (p : Progress δ) : Progress δ where
  machine := p.machine.returned
  events := ((p.loaded p.machine.core.sp).loaded (p.machine.core.sp + 1)).events

/- Once the devices were asked for interrupts and the urgent one was accepted. -/
def accepted (p : Progress δ) : Progress δ :=
  match p.machine.urgent? with
  | none => { p with machine := p.machine.polled }
  | some i => ({ p with machine := p.machine.polled }.noted (.interrupted i)).entered
      (interruptTable + unsignedField i.vector) (some i.priority)

theorem concluded_completes (p : Progress δ) (pc : Word) (halts : Bool) (f : Fault) :
    (p.concluded pc halts).result ≠ .faulted f := by
  unfold concluded
  dsimp only
  split <;> exact StepResult.noConfusion

theorem accepted_machine (p : Progress δ) : p.accepted.machine = p.machine.accepted := by
  unfold accepted Machine.accepted
  split <;> rfl

theorem entered_fetching (p : Progress δ) (b vector : Word) (priority : Option (BitVec 3)) :
    entered { p with machine := p.machine.fetching b } vector priority =
      { p.entered vector priority with machine := (p.machine.entered vector priority).fetching b } := by
  unfold entered
  dsimp only
  rw [Machine.entered_fetching, Machine.poised_fetching, Machine.load_fetching]
  rfl

theorem loaded_marked (p : Progress δ) (a : Word) : p.marked.loaded a =
    { p.loaded a with machine := (p.machine.load a true).machine.fetching p.machine.pc } := by
  have load : p.marked.machine.load a true = _ := p.machine.load_fetching p.machine.pc a true
  unfold loaded
  rw [load]
  rfl

theorem advanced_marked (p : Progress δ) : p.marked.advanced = p.fetched := by
  have upcoming : p.marked.machine.upcoming = p.machine.upcoming := p.machine.upcoming_marked
  have events : (p.marked.loaded p.marked.machine.pc).events = (p.loaded p.machine.pc).events :=
    (congrArg events (p.loaded_marked p.machine.pc)).trans rfl
  unfold advanced fetched
  rw [events, upcoming, Machine.fetched_eq]
  rfl

/- The note at the start of a step is renewed by the one behind the entry of a handler. -/
theorem accepted_marked (p : Progress δ) : p.marked.accepted.marked = p.accepted.marked := by
  have same : p.marked.machine.urgent? = p.machine.urgent? := rfl
  unfold accepted
  rw [same]
  cases p.machine.urgent? with
  | none => rfl
  | some i =>
    let q := ({ p with machine := p.machine.polled } : Progress δ).noted (.interrupted i)
    have entered := q.entered_fetching p.machine.pc (interruptTable + unsignedField i.vector)
      (some i.priority)
    exact (congrArg marked entered).trans rfl

theorem accepted_of_none {p : Progress δ} (h : p.machine.urgent? = none) :
    p.accepted = { p with machine := p.machine.polled } := by
  unfold accepted
  rw [h]

end Progress

namespace Cycle

/-! ### One part after another -/

theorem run_bind_of_ok {α β : Type} {c : Cycle δ α} {f : α → Cycle δ β} {p q : Progress δ} {a : α}
    (h : c.run p = .ok a q) : (c >>= f).run p = (f a).run q := by
  rw [run_bind, h]

theorem run_bind_of_error {α β : Type} {c : Cycle δ α} {f : α → Cycle δ β} {p q : Progress δ}
    {e : Fault} (h : c.run p = .error e q) : (c >>= f).run p = .error e q := by
  rw [run_bind, h]

/- The part faults at once unless a test succeeds. -/
def Guarded {α : Type} (c : Cycle δ α) (test : Progress δ → Bool) (value : Progress δ → α)
    (after : Progress δ → Progress δ) (fault : Fault) : Prop :=
  ∀ p, c.run p = if test p then .ok (value p) (after p) else .error fault p

/- After a part that faults unless a test succeeds. -/
theorem run_bind_of_ite {α β : Type} {c : Cycle δ α} {f : α → Cycle δ β} {p q r : Progress δ}
    {b : Prop} [Decidable b] {a : α} {e : Fault}
    (h : c.run p = if b then .ok a q else .error e r) :
    (c >>= f).run p = if b then (f a).run q else .error e r := by
  split at h
  · next hb => rw [if_pos hb, run_bind_of_ok h]
  · next hb => rw [if_neg hb, run_bind_of_error h]

theorem bind_error {α β : Type} {c : Cycle δ α} {f : α → Cycle δ β} {p q : Progress δ} {e : Fault}
    (h : (c >>= f).run p = .error e q) :
    c.run p = .error e q ∨ ∃ a r, c.run p = .ok a r ∧ (f a).run r = .error e q := by
  rw [run_bind] at h
  cases hc : c.run p with
  | error e' r =>
    rw [hc] at h
    cases h
    exact Or.inl rfl
  | ok a r =>
    rw [hc] at h
    exact Or.inr ⟨a, r, rfl, h⟩

variable [Device δ]

/-! ### Permitted accesses and the fetch -/

theorem run_accessRead (c : Access) (pc a : Word) (p : Progress δ) :
    (accessRead c pc a).run p =
      if c.permits a then (load a c.effects).run p else .error (.accessViolation pc a) p :=
  run_bind_of_ite (run_permit c pc a p)

theorem run_accessWrite (c : Access) (pc a w : Word) (p : Progress δ) :
    (accessWrite c pc a w).run p =
      if c.permits a then .ok () (p.stored a w) else .error (.accessViolation pc a) p :=
  run_bind_of_ite (run_permit c pc a p)

theorem run_loadPermitted (pc a : Word) (p : Progress δ) :
    (loadPermitted pc a).run p =
      if p.machine.access.permits a then .ok (p.machine.load a true).word (p.loaded a)
      else .error (.accessViolation pc a) p :=
  (run_bind_of_ok (run_look _ _)).trans (run_accessRead _ pc a p)

theorem run_storePermitted (pc a w : Word) (p : Progress δ) :
    (storePermitted pc a w).run p =
      if p.machine.access.permits a then .ok () (p.stored a w)
      else .error (.accessViolation pc a) p :=
  (run_bind_of_ok (run_look _ _)).trans (run_accessWrite _ pc a w p)

/- What is accessed with privilege is never refused, whatever the status has become in between. -/
theorem run_accessRead_of_privileged {c : Access} (h : c.privileged = true) (pc a : Word)
    (p : Progress δ) : (accessRead c pc a).run p = (load a c.effects).run p := by
  rw [run_accessRead, if_pos (permits_of_privileged h a)]

theorem run_accessWrite_of_privileged {c : Access} (h : c.privileged = true) (pc a w : Word)
    (p : Progress δ) : (accessWrite c pc a w).run p = .ok () (p.stored a w) := by
  rw [run_accessWrite, if_pos (permits_of_privileged h a)]

theorem eq_of_decode_reserved {w w' : Word} (h : Instruction.decode w = .reserved w') : w' = w := by
  have elim {α : Type} (o : Option α) (f : α → Instruction) (hf : ∀ a, f a ≠ .reserved w')
      (ho : o.elim (.reserved w) f = .reserved w') : w' = w := by
    cases o with
    | none => exact (Instruction.reserved.inj ho).symm
    | some a => exact absurd ho (hf a)
  have ite {c : Prop} [Decidable c] (i : Instruction) (hi : i ≠ .reserved w')
      (hc : (if c then i else .reserved w) = .reserved w') : w' = w := by
    split at hc
    · exact absurd hc hi
    · exact (Instruction.reserved.inj hc).symm
  unfold Instruction.decode at h
  dsimp only at h
  split at h
  all_goals first
    | exact (Instruction.reserved.inj h).symm
    | exact elim _ _ (fun _ => Instruction.noConfusion) h
    | exact ite _ Instruction.noConfusion h
    | cases h

theorem run_fetch (p : Progress δ) :
    (fetch p.machine.pc).run p =
      if p.machine.access.permits p.machine.pc then
        if p.machine.upcoming.isLegal then
          .ok p.machine.upcoming
            ((p.loaded p.machine.pc).noted (.fetched p.machine.pc p.machine.upcoming))
        else .error (.illegalInstruction p.machine.pc (p.machine.load p.machine.pc true).word)
          (p.loaded p.machine.pc)
      else .error (.accessViolation p.machine.pc p.machine.pc) p := by
  unfold Machine.upcoming
  rw [fetch, run_bind_of_ite (run_loadPermitted _ _ p)]
  cases hd : Instruction.decode (p.machine.load p.machine.pc true).word with
  | reserved w =>
    rw [eq_of_decode_reserved hd]
    rfl
  | _ => rfl

/-! ### Handlers -/

omit [Device δ] in
theorem run_toSupervisorStack (p : Progress δ) :
    toSupervisorStack.run p =
      .ok () { p with machine := p.machine.withCore p.machine.core.supervisor } := by
  unfold toSupervisorStack Core.supervisor
  rw [run_bind_of_ok (run_look _ _)]
  change EStateM.run (if p.machine.psr.privileged then pure () else swapStacks) p =
    .ok () { p with machine := p.machine.withCore (if p.machine.psr.privileged then _ else _) }
  split <;> rfl

/- What may be accessed is looked up after the mode was set. So neither push is refused, and nothing
that is accessed with the same right later on. -/
theorem run_push (p : Progress δ) : push.run p = .ok ⟨true, true⟩ p.pushed := by
  let c := p.machine.core.supervisor
  let m := p.machine.withCore c
  have kept : c.psr = p.machine.psr ∧ c.pc = p.machine.pc := by
    change (if p.machine.psr.privileged then p.machine.core else p.machine.core.swap).psr = _ ∧
      (if p.machine.psr.privileged then p.machine.core else p.machine.core.swap).pc = _
    split <;> exact ⟨rfl, rfl⟩
  have access : ({ m with psr := m.psr.withPrivileged true } : Machine δ).access = ⟨true, true⟩ := by
    unfold Machine.access
    rw [Psr.privileged_withPrivileged, Bool.true_or]
  unfold push
  rw [run_bind_of_ok (run_toSupervisorStack _), run_bind_of_ok (run_look _ _),
    run_bind_of_ok (run_look _ _), run_bind_of_ok (run_update _ _), run_bind_of_ok (run_look _ _),
    run_bind_of_ok (run_look _ _), run_bind_of_ok (run_update _ _)]
  change (do
    let s := ({ m with psr := m.psr.withPrivileged true } : Machine δ).access
    accessWrite s (← look Machine.fetchPc) (c.sp - 1) c.psr.word
    accessWrite s (← look Machine.fetchPc) (c.sp - 2) c.pc
    return s).run ⟨p.machine.withCore (c.descend c.sp), p.events⟩ = _
  rw [access, kept.1, kept.2]
  dsimp only
  rw [run_bind_of_ok (run_look _ _), run_bind_of_ok (run_accessWrite_of_privileged rfl _ _ _ _),
    run_bind_of_ok (run_look _ _), run_bind_of_ok (run_accessWrite_of_privileged rfl _ _ _ _)]
  rfl

theorem run_enter (vector : Word) (priority : Option (BitVec 3)) (p : Progress δ) :
    (enter vector priority).run p = .ok () (p.entered vector priority) := by
  let jump : Cycle δ Unit := do
    let target ← accessRead ⟨true, true⟩ (← look Machine.fetchPc) vector
    update fun m => { m with pc := target }
  have jumps (q : Progress δ) : jump.run q = .ok () { q.loaded vector with
      machine := { (q.loaded vector).machine with pc := (q.machine.load vector true).word } } := by
    unfold jump
    rw [run_bind_of_ok (run_look _ _), run_bind_of_ok (run_accessRead_of_privileged rfl _ _ _)]
    rfl
  unfold enter
  rw [run_bind_of_ok (run_push _), run_bind_of_ok (run_update _ _)]
  cases priority <;> exact jumps _

theorem run_leave (pc : Word) (p : Progress δ) :
    (leave pc).run p =
      if p.machine.access.privileged then .ok () p.returned
      else .error (.privilegeViolation pc) p := by
  unfold leave
  rw [run_bind_of_ok (run_look _ _)]
  by_cases h : p.machine.access.privileged = true
  · rw [if_pos h, if_pos h, run_bind_of_ok (run_look _ _),
      run_bind_of_ok (run_accessRead_of_privileged h _ _ _),
      run_bind_of_ok (run_accessRead_of_privileged h _ _ _), run_bind_of_ok (run_update _ _)]
    change EStateM.run (if p.machine.popped.psr.privileged then pure () else swapStacks)
      ⟨p.machine.popped, ((p.loaded p.machine.core.sp).loaded (p.machine.core.sp + 1)).events⟩ = _
    unfold Progress.returned Machine.returned
    split <;> rfl
  · rw [if_neg h, if_neg h]
    rfl

theorem run_execute_trap (pc : Word) (v : BitVec 8) (p : Progress δ) :
    (execute pc (.trap v)).run p =
      if v = haltVector ∧ !p.machine.flags.realHalt then .ok true p
      else .ok false (p.entered (unsignedField v) none) := by
  unfold execute
  rw [run_bind_of_ok (run_look _ _)]
  split
  · rfl
  · exact run_bind_of_ok (run_enter _ _ _)

theorem run_execute_rti (pc : Word) (p : Progress δ) :
    (execute pc .rti).run p =
      if p.machine.access.privileged then .ok false p.returned
      else .error (.privilegeViolation pc) p :=
  run_bind_of_ite (run_leave pc p)

/-! ### A whole step -/

theorem run_acceptInterrupt (p : Progress δ) :
    acceptInterrupt.run p = .ok () (match p.machine.urgent? with
      | none => p.accepted
      | some _ => p.accepted.marked) := by
  unfold acceptInterrupt Progress.accepted Machine.urgent?
  rw [run_bind_of_ok (run_look _ _), run_bind_of_ok (run_update _ _)]
  cases p.machine.bus.poll.1 with
  | none => rfl
  | some i =>
    change (look _ >>= _).run ⟨p.machine.polled, p.events⟩ = _
    rw [run_bind_of_ok (run_look _ _), Option.filter_some]
    change EStateM.run (if p.machine.psr.priority < i.priority then _ else _) _ = _
    by_cases h : p.machine.psr.priority < i.priority
    · rw [if_pos h, if_pos (decide_eq_true h), run_bind_of_ok (run_note _ _),
        run_bind_of_ok (run_enter _ _ _)]
      rfl
    · rw [if_neg h, if_neg (by rwa [decide_eq_true_eq])]
      rfl

/- The address of the instruction is noted before the devices are asked, and once more behind the entry
of a handler. -/
theorem run_mark_acceptInterrupt (p : Progress δ) :
    (do mark; acceptInterrupt).run p = .ok () p.accepted.marked := by
  have same : p.marked.machine.urgent? = p.machine.urgent? := rfl
  rw [mark, run_bind_of_ok (run_update _ _)]
  change acceptInterrupt.run p.marked = _
  rw [run_acceptInterrupt, ← p.accepted_marked, same]
  cases h : p.machine.urgent? with
  | none =>
    rw [Progress.accepted_of_none (same.trans h)]
    rfl
  | some i => rfl

/- The instruction at an address, once the address is noted. -/
def carryOut (pc : Word) : Cycle δ Bool := do
  let instruction ← fetch pc
  update fun m => { m with pc := m.pc + 1 }
  execute pc instruction

/- The instruction at an address. -/
def perform (pc : Word) : Cycle δ Bool := do
  mark
  carryOut pc

/- What follows the instruction at an address. -/
def finish (pc : Word) (halts : Bool) : Cycle δ Bool := do
  retire
  let stops := halts || !(← look Machine.clock)
  if stops then note (.halted pc)
  return stops

theorem run_carryOut (p : Progress δ) :
    (carryOut p.machine.pc).run p =
      if p.machine.access.permits p.machine.pc then
        if p.machine.upcoming.isLegal then
          (execute p.machine.pc p.machine.upcoming).run p.advanced
        else .error (.illegalInstruction p.machine.pc (p.machine.load p.machine.pc true).word)
          (p.loaded p.machine.pc)
      else .error (.accessViolation p.machine.pc p.machine.pc) p := by
  have hf := run_fetch p
  unfold carryOut
  by_cases ha : p.machine.access.permits p.machine.pc = true
  · rw [if_pos ha] at hf
    rw [if_pos ha]
    by_cases hl : p.machine.upcoming.isLegal = true
    · rw [if_pos hl] at hf
      rw [if_pos hl, run_bind_of_ok hf, run_bind_of_ok (run_update _ _)]
      rfl
    · rw [if_neg hl] at hf
      rw [if_neg hl, run_bind_of_error hf]
  · rw [if_neg ha] at hf
    rw [if_neg ha, run_bind_of_error hf]

theorem run_perform_eq (pc : Word) (p : Progress δ) :
    (perform pc).run p = (carryOut pc).run p.marked := run_bind_of_ok (run_update _ _)

theorem run_perform (p : Progress δ) :
    (perform p.machine.pc).run p =
      if p.machine.access.permits p.machine.pc then
        if p.machine.upcoming.isLegal then
          (execute p.machine.pc p.machine.upcoming).run p.fetched
        else .error (.illegalInstruction p.machine.pc (p.machine.load p.machine.pc true).word)
          (p.marked.loaded p.machine.pc)
      else .error (.accessViolation p.machine.pc p.machine.pc) p.marked := by
  have word : (p.marked.machine.load p.machine.pc true).word = (p.machine.load p.machine.pc true).word :=
    (congrArg Machine.Loaded.word (p.machine.load_fetching p.machine.pc p.machine.pc true)).trans rfl
  rw [run_perform_eq, ← p.advanced_marked, ← word, ← p.machine.upcoming_marked]
  exact run_carryOut p.marked

theorem oneInstruction_eq : oneInstruction (δ := δ) = (do
    (do mark; acceptInterrupt)
    let pc ← look Machine.fetchPc
    let halts ← carryOut pc
    finish pc halts) := by
  unfold carryOut
  simp only [bind_assoc]
  rfl

theorem run_finish (pc : Word) (halts : Bool) (p : Progress δ) :
    (finish pc halts).run p = .ok (halts || !p.machine.clock) (p.finished pc halts) := by
  unfold finish Progress.finished
  rw [retire, run_bind_of_ok (run_update _ _), run_bind_of_ok (run_look _ _)]
  change EStateM.run (if (halts || !p.machine.clock) then _ else _) _ = _
  cases halts || !p.machine.clock <;> rfl

end Cycle

namespace Machine

variable [Device δ]

theorem accepted_of_none {m : Machine δ} (h : m.urgent? = none) : m.accepted = m.polled := by
  unfold accepted
  rw [h]

theorem step_of_ready (m : Machine δ) (ready : m.condition = .ready) :
    m.step = match (Cycle.perform m.accepted.pc).run (Progress.accepted ⟨m, #[]⟩) with
      | .ok halts q => q.concluded m.accepted.pc halts
      | .error f q => q.undone m f := by
  have here : (Progress.accepted ⟨m, #[]⟩).marked.machine.fetchPc = m.accepted.pc :=
    congrArg Machine.pc (Progress.accepted_machine ⟨m, #[]⟩)
  unfold step
  rw [ready, Cycle.oneInstruction_eq, Cycle.run_perform_eq]
  dsimp only
  rw [Cycle.run_bind_of_ok (Cycle.run_mark_acceptInterrupt _),
    Cycle.run_bind_of_ok (Cycle.run_look _ _), here]
  cases h : (Cycle.carryOut m.accepted.pc).run (Progress.accepted ⟨m, #[]⟩).marked with
  | ok halts q =>
    rw [Cycle.run_bind_of_ok h, Cycle.run_finish]
    dsimp only
    unfold Progress.concluded Progress.finished completed
    cases halts || !q.machine.clock <;> rfl
  | error f q =>
    rw [Cycle.run_bind_of_error h]
    rfl

/- The instruction of the step faults and leaves a machine to be taken back. -/
def BreaksOff (m : Machine δ) (f : Fault) (after : Machine δ) : Prop :=
  ∃ events, (Cycle.perform m.accepted.pc).run (Progress.accepted ⟨m, #[]⟩) = .error f ⟨after, events⟩

/- Machines that stopped in the same condition stay as they are. -/
theorem step_of_stopped {m m' : Machine δ} (stopped : m.condition ≠ .ready)
    (same : m'.condition = m.condition) :
    m'.step.result = m.step.result ∧ m'.step.events = m.step.events ∧
      m.step.machine = m ∧ m'.step.machine = m' := by
  unfold step
  rw [same]
  cases hc : m.condition with
  | ready => exact absurd hc stopped
  | halted => exact ⟨rfl, rfl, rfl, rfl⟩
  | faulted f => exact ⟨rfl, rfl, rfl, rfl⟩

/-- A step of a ready machine completes with an instruction or is undone. -/
theorem step_cases (m : Machine δ) (ready : m.condition = .ready) :
    (∃ halts q, m.accepted.access.permits m.accepted.pc = true ∧
      m.accepted.upcoming.isLegal = true ∧
      (Cycle.execute m.accepted.pc m.accepted.upcoming).run
        (Progress.accepted ⟨m, #[]⟩).fetched = .ok halts q ∧
      m.step = q.concluded m.accepted.pc halts) ∨
    ∃ f q, (Cycle.perform m.accepted.pc).run (Progress.accepted ⟨m, #[]⟩) = .error f q ∧
      m.step = q.undone m f := by
  have hs := m.step_of_ready ready
  have hp := Cycle.run_perform (Progress.accepted ⟨m, #[]⟩)
  have ha : (Progress.accepted ⟨m, #[]⟩).machine = m.accepted := Progress.accepted_machine _
  rw [ha] at hp
  cases hr : (Cycle.perform m.accepted.pc).run (Progress.accepted ⟨m, #[]⟩) with
  | error f q =>
    rw [hr] at hs
    exact Or.inr ⟨f, q, rfl, hs⟩
  | ok halts q =>
    rw [hr] at hs hp
    split at hp
    · next permitted =>
      split at hp
      · next legal => exact Or.inl ⟨halts, q, permitted, legal, hp.symm, hs⟩
      · cases hp
    · cases hp

theorem step_of_faulted {m : Machine δ} {f : Fault} (ready : m.condition = .ready)
    (faulted : m.step.result = .faulted f) :
    ∃ q, (Cycle.perform m.accepted.pc).run (Progress.accepted ⟨m, #[]⟩) = .error f q ∧
      m.step = q.undone m f := by
  obtain ⟨halts, q, -, -, -, step⟩ | ⟨e, q, run, step⟩ := m.step_cases ready
  · rw [step] at faulted
    exact absurd faulted (q.concluded_completes _ _ f)
  · rw [step] at faulted
    cases faulted
    exact ⟨q, run, step⟩

end Machine

end Lc3
