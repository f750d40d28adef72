import Lc3.Proofs.Loop

/-!
# What the log of a step tells

The log of a step says what the program accessed and what became of the step. An instruction adds
accesses only (`execute_unmarked`), so an interrupt is logged exactly if one is accepted
(`interrupted_mem_step`), and the address of the fetch is the address of the instruction that is
executed (`fetched_mem_step`). The reads are known exactly: the vector of an interrupt, the
instruction, and what the instruction reads through its operands (`read_mem_step`).
-/

namespace Lc3

variable {δ α β : Type}

/- The events that an access leaves in a log. -/
def Event.isAccess : Event → Bool
  | .read _ => true
  | .wrote _ _ => true
  | .consumed _ _ => true
  | _ => false

/- The events that a read may leave besides itself. -/
def Event.isConsumption : Event → Bool
  | .consumed _ _ => true
  | _ => false

/-! ### Logs of parts -/

/- The log after a part of a step, however it ends. -/
def Cycle.log (c : Cycle δ α) (p : Progress δ) : Array Event :=
  match c.run p with
  | .ok _ q => q.events
  | .error _ q => q.events

namespace Cycle

theorem log_of_ok {c : Cycle δ α} {p q : Progress δ} {a : α} (h : c.run p = .ok a q) :
    c.log p = q.events := by
  unfold log
  rw [h]

theorem log_of_error {c : Cycle δ α} {p q : Progress δ} {f : Fault} (h : c.run p = .error f q) :
    c.log p = q.events := by
  unfold log
  rw [h]

theorem log_bind_of_ok {c : Cycle δ α} {k : α → Cycle δ β} {p q : Progress δ} {a : α}
    (h : c.run p = .ok a q) : (c >>= k).log p = (k a).log q := by
  unfold log
  rw [run_bind_of_ok h]

theorem log_bind_of_guarded {c : Cycle δ α} {k : α → Cycle δ β} {test : Progress δ → Bool}
    {value : Progress δ → α} {after : Progress δ → Progress δ} {fault : Fault}
    (h : Guarded c test value after fault) (p : Progress δ) :
    (c >>= k).log p = if test p then (k (value p)).log (after p) else p.events := by
  have hp := h p
  by_cases passed : test p = true
  · rw [if_pos passed] at hp ⊢
    exact log_bind_of_ok hp
  · rw [if_neg passed] at hp ⊢
    exact log_of_error (run_bind_of_error hp)

end Cycle

variable [Device δ]

/-! ### Single accesses -/

namespace Machine

theorem load_events {m : Machine δ} {a : Word} {effects : Bool} {e : Event}
    (h : e ∈ (m.load a effects).events) : e.isConsumption = true := by
  have read {b : Bus δ} (h : e ∈ (b.read a effects).events) : e.isConsumption = true := by
    unfold Bus.read at h
    split at h
    · cases h
    · dsimp only at h
      split at h
      · rw [List.mem_singleton.mp h]
        rfl
      · cases h
    · cases h
    · cases h
  unfold load at h
  split at h
  · cases h
  · split at h
    · cases h
    · split at h
      · dsimp only at h
        split at h
        · exact read h
        · exact read h
      · cases h

end Machine

section Accesses

variable {e : Event} (he : e.isConsumption = false) (p : Progress δ)

include he

theorem mem_loaded (a : Word) : e ∈ (p.loaded a).events ↔ e ∈ p.events ∨ e = .read a := by
  have silent : e ∉ (p.machine.load a true).events := by
    intro h
    rw [Machine.load_events h] at he
    cases he
  unfold Progress.loaded
  rw [← Array.mem_toList_iff, Array.toList_appendList, List.mem_append, Array.mem_toList_iff,
    Array.mem_push, or_iff_left silent]

theorem mem_fetched : e ∈ p.fetched.events ↔
    e ∈ p.events ∨ e = .read p.machine.pc ∨ e = .fetched p.machine.pc p.machine.upcoming := by
  unfold Progress.fetched
  rw [Array.mem_push, mem_loaded he, or_assoc]

theorem mem_returned : e ∈ p.returned.events ↔
    e ∈ p.events ∨ e = .read p.machine.core.sp ∨ e = .read (p.machine.core.sp + 1) := by
  unfold Progress.returned
  rw [mem_loaded he, mem_loaded he, or_assoc]

theorem mem_entered (unwritten : ∀ a w, e ≠ .wrote a w) (vector : Word)
    (priority : Option (BitVec 3)) :
    e ∈ (p.entered vector priority).events ↔ e ∈ p.events ∨ e = .read vector := by
  let c := p.machine.core.supervisor
  let pushed : Progress δ := ⟨p.machine.poised priority,
    (p.events.push (.wrote (c.sp - 1) p.machine.psr.word)).push (.wrote (c.sp - 2) p.machine.pc)⟩
  have loaded : e ∈ (pushed.loaded vector).events ↔ _ := mem_loaded he pushed vector
  have before : e ∈ pushed.events ↔ e ∈ p.events := by
    change e ∈ (p.events.push _).push _ ↔ _
    rw [Array.mem_push, Array.mem_push, or_iff_left (unwritten _ _), or_iff_left (unwritten _ _)]
  rw [before] at loaded
  exact loaded

end Accesses

theorem Event.isConsumption_of_not_isAccess {e : Event} (h : e.isAccess = false) :
    e.isConsumption = false := by
  cases e with
  | consumed b n => exact h
  | _ => rfl

theorem Event.ne_of_not_isAccess {e e' : Event} (h : e.isAccess = false) (h' : e'.isAccess = true) :
    e ≠ e' := by
  rintro rfl
  rw [h] at h'
  cases h'

/-! ### Instructions -/

/- All but the accesses of the program is logged before an instruction or after it. -/
def Unmarked (p q : Progress δ) : Prop :=
  ∀ e : Event, e.isAccess = false → (e ∈ q.events ↔ e ∈ p.events)

theorem entered_unmarked (p : Progress δ) (vector : Word) (priority : Option (BitVec 3)) :
    Unmarked p (p.entered vector priority) := by
  intro e he
  have hc := Event.isConsumption_of_not_isAccess he
  rw [mem_entered hc p fun a w => Event.ne_of_not_isAccess he rfl]
  exact or_iff_left (Event.ne_of_not_isAccess he rfl)

theorem frame_unmarked : Cycle.Frame (Unmarked (δ := δ)) where
  refl p e _ := Iff.rfl
  trans h h' e he := (h' e he).trans (h e he)
  mark p e _ := Iff.rfl
  move p rs pc e _ := Iff.rfl
  record p w e _ := Iff.rfl
  read p a _ e he := by
    rw [mem_loaded (Event.isConsumption_of_not_isAccess he)]
    exact or_iff_left (Event.ne_of_not_isAccess he rfl)
  write p a w _ e he := by
    unfold Progress.stored
    rw [Array.mem_push]
    exact or_iff_left (Event.ne_of_not_isAccess he rfl)
  leave p _ e he := by
    rw [mem_returned (Event.isConsumption_of_not_isAccess he)]
    exact or_iff_left fun h => h.elim (Event.ne_of_not_isAccess he rfl)
      (Event.ne_of_not_isAccess he rfl)

theorem execute_unmarked (pc : Word) (i : Instruction) :
    Cycle.Keeps (Unmarked (δ := δ)) (Cycle.execute pc i) :=
  frame_unmarked.compositional.execute pc i fun v hv => by
    rw [hv]
    exact frame_unmarked.execute_trap pc v fun p vector => entered_unmarked p vector none

theorem mem_execute {e : Event} (he : e.isAccess = false) (pc : Word) (i : Instruction)
    (p : Progress δ) : e ∈ (Cycle.execute pc i).log p ↔ e ∈ p.events := by
  cases h : (Cycle.execute pc i).run p with
  | ok halts q =>
    rw [Cycle.log_of_ok h]
    exact (execute_unmarked pc i).of_ok h e he
  | error f q =>
    rw [Cycle.log_of_error h]
    exact (execute_unmarked pc i).of_error h e he

namespace Machine

/- The execution of an instruction, with the program counter behind it, reads an address. -/
def Reads (m : Machine δ) (a : Word) : Instruction → Prop
  | .ld _ offset => a = m.pc + signedField offset ∧ m.access.permits a = true
  | .ldr _ base offset => a = m.reg base + signedField offset ∧ m.access.permits a = true
  | .ldi _ offset =>
    let pointer := m.pc + signedField offset
    m.access.permits pointer = true ∧
      (a = pointer ∨ a = (m.load pointer true).word ∧ m.access.permits a = true)
  | .sti _ offset => a = m.pc + signedField offset ∧ m.access.permits a = true
  | .rti => m.access.privileged = true ∧ (a = m.reg stackReg ∨ a = m.reg stackReg + 1)
  | .trap v => ¬(v = haltVector ∧ !m.flags.realHalt) ∧ a = unsignedField v
  | _ => False

theorem not_reads_of_illegal (m : Machine δ) (a : Word) {i : Instruction}
    (h : ¬i.isLegal = true) : ¬m.Reads a i := by
  cases i with
  | reserved w => exact id
  | _ => exact absurd rfl h

theorem load_access (m : Machine δ) (a : Word) (effects : Bool) :
    (m.load a effects).machine.access = m.access := by
  rw [load_frame]
  rfl

end Machine

section Operands

open Lc3.Cycle

variable (pc a b : Word) (p : Progress δ)

theorem read_mem_loaded : .read a ∈ (p.loaded b).events ↔ .read a ∈ p.events ∨ a = b := by
  rw [mem_loaded rfl, Event.read.injEq]

theorem read_mem_fetched :
    .read a ∈ p.fetched.events ↔ .read a ∈ p.events ∨ a = p.machine.pc := by
  have other : Event.read a ≠ .fetched p.machine.pc p.machine.upcoming := Event.noConfusion
  rw [mem_fetched rfl, or_iff_left other, Event.read.injEq]

/- A permitted access and nothing after it that is logged. -/
theorem read_mem_datum {k : Word → Cycle δ β} (silent : ∀ w q, (k w).log q = q.events) :
    .read a ∈ (loadPermitted pc b >>= k).log p ↔
      .read a ∈ p.events ∨ a = b ∧ p.machine.access.permits a = true := by
  rw [log_bind_of_guarded (run_loadPermitted pc b)]
  by_cases permitted : p.machine.access.permits b = true
  · have same : a = b ↔ a = b ∧ p.machine.access.permits a = true :=
      ⟨fun h => ⟨h, h ▸ permitted⟩, And.left⟩
    rw [if_pos permitted, silent, read_mem_loaded, ← same]
  · have refused : ¬(a = b ∧ p.machine.access.permits a = true) := fun h => permitted (h.1 ▸ h.2)
    rw [if_neg permitted, or_iff_left refused]

theorem read_mem_target {k : Unit → Cycle δ β} (silent : ∀ q, (k ()).log q = q.events) (w : Word) :
    .read a ∈ (storePermitted pc b w >>= k).log p ↔ .read a ∈ p.events := by
  rw [log_bind_of_guarded (run_storePermitted pc b w)]
  split
  · rw [silent]
    unfold Progress.stored
    rw [Array.mem_push]
    exact or_iff_left Event.noConfusion
  · exact Iff.rfl

/-- An instruction reads through its operands, and nothing else. -/
theorem read_mem_execute (i : Instruction) :
    .read a ∈ (execute pc i).log p ↔ .read a ∈ p.events ∨ p.machine.Reads a i := by
  have silent (h : (execute pc i).log p = p.events) (none : ¬p.machine.Reads a i) :
      .read a ∈ (execute pc i).log p ↔ .read a ∈ p.events ∨ p.machine.Reads a i := by
    rw [h, or_iff_left none]
  cases i with
  | br codes o => exact silent rfl id
  | add d s x => cases x <;> exact silent rfl id
  | and d s x => cases x <;> exact silent rfl id
  | not d s => exact silent rfl id
  | lea d o => exact silent rfl id
  | jsr t => cases t <;> exact silent rfl id
  | jmp r => exact silent rfl id
  | reserved w => exact silent rfl id
  | ld d o =>
    unfold execute relative
    rw [log_bind_of_ok (run_look _ _)]
    exact read_mem_datum pc a _ p fun w q => rfl
  | ldr d r o =>
    unfold execute
    rw [log_bind_of_ok (run_look _ _)]
    exact read_mem_datum pc a _ p fun w q => rfl
  | st s o =>
    unfold execute relative
    rw [log_bind_of_ok (run_look _ _), log_bind_of_ok (run_look _ _)]
    exact (read_mem_target pc a _ p (fun q => rfl) _).trans (or_iff_left id).symm
  | str s r o =>
    unfold execute
    rw [log_bind_of_ok (run_look _ _), log_bind_of_ok (run_look _ _)]
    exact (read_mem_target pc a _ p (fun q => rfl) _).trans (or_iff_left id).symm
  | ldi d o =>
    unfold execute relative Machine.Reads
    dsimp only
    rw [log_bind_of_ok (run_look _ _), log_bind_of_guarded (run_loadPermitted pc _)]
    by_cases permitted : p.machine.access.permits (p.machine.pc + signedField o) = true
    · have access := p.machine.load_access (p.machine.pc + signedField o) true
      rw [if_pos permitted, read_mem_datum pc a _ _ (fun w q => rfl), read_mem_loaded, or_assoc]
      change _ ∨ _ ∨ _ ∧ (p.machine.load _ true).machine.access.permits a = true ↔ _
      rw [access]
      exact or_congr_right (and_iff_right permitted).symm
    · rw [if_neg permitted, or_iff_left fun h => permitted h.1]
  | sti s o =>
    unfold execute relative Machine.Reads
    rw [log_bind_of_ok (run_look _ _), log_bind_of_guarded (run_loadPermitted pc _)]
    by_cases permitted : p.machine.access.permits (p.machine.pc + signedField o) = true
    · rw [if_pos permitted, log_bind_of_ok (run_look _ _),
        read_mem_target pc a _ _ (fun q => rfl), read_mem_loaded]
      exact or_congr_right ⟨fun h => ⟨h, h ▸ permitted⟩, And.left⟩
    · have refused : ¬(a = p.machine.pc + signedField o ∧ p.machine.access.permits a = true) :=
        fun h => permitted (h.1 ▸ h.2)
      rw [if_neg permitted, or_iff_left refused]
  | rti =>
    have run := run_execute_rti pc p
    unfold Machine.Reads
    by_cases privileged : p.machine.access.privileged = true
    · rw [if_pos privileged] at run
      rw [log_of_ok run, mem_returned rfl, Event.read.injEq, Event.read.injEq]
      exact or_congr_right (and_iff_right privileged).symm
    · rw [if_neg privileged] at run
      rw [log_of_error run, or_iff_left fun h => privileged h.1]
  | trap v =>
    have run := run_execute_trap pc v p
    unfold Machine.Reads
    by_cases halts : v = haltVector ∧ (!p.machine.flags.realHalt) = true
    · rw [if_pos halts] at run
      rw [log_of_ok run, or_iff_left fun h => h.1 halts]
    · rw [if_neg halts] at run
      rw [log_of_ok run, mem_entered rfl _ fun _ _ => Event.noConfusion, Event.read.injEq]
      exact or_congr_right (and_iff_right halts).symm

end Operands

/-! ### Steps -/

namespace Machine

variable {m : Machine δ}

/- The log of the instruction that a step executes. -/
theorem log_perform (p : Progress δ) :
    (Cycle.perform p.machine.pc).log p =
      if p.machine.access.permits p.machine.pc then
        if p.machine.upcoming.isLegal then (Cycle.execute p.machine.pc p.machine.upcoming).log p.fetched
        else (p.loaded p.machine.pc).events
      else p.events := by
  unfold Cycle.log
  rw [Cycle.run_perform]
  by_cases permitted : p.machine.access.permits p.machine.pc = true
  · rw [if_pos permitted, if_pos permitted]
    by_cases legal : p.machine.upcoming.isLegal = true
    · rw [if_pos legal, if_pos legal]
    · rw [if_neg legal, if_neg legal, Progress.loaded_marked]
  · rw [if_neg permitted, if_neg permitted]
    rfl

/- What is said of a step when it is over is said last. -/
theorem mem_step (ready : m.condition = .ready) {e : Event} (halted : ∀ pc, e ≠ .halted pc)
    (faulted : ∀ f, e ≠ .faulted f) :
    e ∈ m.step.events ↔
      e ∈ (Cycle.perform m.accepted.pc).log (Progress.accepted ⟨m, #[]⟩) := by
  rw [m.step_of_ready ready]
  cases h : (Cycle.perform m.accepted.pc).run (Progress.accepted ⟨m, #[]⟩) with
  | ok halts q =>
    rw [Cycle.log_of_ok h]
    unfold Progress.concluded Progress.finished
    dsimp only
    split
    · rw [Array.mem_push, or_iff_left (halted _)]
    · exact Iff.rfl
  | error f q =>
    rw [Cycle.log_of_error h]
    unfold Progress.undone
    rw [Array.mem_push, or_iff_left (faulted _)]

theorem mem_accepted (m : Machine δ) {e : Event} (he : e.isConsumption = false)
    (unwritten : ∀ a w, e ≠ .wrote a w) :
    e ∈ (Progress.accepted ⟨m, #[]⟩).events ↔
      ∃ i, m.urgent? = some i ∧
        (e = .interrupted i ∨ e = .read (interruptTable + unsignedField i.vector)) := by
  unfold Progress.accepted
  cases h : m.urgent? with
  | none =>
    dsimp only
    exact ⟨fun told => absurd told (Array.not_mem_empty e), fun ⟨_, urgent, _⟩ => nomatch urgent⟩
  | some i =>
    dsimp only
    rw [mem_entered he _ unwritten]
    unfold Progress.noted
    rw [Array.mem_push, or_iff_right (Array.not_mem_empty e)]
    exact ⟨fun told => ⟨i, rfl, told⟩, fun ⟨_, same, told⟩ => Option.some.inj same ▸ told⟩

/- A step logs the address that it executes an instruction from. -/
theorem fetched_mem_step (ready : m.condition = .ready) {a : Word} {i : Instruction}
    (h : .fetched a i ∈ m.step.events) : a = m.accepted.pc := by
  have elsewhere : Event.fetched a i ∉ (Progress.accepted ⟨m, #[]⟩).events := by
    rw [mem_accepted m rfl fun _ _ => Event.noConfusion]
    rintro ⟨_, -, h | h⟩
    · cases h
    · cases h
  have ha : (Progress.accepted ⟨m, #[]⟩).machine = m.accepted := Progress.accepted_machine _
  rw [mem_step ready (fun _ => Event.noConfusion) fun _ => Event.noConfusion, ← ha, log_perform] at h
  split at h
  · split at h
    · rw [mem_execute rfl, mem_fetched rfl, or_iff_right elsewhere, or_iff_right Event.noConfusion] at h
      rw [← ha]
      exact (Event.fetched.inj h).1
    · rw [mem_loaded rfl, or_iff_right elsewhere] at h
      cases h
  · exact absurd h elsewhere

/- A step logs the interrupt that it accepts. -/
theorem interrupted_mem_step (ready : m.condition = .ready) {i : Interrupt} :
    .interrupted i ∈ m.step.events ↔ m.urgent? = some i := by
  have accepted : Event.interrupted i ∈ (Progress.accepted ⟨m, #[]⟩).events ↔ m.urgent? = some i := by
    rw [mem_accepted m rfl fun _ _ => Event.noConfusion]
    constructor
    · rintro ⟨j, urgent, h | h⟩
      · rw [urgent, Event.interrupted.inj h]
      · cases h
    · exact fun urgent => ⟨i, urgent, Or.inl rfl⟩
  have ha : (Progress.accepted ⟨m, #[]⟩).machine = m.accepted := Progress.accepted_machine _
  rw [mem_step ready (fun _ => Event.noConfusion) fun _ => Event.noConfusion, ← ha, log_perform,
    ← accepted]
  split
  · split
    · rw [mem_execute rfl, mem_fetched rfl]
      exact or_iff_left fun h => h.elim Event.noConfusion Event.noConfusion
    · rw [mem_loaded rfl]
      exact or_iff_left Event.noConfusion
  · exact Iff.rfl

/-- A step reads the vector of the interrupt that it accepts, the instruction, and what the
instruction reads. -/
theorem read_mem_step (ready : m.condition = .ready) (a : Word) :
    .read a ∈ m.step.events ↔
      (∃ i, m.urgent? = some i ∧ a = interruptTable + unsignedField i.vector) ∨
        m.accepted.access.permits m.accepted.pc = true ∧
          (a = m.accepted.pc ∨ m.accepted.fetched.Reads a m.accepted.upcoming) := by
  have accepted : Event.read a ∈ (Progress.accepted ⟨m, #[]⟩).events ↔
      ∃ i, m.urgent? = some i ∧ a = interruptTable + unsignedField i.vector := by
    rw [mem_accepted m rfl fun _ _ => Event.noConfusion]
    refine exists_congr fun i => and_congr_right fun _ => ?_
    rw [or_iff_right Event.noConfusion, Event.read.injEq]
  have ha : (Progress.accepted ⟨m, #[]⟩).machine = m.accepted := Progress.accepted_machine _
  rw [mem_step ready (fun _ => Event.noConfusion) fun _ => Event.noConfusion, ← ha, log_perform,
    ← accepted]
  by_cases permitted : (Progress.accepted ⟨m, #[]⟩).machine.access.permits
      (Progress.accepted ⟨m, #[]⟩).machine.pc = true
  · rw [if_pos permitted, and_iff_right permitted]
    by_cases legal : (Progress.accepted ⟨m, #[]⟩).machine.upcoming.isLegal = true
    · rw [if_pos legal, read_mem_execute, read_mem_fetched, or_assoc]
      exact Iff.rfl
    · rw [if_neg legal, read_mem_loaded, or_iff_left (not_reads_of_illegal _ a legal)]
  · rw [if_neg permitted, or_iff_left fun h => permitted h.1]

end Machine

end Lc3
