import Lc3.Proofs.Log
import Lc3.Proofs.Lookahead
import Lc3.Proofs.Trail

/-!
# What a wait for input announces

A run that watches for input stops in front of a load whose datum is the data register of the
keyboard, while no byte is queued (`awaitsInput_iff`). It looks with the eyes of an inspection: where
the program may not read the register, the load would not read it but fault (`step_refused`). And it
looks at the datum only: it overlooks that the register may be read as an instruction, as a pointer or
from the stack. Apart from both, a wait says exactly that the next step reads the register
(`read_kbdr_iff`).
-/

namespace Lc3

variable {δ : Type} [Device δ]

/-! ### Reads without input -/

namespace Bus

variable {b : Bus δ} (bare : b.attached = []) (empty : b.keyboard.queue = [])

include bare empty

/- Then the program reads like an inspection. -/
theorem read_silent (a : Word) : b.read a true = b.read a false := by
  have hc := Keyboard.consume?_of_empty empty
  unfold read
  split
  · rfl
  · dsimp only
    unfold Keyboard.read
    rw [hc]
    cases true && a == kbdr <;> rfl
  · rfl
  · next owned => exact absurd owned (owner?_ne_attached bare)

omit empty in
theorem poll_of_quiet (quiet : b.keyboard.poll = none) : b.poll = (none, b) := by
  unfold poll offers
  have still : b.mapDevices (fun d => (Device.poll d).2) = b := mapDevices_eq_self fun x hx => by
    rw [bare] at hx
    cases hx
  rw [quiet, still, ← b.map_device_attached, bare]
  rfl

theorem poll_of_empty : b.poll = (none, b) := by
  apply poll_of_quiet bare
  unfold Keyboard.poll Keyboard.ready
  rw [empty]
  rfl

end Bus

namespace Machine

variable {m : Machine δ}

theorem load_word_withPc (m : Machine δ) (pc here a : Word) (effects : Bool) :
    (({ m with pc := pc, fetchPc := here } : Machine δ).load a effects).word =
      (m.load a effects).word := by
  unfold load
  split
  · rfl
  · split
    · rfl
    · split
      · dsimp only
        split <;> rfl
      · rfl

section Bare

variable (bare : m.bus.attached = []) (empty : m.bus.keyboard.queue = [])

include bare empty

theorem load_silent (a : Word) : m.load a true = m.load a false := by
  unfold load
  rw [Bus.read_silent bare empty]

theorem urgent_none_of_empty : m.urgent? = none := by
  unfold urgent?
  rw [Bus.poll_of_empty bare empty]
  rfl

theorem polled_of_empty : m.polled = m := by
  unfold polled
  rw [Bus.poll_of_empty bare empty]

theorem accepted_of_empty : m.accepted = m :=
  (accepted_of_none (urgent_none_of_empty bare empty)).trans (polled_of_empty bare empty)

/- The look ahead sees what the step will fetch. -/
theorem upcoming_inspect : m.upcoming = Instruction.decode (m.inspect m.pc).1 := by
  unfold upcoming
  rw [load_silent bare empty]
  rfl

theorem fetched_inspect :
    m.fetched = { (m.inspect m.pc).2 with pc := (m.inspect m.pc).2.pc + 1, fetchPc := m.pc } := by
  unfold fetched
  rw [load_silent bare empty]
  rfl

theorem inspect_pointer (a : Word) :
    ((m.inspect m.pc).2.inspect a).1 = (m.fetched.load a true).word := by
  have hbus := inspect_bus bare m.pc
  rw [fetched_inspect bare empty, load_word_withPc, load_silent (hbus ▸ bare) (hbus ▸ empty)]
  rfl

end Bare

/-! ### The datum of a load -/

/- The address of the datum that an instruction loads, with the program counter behind it. -/
def datum? (m : Machine δ) : Instruction → Option Word
  | .ld _ offset => some (m.pc + signedField offset)
  | .ldr _ base offset => some (m.reg base + signedField offset)
  | .ldi _ offset => some (m.load (m.pc + signedField offset) true).word
  | _ => none

theorem awaitsInput_iff (bare : m.bus.attached = []) :
    m.awaitsInput.1 = true ↔
      m.bus.keyboard.queue = [] ∧ m.fetched.datum? m.upcoming = some kbdr := by
  cases queue : m.bus.keyboard.queue with
  | cons b bs =>
    have idle : m.awaitsInput.1 = false := by
      unfold awaitsInput
      rw [queue]
      rfl
    rw [idle]
    exact ⟨Bool.noConfusion, fun h => nomatch h.1⟩
  | nil =>
    have hpc : m.fetched.pc = (m.inspect m.pc).2.pc + 1 := by
      rw [fetched_inspect bare queue]
    have reg (r : Reg) : (m.inspect m.pc).2.reg r = m.fetched.reg r := by
      rw [fetched_inspect bare queue]
      rfl
    unfold awaitsInput datum?
    rw [queue, upcoming_inspect bare queue, if_neg (by exact Bool.false_ne_true),
      and_iff_right rfl, hpc]
    dsimp only
    cases Instruction.decode (m.inspect m.pc).1 with
    | ld d o =>
      dsimp only
      rw [beq_iff_eq, Option.some.injEq]
    | ldr d b o =>
      dsimp only
      rw [beq_iff_eq, reg, Option.some.injEq]
    | ldi d o =>
      dsimp only
      rw [beq_iff_eq, inspect_pointer bare queue, Option.some.injEq]
    | _ => exact ⟨Bool.noConfusion, fun h => nomatch h⟩

/-! ### Steps that read the keyboard -/

/- The execution of an instruction, with the program counter behind it, reads the address as a pointer
or from the stack. -/
def ReadsBeside (m : Machine δ) (a : Word) : Instruction → Prop
  | .ldi _ offset => m.pc + signedField offset = a
  | .sti _ offset => m.pc + signedField offset = a
  | .rti => m.reg stackReg = a ∨ m.reg stackReg + 1 = a
  | _ => False

/- The next step reads the data register of the keyboard, but not as the datum of a load. -/
def Overlooked (m : Machine δ) : Prop := m.pc = kbdr ∨ m.fetched.ReadsBeside kbdr m.upcoming

theorem Reads.privileged {i : Instruction} (h : m.Reads kbdr i) : m.access.privileged = true := by
  unfold Reads at h
  cases i with
  | ld d o => exact permits_kbdr _ ▸ h.2
  | ldr d b o => exact permits_kbdr _ ▸ h.2
  | sti s o => exact permits_kbdr _ ▸ h.2
  | ldi d o =>
    obtain ⟨permitted, pointer | ⟨-, datum⟩⟩ := h
    · rw [← permits_kbdr, pointer]
      exact permitted
    · exact permits_kbdr _ ▸ datum
  | rti => exact h.1
  | trap v => exact absurd h.2 (kbdr_ne_unsignedField v)
  | _ => exact h.elim

theorem reads_kbdr_iff (privileged : m.access.privileged = true) (i : Instruction) :
    m.Reads kbdr i ↔ m.datum? i = some kbdr ∨ m.ReadsBeside kbdr i := by
  have permits : ∀ a, m.access.permits a = true := permits_of_privileged privileged
  have no_datum : (none : Option Word) ≠ some kbdr := fun h => nomatch h
  unfold Reads datum? ReadsBeside
  cases i with
  | ld d o =>
    dsimp only
    rw [and_iff_left (permits _), Option.some.injEq, or_false, eq_comm]
  | ldr d b o =>
    dsimp only
    rw [and_iff_left (permits _), Option.some.injEq, or_false, eq_comm]
  | ldi d o =>
    dsimp only
    rw [and_iff_right (permits _), and_iff_left (permits _), Option.some.injEq, or_comm, eq_comm,
      @eq_comm _ kbdr]
  | sti s o =>
    dsimp only
    rw [and_iff_left (permits _), or_iff_right no_datum, eq_comm]
  | rti =>
    dsimp only
    rw [and_iff_right privileged, or_iff_right no_datum, eq_comm, @eq_comm _ kbdr]
  | trap v =>
    dsimp only
    rw [or_false, iff_false_right no_datum]
    exact fun h => kbdr_ne_unsignedField v h.2
  | _ => exact (or_iff_right no_datum).symm

section Quiet

variable (ready : m.condition = .ready) (bare : m.bus.attached = [])
  (empty : m.bus.keyboard.queue = [])

include ready bare empty

theorem read_kbdr_iff :
    .read kbdr ∈ m.step.events ↔
      m.access.privileged = true ∧ (m.awaitsInput.1 = true ∨ m.Overlooked) := by
  have calm : ¬∃ i, m.urgent? = some i ∧ kbdr = interruptTable + unsignedField i.vector := by
    rw [urgent_none_of_empty bare empty]
    exact fun ⟨_, h, _⟩ => nomatch h
  rw [read_mem_step ready, or_iff_right calm, accepted_of_empty bare empty, awaitsInput_iff bare,
    and_iff_right empty]
  unfold Overlooked
  rw [or_left_comm, @eq_comm _ m.pc]
  constructor
  · rintro ⟨permitted, here | reads⟩
    · rw [← here, permits_kbdr] at permitted
      exact ⟨permitted, Or.inl here⟩
    · have privileged := reads.privileged
      rw [reads_kbdr_iff privileged] at reads
      rw [fetched_access] at privileged
      exact ⟨privileged, Or.inr reads⟩
  · rintro ⟨privileged, reads⟩
    have permitted := permits_of_privileged privileged m.pc
    rw [← fetched_access] at privileged
    rw [reads_kbdr_iff privileged]
    exact ⟨permitted, reads⟩

end Quiet

end Machine

/-! ### Loads that are refused -/

namespace Cycle

theorem run_refused {β : Type} {p : Progress δ} {a : Word}
    (refused : p.machine.access.permits a = false) (pc : Word) (k : Word → Cycle δ β) :
    (loadPermitted pc a >>= k).run p = .error (.accessViolation pc a) p := by
  have h := run_loadPermitted pc a p
  rw [refused] at h
  exact run_bind_of_error h

theorem execute_refused {p : Progress δ} {i : Instruction} {a : Word}
    (refused : p.machine.access.permits a = false) (datum : p.machine.datum? i = some a)
    (pc : Word) : ∃ b q, (execute pc i).run p = .error (.accessViolation pc b) q := by
  unfold Machine.datum? at datum
  cases i with
  | ld d o =>
    unfold execute relative
    rw [run_bind_of_ok (run_look _ _), Option.some.inj datum, run_refused refused]
    exact ⟨a, p, rfl⟩
  | ldr d b o =>
    have address : p.machine.reg b + signedField o = a := Option.some.inj datum
    unfold execute
    rw [run_bind_of_ok (run_look _ _), address, run_refused refused]
    exact ⟨a, p, rfl⟩
  | ldi d o =>
    unfold execute relative
    rw [run_bind_of_ok (run_look _ _)]
    cases pointer : p.machine.access.permits (p.machine.pc + signedField o) with
    | false =>
      rw [run_refused pointer]
      exact ⟨_, p, rfl⟩
    | true =>
      have h := run_loadPermitted pc (p.machine.pc + signedField o) p
      have later : (p.loaded (p.machine.pc + signedField o)).machine.access.permits a = false := by
        rw [← refused]
        exact congrArg (·.permits a) (p.machine.load_access _ true)
      rw [pointer, if_pos rfl, Option.some.inj datum] at h
      rw [run_bind_of_ok h, run_refused later]
      exact ⟨a, _, rfl⟩
  | _ => cases datum

end Cycle

namespace Machine

variable {m : Machine δ}

/-- A load that would wait for input, but may not read it, faults. -/
theorem step_refused (ready : m.condition = .ready) (bare : m.bus.attached = [])
    (waits : m.awaitsInput.1 = true) (user : m.access.privileged = false) :
    ∃ a, m.step.result = .faulted (.accessViolation m.pc a) := by
  obtain ⟨empty, datum⟩ := (awaitsInput_iff bare).mp waits
  have accepted : Progress.accepted ⟨m, #[]⟩ = ⟨m, #[]⟩ := by
    rw [Progress.accepted_of_none (urgent_none_of_empty bare empty), polled_of_empty bare empty]
  have refused : m.fetched.access.permits kbdr = false := by
    rw [permits_kbdr, fetched_access, user]
  have legal : m.upcoming.isLegal = true := by
    cases h : m.upcoming with
    | reserved w =>
      rw [h] at datum
      cases datum
    | _ => rfl
  suffices h : ∃ a q, (Cycle.perform m.pc).run ⟨m, #[]⟩ = .error (.accessViolation m.pc a) q by
    obtain ⟨a, q, run⟩ := h
    rw [m.step_of_ready ready, accepted, accepted_of_empty bare empty, run]
    exact ⟨a, rfl⟩
  have run := Cycle.run_perform (⟨m, #[]⟩ : Progress δ)
  by_cases permitted : m.access.permits m.pc = true
  · rw [if_pos permitted, if_pos legal] at run
    obtain ⟨a, q, faulted⟩ := Cycle.execute_refused (p := (⟨m, #[]⟩ : Progress δ).fetched) refused
      datum m.pc
    exact ⟨a, q, run.trans faulted⟩
  · rw [if_neg permitted] at run
    exact ⟨m.pc, _, run⟩

/-! ### Runs that watch for input -/

theorem overlooked_congr {m' : Machine δ} (h : AlikeBare m m') : m'.Overlooked = m.Overlooked := by
  have core : m'.fetched.core = m.fetched.core := by
    rw [fetched_core, fetched_core, simulation_alike.core h, simulation_alike.pc h]
  have hpc : m'.fetched.pc = m.fetched.pc := congrArg Core.pc core
  have hreg (r : Reg) : m'.fetched.reg r = m.fetched.reg r := congrArg (·.registers.get r) core
  unfold Overlooked ReadsBeside
  rw [simulation_alike.pc h, simulation_alike.upcoming h, hpc, hreg]

/- The machine that a turn steps has at most looked ahead. -/
theorem alikeBare_of_turn {watch : Bool} {x : Machine δ} (bare : m.bus.attached = [])
    (h : m.turn? watch = some x) : AlikeBare m x := by
  obtain ⟨-, -, ⟨-, -, rfl⟩ | ⟨-, rfl⟩⟩ := turn?_eq_some h
  · exact ⟨bare, awaitsInput_alike bare⟩
  · exact ⟨bare, Alike.refl _⟩

theorem bare_of_turn {watch : Bool} {x : Machine δ} (bare : m.bus.attached = [])
    (h : m.turn? watch = some x) : x.step.machine.bus.attached = [] := by
  obtain ⟨-, -, later, alike⟩ := simulation_alike.step (alikeBare_of_turn bare h)
  rw [alike.bus]
  exact later

theorem overlooked_of_trail {n : Nat} {x : Machine δ} (bare : m.bus.attached = [])
    (h : x ∈ trail true n m) (empty : x.bus.keyboard.queue = [])
    (read : .read kbdr ∈ x.step.events) : x.Overlooked := by
  obtain ⟨m', bare', turn⟩ := mem_trail (P := fun m => m.bus.attached = []) bare_of_turn bare h
  obtain ⟨ready, -, ⟨-, goes, -⟩ | ⟨watch, -⟩⟩ := turn?_eq_some turn
  · have alike := alikeBare_of_turn bare' turn
    obtain ⟨-, events, -⟩ := simulation_alike.step alike
    rw [alike.2.bus] at empty
    rw [events, read_kbdr_iff ready bare' empty, goes] at read
    rw [overlooked_congr alike]
    exact read.2.resolve_left Bool.false_ne_true
  · cases watch

/- A loop that stops for input has just looked ahead from a machine that waits. -/
theorem loop_waits_at (n : Nat) (events : Array Event) (bare : m.bus.attached = [])
    (reason : (loop true .limitExceeded n m events).reason = .inputRequested) :
    ∃ m', m'.condition = .ready ∧ m'.awaitsInput.1 = true ∧
      AlikeBare m' (loop true .limitExceeded n m events).machine := by
  refine loop_induction (motive := fun m r e => m.bus.attached = [] → r = .inputRequested →
    ∃ m', m'.condition = .ready ∧ m'.awaitsInput.1 = true ∧ AlikeBare m' e) ?_ ?_ n m events bare reason
  · intro m r e rests bare reason
    cases rests with
    | stopped h =>
      rw [reason] at h
      exact absurd h (Condition.stop?_ne_input _)
    | spent => cases reason
    | breakpoint => cases reason
    | waits ready _ waits => exact ⟨m, ready, waits, bare, awaitsInput_alike bare⟩
  · intro m x r e turn later bare
    exact later (bare_of_turn bare turn)

/-- What waits for input announce, without further devices. While no byte is queued, the next step
reads the data register of the keyboard exactly if the program may do so and either the look ahead
waits for it or overlooks it. So a watching run takes no other steps that read the register then, and
where it stops for input the next step reads it, or faults because it may not. -/
theorem run_toInput_reads (m : Machine δ) (bare : m.bus.attached = []) (limit : Option Nat)
    {η : Type} (handler : HitHandler δ η) (h : η) :
    let watched := m.run (.toInput limit) handler h
    let e := watched.machine
    (m.condition = .ready →
      (m.bus.keyboard.queue = [] ∧ .read kbdr ∈ m.step.events ↔
        m.access.privileged = true ∧
          (m.awaitsInput.1 = true ∨ m.bus.keyboard.queue = [] ∧ m.Overlooked))) ∧
    (∀ x ∈ m.stepped (.toInput limit), x.bus.keyboard.queue = [] →
      .read kbdr ∈ x.step.events → x.Overlooked) ∧
    (watched.outcome.reason = .inputRequested →
      e.bus.keyboard.queue = [] ∧
      (.read kbdr ∈ e.step.events ↔ e.access.privileged = true) ∧
      (e.access.privileged = false → ∃ a, e.step.result = .faulted (.accessViolation e.pc a))) := by
  dsimp only
  refine ⟨fun ready => ?_, fun x hx =>
    overlooked_of_trail (m := { m with limitExceeded := false }) bare hx, fun reason => ?_⟩
  · constructor
    · rintro ⟨empty, read⟩
      obtain ⟨privileged, seen⟩ := (read_kbdr_iff ready bare empty).mp read
      exact ⟨privileged, seen.imp_right fun overlooked => ⟨empty, overlooked⟩⟩
    · rintro ⟨privileged, waits | ⟨empty, overlooked⟩⟩
      · have empty := ((awaitsInput_iff bare).mp waits).1
        exact ⟨empty, (read_kbdr_iff ready bare empty).mpr ⟨privileged, Or.inl waits⟩⟩
      · exact ⟨empty, (read_kbdr_iff ready bare empty).mpr ⟨privileged, Or.inr overlooked⟩⟩
  · obtain ⟨m', ready, waits, bare', alike⟩ := loop_waits_at
      (m := { m with limitExceeded := false }) _ #[] bare reason
    have ended : Alike (m.looped (.toInput limit)).machine (m.run (.toInput limit) handler h).machine :=
      ⟨rfl, fun _ _ => rfl⟩
    have same : AlikeBare m' (m.run (.toInput limit) handler h).machine := ⟨bare', alike.trans ended⟩
    obtain ⟨result, events, -⟩ := simulation_alike.step same
    have empty := ((awaitsInput_iff bare').mp waits).1
    rw [same.2.bus, result, events, simulation_alike.access same, simulation_alike.pc same,
      read_kbdr_iff ready bare' empty, and_iff_left (Or.inl waits)]
    exact ⟨empty, Iff.rfl, step_refused ready bare' waits⟩

/- A program in user mode that loads through a pointer to the keyboard. -/
def refusedReader : Machine Peripheral where
  memory := ((Bank.fill 16 0).set 0x3000 0xA001).set 0x3002 kbdr
  registers := Bank.fill 3 0
  flags := { ignorePrivilege := false }

/- A program that stores through a pointer that it reads from the keyboard. -/
def pointerReader : Machine Peripheral where
  memory := (Bank.fill 16 0).set 0xFDF0 0xB011
  registers := Bank.fill 3 0
  pc := 0xFDF0

/- The look ahead waits where no input is read, and does not wait where it is. -/
theorem awaitsInput_mistaken :
    (refusedReader.run (.toInput none) HitHandler.ignore ()).outcome = ⟨.inputRequested, 0⟩ ∧
      refusedReader.awaitsInput.1 = true ∧ .read kbdr ∉ refusedReader.step.events ∧
      pointerReader.bus.keyboard.queue = [] ∧ pointerReader.awaitsInput.1 = false ∧
      .read kbdr ∈ pointerReader.step.events := by
  decide +kernel

theorem run_toInput_reads_refusedReader :
    let watched := refusedReader.run (.toInput none) HitHandler.ignore ()
    watched.outcome = ⟨.inputRequested, 0⟩ ∧ .read kbdr ∉ watched.machine.step.events ∧
      ∃ a, watched.machine.step.result = .faulted (.accessViolation watched.machine.pc a) := by
  have outcome : (refusedReader.run (.toInput none) HitHandler.ignore ()).outcome =
      ⟨.inputRequested, 0⟩ := by
    decide +kernel
  have user : (refusedReader.run (.toInput none) HitHandler.ignore ()).machine.access.privileged =
      false := by
    decide +kernel
  obtain ⟨-, -, announced⟩ := run_toInput_reads refusedReader rfl none HitHandler.ignore ()
  rw [outcome] at announced
  obtain ⟨-, reads, faults⟩ := announced rfl
  rw [user] at reads
  exact ⟨outcome, fun read => Bool.false_ne_true (reads.mp read), faults user⟩

end Machine

end Lc3
