import Lc3.Proofs.Awaiting
import Lc3.Proofs.Supply
import Lc3.Session

/-!
# Going on after a wait for input

A run that watches for input stops in front of a load of the keyboard's data register. Once the host
has supplied bytes, the next step executes that load: it takes the first byte into the register that
the load fills, and changes nothing else that the program computes with (`run_toInput_resumes`).
-/

namespace Lc3

variable {δ : Type}

/- The register that a load fills from memory. -/
def Instruction.filled? : Instruction → Option Reg
  | .ld d _ => some d
  | .ldr d _ _ => some d
  | .ldi d _ => some d
  | _ => none

/- Bytes supplied to an empty keyboard without a delay are ready at once, however they are supplied. -/
def Keyboard.filled (k : Keyboard) (bytes : List Byte) : Keyboard :=
  { k with queue := bytes, cooldown := 0 }

section Supplied

variable {k : Keyboard} (instant : k.delay = 0) (bytes : List Byte)

include instant

theorem Keyboard.setInput_of_instant : k.setInput bytes = k.filled bytes := by
  simp [setInput, filled, instant]

theorem Keyboard.pushInput_of_instant (empty : k.queue = []) :
    k.pushInput bytes = k.filled bytes := by
  simp [pushInput, filled, instant, empty]

end Supplied

variable [Device δ]

/-! ### The load -/

/- Where the program may access everything, a load gets its datum. Its pointer, if it follows one, is
read from plain memory and changes nothing. -/
theorem Cycle.execute_filled {p : Progress δ} {i : Instruction} {r : Reg} {a : Word}
    (privileged : p.machine.access.privileged = true) (fills : i.filled? = some r)
    (datum : p.machine.datum? i = some a)
    (plain : ∀ d o, i = .ldi d o → p.machine.pc + signedField o < ioStart) (pc : Word) :
    ∃ events, (execute pc i).run p =
      .ok false ⟨(p.machine.load a true).machine.delivered r (p.machine.load a true).word, events⟩ := by
  have granted (q : Progress δ) (hq : q.machine = p.machine) (b : Word) :
      (loadPermitted pc b).run q = .ok (p.machine.load b true).word (q.loaded b) := by
    rw [run_loadPermitted, hq, if_pos (permits_of_privileged privileged b)]
  cases i with
  | ld d o =>
    obtain rfl := Option.some.inj fills
    have here := granted p rfl a
    unfold execute relative
    rw [run_bind_of_ok (run_look _ _), Option.some.inj datum, run_bind_of_ok here]
    exact ⟨_, rfl⟩
  | ldr d b o =>
    obtain rfl := Option.some.inj fills
    have address : p.machine.reg b + signedField o = a := Option.some.inj datum
    have here := granted p rfl a
    unfold execute
    rw [run_bind_of_ok (run_look _ _), address, run_bind_of_ok here]
    exact ⟨_, rfl⟩
  | ldi d o =>
    obtain rfl := Option.some.inj fills
    let q := p.loaded (p.machine.pc + signedField o)
    have still : q.machine = p.machine := by
      change (p.machine.load _ true).machine = _
      rw [Machine.load_of_lt _ _ (plain d o rfl)]
    have pointer := granted p rfl (p.machine.pc + signedField o)
    have here := granted q still a
    unfold execute relative
    rw [run_bind_of_ok (run_look _ _), run_bind_of_ok pointer, Option.some.inj datum,
      run_bind_of_ok here, ← still]
    exact ⟨_, rfl⟩
  | _ => cases fills

theorem Machine.filled?_of_datum? {m : Machine δ} {i : Instruction} {a : Word}
    (datum : m.datum? i = some a) : ∃ r, i.filled? = some r := by
  cases i with
  | ld d o => exact ⟨d, rfl⟩
  | ldr d b o => exact ⟨d, rfl⟩
  | ldi d o => exact ⟨d, rfl⟩
  | _ => cases datum

namespace Machine

variable {m m' : Machine δ}

/-! ### The machine that waits -/

theorem fetched_alike (h : AlikeBare m m') : AlikeBare m.fetched m'.fetched := by
  have loaded := simulation_alike.load m.pc (simulation_alike.marked h)
  rw [fetched_eq, fetched_eq, simulation_alike.pc h]
  exact simulation_alike.move loaded fun c => { c with pc := c.pc + 1 }

theorem datum?_alike (h : AlikeBare m m') (i : Instruction) : m'.datum? i = m.datum? i := by
  have core := simulation_alike.core h
  have pc : m'.pc = m.pc := congrArg Core.pc core
  have reg (r : Reg) : m'.reg r = m.reg r := congrArg (·.registers.get r) core
  cases i with
  | ld d o => simp only [datum?, pc]
  | ldr d b o => simp only [datum?, reg]
  | ldi d o => simp only [datum?, pc, simulation_alike.word _ h]
  | _ => rfl

/- A run that stopped for input is about to load the data register of an empty keyboard. -/
theorem run_waits (bare : m.bus.attached = []) {limit : Option Nat} {η : Type}
    {handler : HitHandler δ η} {h : η}
    (reason : (m.run (.toInput limit) handler h).outcome.reason = .inputRequested) :
    let e := (m.run (.toInput limit) handler h).machine
    e.condition = .ready ∧ e.bus.attached = [] ∧ e.bus.keyboard.queue = [] ∧
      e.fetched.datum? e.upcoming = some kbdr := by
  obtain ⟨w, ready, waits, bare', alike⟩ :=
    loop_waits_at (m := { m with limitExceeded := false }) _ #[] bare reason
  have ended : Alike (m.looped (.toInput limit)).machine (m.run (.toInput limit) handler h).machine :=
    ⟨rfl, fun _ _ => rfl⟩
  have same : AlikeBare w (m.run (.toInput limit) handler h).machine := ⟨bare', alike.trans ended⟩
  obtain ⟨empty, datum⟩ := (awaitsInput_iff bare').mp waits
  refine ⟨(simulation_alike.condition same).trans ready, ?_, ?_, ?_⟩
  · rw [same.2.bus]
    exact bare'
  · rw [same.2.bus]
    exact empty
  · rw [simulation_alike.upcoming same, datum?_alike (fetched_alike same)]
    exact datum

/-! ### The step that goes on -/

/- The next step loads the data register of the keyboard into a register. No interrupt slips in, and
nothing that the program reads before it is a port. -/
structure Loads (m : Machine δ) (r : Reg) : Prop where
  ready : m.condition = .ready
  bare : m.bus.attached = []
  quiet : m.bus.keyboard.poll = none
  privileged : m.access.privileged = true
  here : m.pc < ioStart
  fills : m.upcoming.filled? = some r
  datum : m.fetched.datum? m.upcoming = some kbdr
  plain : ∀ d o, m.upcoming = .ldi d o → m.pc + 1 + signedField o < ioStart

namespace Loads

variable {r : Reg}

theorem legal (h : m.Loads r) : m.upcoming.isLegal = true := by
  have fills := h.fills
  cases hi : m.upcoming with
  | reserved w =>
    rw [hi] at fills
    cases fills
  | _ => rfl

theorem accepted (h : m.Loads r) : Progress.accepted ⟨m, #[]⟩ = ⟨m, #[]⟩ := by
  have poll := Bus.poll_of_quiet h.bare h.quiet
  rw [Progress.accepted_of_none, polled, poll]
  rw [urgent?, poll]
  rfl

theorem still (h : m.Loads r) : m.accepted = m := by
  rw [← Progress.accepted_machine ⟨m, #[]⟩, h.accepted]

/- Another keyboard changes nothing of what the program is about to load. -/
theorem supplied (h : m.Loads r) {k : Keyboard} (quiet : k.poll = none) :
    ({ m with bus := { m.bus with keyboard := k } } : Machine δ).Loads r := by
  let x : Machine δ := { m with bus := { m.bus with keyboard := k } }
  have upcoming : x.upcoming = m.upcoming :=
    (upcoming_of_lt (m := x) h.here).trans (upcoming_of_lt h.here).symm
  have fetched : x.fetched = { x with pc := m.pc + 1, fetchPc := m.pc } := fetched_of_lt h.here
  have datum : x.fetched.datum? m.upcoming = m.fetched.datum? m.upcoming := by
    rw [fetched, fetched_of_lt h.here]
    cases hi : m.upcoming with
    | ldi d o =>
      have low := h.plain d o hi
      simp only [datum?, load_of_lt _ _ low, x]
    | _ => rfl
  refine ⟨h.ready, h.bare, quiet, h.privileged, h.here, ?_, ?_, ?_⟩
  · rw [upcoming]
    exact h.fills
  · rw [upcoming, datum]
    exact h.datum
  · rw [upcoming]
    exact h.plain

/- The step tells of the load. -/
theorem told (h : m.Loads r) :
    .fetched m.pc (Instruction.decode (m.memory.get m.pc)) ∈ m.step.events := by
  have log := log_perform (Progress.accepted ⟨m, #[]⟩)
  rw [h.accepted, if_pos (permits_of_privileged h.privileged m.pc), if_pos h.legal] at log
  rw [← upcoming_of_lt h.here, mem_step h.ready (fun _ => Event.noConfusion)
    fun _ => Event.noConfusion, h.still, h.accepted, log, mem_execute rfl, mem_fetched rfl]
  exact Or.inr (Or.inr rfl)

end Loads

theorem load_kbdr_of_some {b : Byte} {rest : Keyboard}
    (consumed : m.bus.keyboard.consume? = some (b, rest)) :
    m.load kbdr true = ⟨b.setWidth 16,
      { m with bus := { m.bus with keyboard := rest } }.stored kbdr (b.setWidth 16),
      [.consumed b rest.queue.length]⟩ := by
  unfold load
  rw [if_neg (by decide), if_neg (by decide), if_pos (by decide), m.bus.read_kbdr_of_some consumed]

/- The machine after a load of the data register that leaves a keyboard behind. -/
def resumed (m : Machine δ) (r : Reg) (b : Byte) (rest : Keyboard) : Machine δ :=
  let consumed : Machine δ :=
    { m with bus := { m.bus with keyboard := rest }, pc := m.pc + 1, fetchPc := m.pc }
  ((consumed.stored kbdr (b.setWidth 16)).delivered r (b.setWidth 16)).completed false

/-- A load of the data register takes the byte that is ready. -/
theorem step_resumed {r : Reg} {b : Byte} {rest : Keyboard} (h : m.Loads r)
    (consumed : m.bus.keyboard.consume? = some (b, rest)) :
    m.step.result = (if m.clock then .retired else .halted) ∧
      m.step.machine = m.resumed r b rest := by
  have fetched : m.fetched = { m with pc := m.pc + 1, fetchPc := m.pc } := fetched_of_lt h.here
  have plain : ∀ d o, m.upcoming = .ldi d o → m.fetched.pc + signedField o < ioStart := by
    rw [fetched]
    exact h.plain
  obtain ⟨events, run⟩ := Cycle.execute_filled (p := (⟨m, #[]⟩ : Progress δ).fetched)
    ((congrArg Access.privileged m.fetched_access).trans h.privileged) h.fills h.datum plain m.pc
  have load : (⟨m, #[]⟩ : Progress δ).fetched.machine.load kbdr true = _ :=
    load_kbdr_of_some (m := m.fetched) (by rw [fetched]; exact consumed)
  have perform : (Cycle.perform m.pc).run ⟨m, #[]⟩ = _ := Cycle.run_perform (⟨m, #[]⟩ : Progress δ)
  rw [load] at run
  rw [if_pos (permits_of_privileged h.privileged m.pc), if_pos h.legal, run] at perform
  rw [m.step_of_ready h.ready, h.accepted, h.still, perform]
  dsimp only
  rw [fetched]
  constructor
  · cases m.clock <;> simp [Progress.concluded, delivered, setReg, stored]
  · rfl

/-- A run that stopped for input goes on with the load it stopped in front of. Without further devices,
without a delay and with keyboard interrupts off, and if the program may read the register, the step
after the host's supply of bytes executes the instruction at the program counter, a load. It takes the
first byte from the queue into the register that the load fills, and changes no other register and no
cell of plain memory. It is the last step only if the control bit was cleared before. -/
theorem run_toInput_resumes (m : Machine δ) (bare : m.bus.attached = []) (limit : Option Nat)
    {η : Type} (handler : HitHandler δ η) (h : η) (b : Byte) (bs : List Byte) :
    let watched := m.run (.toInput limit) handler h
    let e := watched.machine
    let i := Instruction.decode (e.memory.get e.pc)
    watched.outcome.reason = .inputRequested → e.bus.keyboard.delay = 0 →
    e.bus.keyboard.interrupts = false → e.access.privileged = true → e.pc < ioStart →
    (∀ d o, i = .ldi d o → e.pc + 1 + signedField o < ioStart) →
    ∃ r, i.filled? = some r ∧
      ∀ x, x = e.withKeyboard (·.setInput (b :: bs)) ∨ x = e.withKeyboard (·.pushInput (b :: bs)) →
        let s := x.step
        .fetched e.pc i ∈ s.events ∧
        s.result = (if e.clock then .retired else .halted) ∧
        s.machine.retired = e.retired + 1 ∧
        s.machine.bus.keyboard.queue = bs ∧
        s.machine.registers = e.registers.set r (b.setWidth 16) ∧
        s.machine.savedSp = e.savedSp ∧
        s.machine.psr = e.psr.record (b.setWidth 16) ∧
        s.machine.psr.codes = Psr.codeOf (b.setWidth 16) ∧
        s.machine.pc = e.pc + 1 ∧
        ∀ a < ioStart, s.machine.memory.get a = e.memory.get a := by
  intro watched e i reason instant calm privileged here plain
  obtain ⟨ready, alone, empty, datum⟩ := run_waits bare reason
  have decoded : e.upcoming = i := upcoming_of_lt here
  have quiet (k : Keyboard) (hk : k.interrupts = false) : k.poll = none := by
    rw [Keyboard.poll, hk, Bool.and_false]
    rfl
  obtain ⟨r, fills⟩ := filled?_of_datum? datum
  have loads : e.Loads r := ⟨ready, alone, quiet _ calm, privileged, here, fills, datum, decoded ▸ plain⟩
  refine ⟨r, decoded ▸ fills, fun x supplied => ?_⟩
  let k := e.bus.keyboard.filled (b :: bs)
  have same : x = { e with bus := { e.bus with keyboard := k } } := by
    rcases supplied with rfl | rfl
    · exact congrArg (fun k => e.withKeyboard fun _ => k) (Keyboard.setInput_of_instant instant _)
    · exact congrArg (fun k => e.withKeyboard fun _ => k)
        (Keyboard.pushInput_of_instant instant _ empty)
  subst same
  have loads' := loads.supplied (quiet k calm)
  have consumed : k.consume? = some (b, { k with queue := bs, cooldown := k.delay }) := rfl
  obtain ⟨result, machine⟩ := step_resumed loads' consumed
  intro s
  have ended : s.machine = _ := machine
  rw [ended]
  have beside (a : Word) (ha : a < ioStart) : kbdr ≠ a := by
    rintro rfl
    exact absurd ha (by decide)
  exact ⟨loads'.told, result, rfl, Keyboard.queue_tick _, rfl, rfl, rfl, Psr.codes_record _ _, rfl,
    fun a ha => Bank.get_set_of_ne _ _ (beside a ha)⟩

theorem run_toInput_resumes_keyReader :
    let watched := keyReader.run (.toInput none) HitHandler.ignore ()
    let e := watched.machine
    let s := (e.withKeyboard (·.pushInput [0x61, 0x62])).step
    (watched.outcome.reason = .inputRequested ∧ e.bus.keyboard.delay = 0 ∧
      e.bus.keyboard.interrupts = false ∧ e.access.privileged = true ∧ e.pc < ioStart ∧
      Instruction.decode (e.memory.get e.pc) = .ldi 1 0 ∧ e.pc + 1 + 0 < ioStart) ∧
    s.machine.bus.keyboard.queue = [0x62] ∧ s.machine.registers = e.registers.set 1 0x61 := by
  intro watched e s
  have start : watched.outcome.reason = .inputRequested ∧ e.bus.keyboard.delay = 0 ∧
      e.bus.keyboard.interrupts = false ∧ e.access.privileged = true ∧ e.pc < ioStart ∧
      Instruction.decode (e.memory.get e.pc) = .ldi 1 0 ∧ e.pc + 1 + 0 < ioStart := by
    decide +kernel
  obtain ⟨reason, instant, calm, privileged, here, decoded, pointer⟩ := start
  have plain : ∀ d o, Instruction.decode (e.memory.get e.pc) = .ldi d o →
      e.pc + 1 + signedField o < ioStart := by
    intro d o h
    rw [decoded] at h
    cases h
    exact pointer
  obtain ⟨r, fills, resumes⟩ := run_toInput_resumes keyReader rfl none HitHandler.ignore () 0x61 [0x62]
    reason instant calm privileged here plain
  obtain ⟨-, -, -, queue, registers, -⟩ :=
    resumes (e.withKeyboard (·.pushInput [0x61, 0x62])) (Or.inr rfl)
  have filled : Instruction.filled? (.ldi 1 0) = some r := decoded ▸ fills
  obtain rfl := Option.some.inj filled
  exact ⟨⟨reason, instant, calm, privileged, here, decoded, pointer⟩, queue, registers⟩

end Machine

end Lc3
