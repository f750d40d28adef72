import Lc3.Device.Peripheral
import Lc3.Proofs.Invariance
import Mathlib.Logic.Relation

/-!
# Nested handlers

A step is cut at the places where handlers are entered and left: an interrupt enters its handler
before the fetch, a trap between the fetch and the count of the instruction. Every step that
completes is a sequence of such parts (`step_parts`). A run is well nested over a pushed frame if all
handlers entered in it are left again and no part of it disturbs what is pushed. A return after such
a run brings back what the entry that pushed the frame had interrupted, at any depth of nesting
(`return_resumes`).
-/

namespace Lc3

variable {δ : Type}

/-! ### Quiet parts -/

/-- The stack pointers, the mode and the words pushed below a top are as before. -/
structure Quiet (top : Word) (m m' : Machine δ) : Prop where
  sp : m'.reg stackReg = m.reg stackReg
  savedSp : m'.savedSp = m.savedSp
  privileged : m'.psr.privileged = m.psr.privileged
  frames : ∀ a, m.reg stackReg ≤ a → a < top → m'.memory.get a = m.memory.get a

namespace Quiet

variable {top : Word} {m m' m'' : Machine δ}

theorem refl (top : Word) (m : Machine δ) : Quiet top m m := ⟨rfl, rfl, rfl, fun _ _ _ => rfl⟩

theorem trans (h : Quiet top m m') (h' : Quiet top m' m'') : Quiet top m m'' where
  sp := h'.sp.trans h.sp
  savedSp := h'.savedSp.trans h.savedSp
  privileged := h'.privileged.trans h.privileged
  frames a ha hb := by
    rw [h'.frames a (h.sp ▸ ha) hb]
    exact h.frames a ha hb

theorem mono {top' : Word} (h : Quiet top m m') (ht : top' ≤ top) : Quiet top' m m' where
  sp := h.sp
  savedSp := h.savedSp
  privileged := h.privileged
  frames a ha hb := h.frames a ha (by bv_omega)

end Quiet

namespace Machine

/- Quiet runs leave the frame alone on which they started. -/
theorem OnFrame.quiet {s m m' : Machine δ} (h : s.PushesBelow) (hm : OnFrame s m)
    (quiet : Quiet s.supervisorSp m m') : OnFrame s m' where
  sp := quiet.sp.trans hm.sp
  savedSp := quiet.savedSp.trans hm.savedSp
  pc := by
    have hb := h.bounds
    rw [quiet.frames _ (by rw [hm.sp]; exact BitVec.le_refl _) (by bv_omega)]
    exact hm.pc
  psr := by
    have hb := h.bounds
    rw [quiet.frames _ (by rw [hm.sp]; bv_omega) (by bv_omega)]
    exact hm.psr

end Machine

variable [Device δ]

/-! ### Places within steps -/

/-- A point within a step. -/
inductive Point where
  /-- Before the devices are asked for interrupts. -/
  | start
  /-- Before the fetch. -/
  | fetch
  /-- In a handler that a trap entered, before the trap is counted. -/
  | count
deriving DecidableEq

/-- A machine at a point within a step. -/
structure Place (δ : Type) where
  point : Point
  machine : Machine δ

/-- A part of a step that neither enters a handler nor leaves one. -/
inductive Plain : Place δ → Place δ → Prop where
  /-- No device has an urgent interrupt. -/
  | poll {m : Machine δ} (ready : m.condition = .ready) (calm : m.urgent? = none) :
      Plain ⟨.start, m⟩ ⟨.fetch, m.polled⟩
  /-- An instruction other than a return and a trap through the trap table. -/
  | instruction {m : Machine δ} {events : Array Event} {halts : Bool} {q : Progress δ}
      (permitted : m.access.permits m.pc = true) (legal : m.upcoming.isLegal = true)
      (stays : m.upcoming ≠ .rti) (direct : m.dispatched? = none)
      (run : (Cycle.execute m.pc m.upcoming).run ⟨m.fetched, events⟩ = .ok halts q) :
      Plain ⟨.fetch, m⟩ ⟨.start, q.machine.completed halts⟩
  /-- A trap is counted. -/
  | count {m : Machine δ} : Plain ⟨.count, m⟩ ⟨.start, m.completed false⟩

/-- The entry of a handler, from the machine that it interrupts. -/
inductive Entry : Place δ → Machine δ → Place δ → Prop where
  | interrupt {m : Machine δ} {i : Interrupt} (ready : m.condition = .ready)
      (urgent : m.urgent? = some i) :
      Entry ⟨.start, m⟩ m.polled
        ⟨.fetch, m.polled.entered (interruptTable + unsignedField i.vector) (some i.priority)⟩
  | trap {m : Machine δ} {v : BitVec 8} (permitted : m.access.permits m.pc = true)
      (dispatched : m.dispatched? = some v) :
      Entry ⟨.fetch, m⟩ m.fetched ⟨.count, m.fetched.entered (unsignedField v) none⟩

/-- The return from a handler. -/
inductive Return : Place δ → Place δ → Prop where
  | rti {m : Machine δ} (permitted : m.access.permits m.pc = true) (rti : m.upcoming = .rti)
      (privileged : m.access.privileged = true) :
      Return ⟨.fetch, m⟩ ⟨.start, m.fetched.returned.completed false⟩

/-- A part of a step. -/
inductive Part : Place δ → Place δ → Prop where
  | plain {a b : Place δ} : Plain a b → Part a b
  | entry {a b : Place δ} {s : Machine δ} : Entry a s b → Part a b
  | leave {a b : Place δ} : Return a b → Part a b

/-! ### Steps as sequences of parts -/

namespace Machine

theorem accepted_part {m : Machine δ} (ready : m.condition = .ready) :
    Part ⟨.start, m⟩ ⟨.fetch, m.accepted⟩ := by
  unfold accepted
  cases h : m.urgent? with
  | none => exact .plain (.poll ready h)
  | some i => exact .entry (.interrupt ready h)

theorem upcoming_of_dispatched {m : Machine δ} {v : BitVec 8} (h : m.dispatched? = some v) :
    m.upcoming = .trap v ∧ ¬(v = haltVector ∧ !m.flags.realHalt) := by
  unfold dispatched? at h
  split at h
  · next w hw =>
    split at h
    · cases h
    · cases h
      exact ⟨hw, by assumption⟩
  · cases h

theorem execute_parts {m : Machine δ} {events : Array Event} {halts : Bool} {q : Progress δ}
    (permitted : m.access.permits m.pc = true) (legal : m.upcoming.isLegal = true)
    (run : (Cycle.execute m.pc m.upcoming).run ⟨m.fetched, events⟩ = .ok halts q) :
    Relation.TransGen Part ⟨.fetch, m⟩ ⟨.start, q.machine.completed halts⟩ := by
  by_cases hr : m.upcoming = .rti
  · rw [hr, Cycle.run_execute_rti, fetched_access] at run
    split at run
    · next privileged =>
      cases run
      exact .single (.leave (.rti permitted hr privileged))
    · cases run
  · cases hd : m.dispatched? with
    | none => exact .single (.plain (.instruction permitted legal hr hd run))
    | some v =>
      obtain ⟨ht, hv⟩ := upcoming_of_dispatched hd
      have hf : m.fetched.flags = m.flags := congrArg Host.flags m.fetched_host
      rw [ht, Cycle.run_execute_trap, hf, if_neg hv] at run
      cases run
      exact .tail (.single (.entry (.trap permitted hd))) (.plain .count)

/-- A step of a ready machine that completes is a sequence of parts. -/
theorem step_parts {m : Machine δ} (ready : m.condition = .ready)
    (completes : ∀ f, m.step.result ≠ .faulted f) :
    Relation.TransGen Part ⟨.start, m⟩ ⟨.start, m.step.machine⟩ := by
  obtain ⟨halts, q, permitted, legal, run, hs⟩ | ⟨f, q, -, hs⟩ := m.step_cases ready
  · have ha : (Progress.accepted ⟨m, #[]⟩).machine = m.accepted := Progress.accepted_machine _
    unfold Progress.fetched at run
    rw [ha] at run
    rw [hs]
    exact .head (accepted_part ready) (execute_parts permitted legal run)
  · rw [hs] at completes
    exact absurd rfl (completes f)

end Machine

/-! ### Well-nested runs -/

/-- A run over the frames below a top that enters and leaves handlers, the last entered first, and is
quiet apart from that. -/
inductive WellNested (top : Word) : Place δ → Place δ → Prop where
  | refl (a : Place δ) : WellNested top a a
  | plain {a b c : Place δ} (before : WellNested top a b) (part : Plain b c)
      (quiet : Quiet top b.machine c.machine) : WellNested top a c
  | nested {a b c d e : Place δ} {s : Machine δ} (before : WellNested top a b) (entry : Entry b s c)
      (below : s.PushesBelow) (inner : WellNested top c d) (back : Return d e) : WellNested top a e

theorem Quiet.fetched {top : Word} (ht : top ≤ ioStart) (m : Machine δ) : Quiet top m m.fetched where
  sp := congrArg (·.get stackReg) m.fetched_registers
  savedSp := m.fetched_savedSp
  privileged := congrArg Psr.privileged m.fetched_psr
  frames _ _ hb := m.fetched_memory_of_lt (by bv_omega)

theorem Entry.quiet {a b : Place δ} {s : Machine δ} (h : Entry a s b) {top : Word}
    (ht : top ≤ ioStart) : Quiet top a.machine s := by
  cases h with
  | interrupt => exact ⟨rfl, rfl, rfl, fun _ _ _ => rfl⟩
  | trap => exact Quiet.fetched ht _

theorem Entry.entered {a b : Place δ} {s : Machine δ} (h : Entry a s b) :
    ∃ vector priority, b.machine = s.entered vector priority := by
  cases h with
  | interrupt => exact ⟨_, _, rfl⟩
  | trap => exact ⟨_, _, rfl⟩

theorem Return.resumed {a b : Place δ} (h : Return a b) {s : Machine δ} (below : s.PushesBelow)
    (frame : Machine.OnFrame s a.machine) : Machine.Resumed s b.machine := by
  cases h with
  | @rti m =>
    have hf := frame.quiet below (Quiet.fetched below.bounds.2 m)
    have hr := hf.returned below
    exact ⟨hr.pc, hr.psr, hr.sp, hr.savedSp⟩

theorem Return.memory {a b : Place δ} (h : Return a b) {s : Machine δ} (below : s.PushesBelow)
    (frame : Machine.OnFrame s a.machine) {c : Word} (hc : c < ioStart) :
    b.machine.memory.get c = a.machine.memory.get c := by
  cases h with
  | @rti m =>
    have hf := frame.quiet below (Quiet.fetched below.bounds.2 m)
    calc m.fetched.returned.memory.get c
        = m.fetched.memory.get c := by rw [hf.returned_memory below]
      _ = m.memory.get c := m.fetched_memory_of_lt hc

theorem Quiet.polled {top : Word} (m : Machine δ) : Quiet top m m.polled :=
  ⟨rfl, rfl, rfl, fun _ _ _ => rfl⟩

theorem Quiet.completed {top : Word} (m : Machine δ) (halts : Bool) :
    Quiet top m (m.completed halts) :=
  ⟨rfl, rfl, rfl, fun _ _ _ => rfl⟩

/- The induction is on the run: an inner run starts on a frame of its own, which it leaves alone by
the induction hypothesis, so that its return resumes what was interrupted. -/
theorem WellNested.quiet {top : Word} {a b : Place δ} (h : WellNested top a b)
    (ht : top ≤ ioStart) (privileged : a.machine.psr.privileged = true)
    (sp : a.machine.reg stackReg ≤ top) : Quiet top a.machine b.machine := by
  induction h with
  | refl a => exact Quiet.refl top a.machine
  | plain before part quiet ih => exact (ih privileged sp).trans quiet
  | @nested a b c d e s before entry below inner back ih ih' =>
    have hs := (ih privileged sp).trans (entry.quiet ht)
    obtain ⟨vector, priority, hc⟩ := entry.entered
    have hsp : s.supervisorSp = a.machine.reg stackReg := by
      unfold Machine.supervisorSp
      rw [if_pos (hs.privileged.trans privileged), hs.sp]
    have hb := below.bounds
    have frame : Machine.OnFrame s c.machine := hc ▸ Machine.entered_onFrame below vector priority
    have hcp : c.machine.psr.privileged = true := hc ▸ Machine.entered_privileged below vector priority
    have hd := ih' hcp (by rw [frame.sp, hsp]; rw [hsp] at hb; bv_omega)
    have frame' := frame.quiet below (hd.mono (hsp ▸ sp))
    have resumed := back.resumed below frame'
    refine hs.trans ⟨resumed.sp, resumed.savedSp, congrArg Psr.privileged resumed.psr, ?_⟩
    intro x hx hxt
    have hio : x < ioStart := by bv_omega
    rw [hs.sp, ← hsp] at hx
    calc e.machine.memory.get x
        = d.machine.memory.get x := back.memory below frame' hio
      _ = c.machine.memory.get x := hd.frames x (by rw [frame.sp]; bv_omega) hxt
      _ = s.memory.get x := by
          rw [hc]
          exact s.entered_memory_of_ne vector priority hio (by bv_omega) (by bv_omega)

/-- However a handler was entered, a return after a run that is well nested over the pushed frame
brings back the program counter, the status and both stack pointers that the entry found. -/
theorem return_resumes (s : Machine δ) (vector : Word) (priority : Option (BitVec 3))
    (point : Point) (below : s.PushesBelow) {a b : Place δ}
    (inner : WellNested s.supervisorSp ⟨point, s.entered vector priority⟩ a) (back : Return a b) :
    b.machine.pc = s.pc ∧ b.machine.psr = s.psr ∧
      b.machine.reg stackReg = s.reg stackReg ∧ b.machine.savedSp = s.savedSp := by
  have frame := Machine.entered_onFrame below vector priority
  have hb := below.bounds
  have quiet := inner.quiet hb.2 (Machine.entered_privileged below vector priority) (by
    change (s.entered vector priority).reg stackReg ≤ _
    rw [frame.sp]
    bv_omega)
  have resumed := back.resumed below (frame.quiet below quiet)
  exact ⟨resumed.pc, resumed.psr, resumed.sp, resumed.savedSp⟩

namespace NestedTraps

/- A program that traps, whose handler at x0400 traps again before it returns. -/
def program : Machine Peripheral where
  memory := (((((Bank.fill 16 0).set 0x3000 0xF026).set 0x0026 0x0400).set 0x0400 0xF027).set
    0x0027 0x0500).set 0x0500 0x8000 |>.set 0x0401 0x8000
  registers := (Bank.fill 3 0).set stackReg 0x4000

def outerTrap : Machine Peripheral := program.fetched.entered (unsignedField 0x26#8) none

def outer : Machine Peripheral := (outerTrap.completed false).polled

def innerTrap : Machine Peripheral := outer.fetched.entered (unsignedField 0x27#8) none

def inner : Machine Peripheral := (innerTrap.completed false).polled

def innerDone : Machine Peripheral := inner.fetched.returned.completed false

def outerDone : Machine Peripheral := innerDone.polled.fetched.returned.completed false

theorem return_resumes_nestedTraps :
    outerDone.pc = 0x3001 ∧ outerDone.psr.word = 0x8002 ∧ outerDone.reg stackReg = 0x4000 ∧
      outerDone.savedSp = 0x3000 := by
  have toInner : WellNested 0x3000 ⟨.count, outerTrap⟩ ⟨.fetch, outer⟩ :=
    .plain (.plain (.refl _) .count (Quiet.completed _ _))
      (.poll (by decide +kernel) (by decide +kernel)) (Quiet.polled _)
  have entry : Entry ⟨.fetch, outer⟩ outer.fetched ⟨.count, innerTrap⟩ :=
    .trap (by decide +kernel) (by decide +kernel)
  have withinInner : WellNested 0x3000 ⟨.count, innerTrap⟩ ⟨.fetch, inner⟩ :=
    .plain (.plain (.refl _) .count (Quiet.completed _ _))
      (.poll (by decide +kernel) (by decide +kernel)) (Quiet.polled _)
  have innerBack : Return ⟨.fetch, inner⟩ ⟨.start, innerDone⟩ :=
    .rti (by decide +kernel) (by decide +kernel) (by decide +kernel)
  have whole : WellNested 0x3000 ⟨.count, outerTrap⟩ ⟨.fetch, innerDone.polled⟩ :=
    .plain (.nested toInner entry ⟨by decide +kernel, by decide +kernel⟩ withinInner innerBack)
      (.poll (by decide +kernel) (by decide +kernel)) (Quiet.polled _)
  have back : Return ⟨.fetch, innerDone.polled⟩ ⟨.start, outerDone⟩ :=
    .rti (by decide +kernel) (by decide +kernel) (by decide +kernel)
  have hsp : program.fetched.supervisorSp = 0x3000 := by decide +kernel
  have resumed := return_resumes program.fetched (unsignedField 0x26#8) none .count
    ⟨by decide +kernel, by decide +kernel⟩ (by rw [hsp]; exact whole) back
  have found : program.fetched.pc = 0x3001 ∧ program.fetched.psr = ⟨0x8002⟩ ∧
      program.fetched.reg stackReg = 0x4000 ∧ program.fetched.savedSp = 0x3000 := by
    decide +kernel
  rw [found.1, found.2.1, found.2.2.1, found.2.2.2] at resumed
  exact ⟨resumed.1, congrArg Psr.word resumed.2.1, resumed.2.2⟩

end NestedTraps

end Lc3
