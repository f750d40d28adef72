import Lc3.Device.Peripheral
import Lc3.Proofs.Loop
import Mathlib.Logic.Function.Iterate

/-!
# What a program in user mode cannot change

A program in user mode may access user space only, and it leaves user mode only through a handler. So
without one it is confined: over any number of steps, faults included, it changes nothing but user
space, its registers, its condition codes and its progress, and the devices are only asked for
interrupts and told of completed instructions (`run_confined`).
-/

namespace Lc3

variable {δ : Type}

/-! ### What is out of reach -/

/- The status without the condition codes. -/
def Psr.upper (s : Psr) : BitVec 13 := s.word.extractLsb' 3 13

theorem Psr.upper_record (s : Psr) (w : Word) : (s.record w).upper = s.upper := by
  unfold record withCodes upper
  dsimp only
  apply BitVec.eq_of_getLsbD_eq
  intro i hi
  rw [BitVec.getLsbD_extractLsb', BitVec.getLsbD_append]
  have h : ¬3 + i < 3 := by omega
  simp [h]

theorem Psr.privileged_of_upper {s t : Psr} (h : s.upper = t.upper) :
    s.privileged = t.privileged := by
  have hm : s.upper.msb = t.upper.msb := congrArg BitVec.msb h
  have top (u : Psr) : u.upper.msb = u.word.msb := by
    unfold upper
    rw [BitVec.msb_eq_getLsbD_last, BitVec.msb_eq_getLsbD_last, BitVec.getLsbD_extractLsb']
    rfl
  unfold privileged
  rw [← top, ← top, hm]

namespace Machine

/-- The machine is in user mode, and programs are held to it. -/
structure Restricted (m : Machine δ) : Prop where
  user : m.psr.privileged = false
  strict : m.flags.ignorePrivilege = false

/-- All that a program in user mode cannot reach is as before, the devices apart. -/
structure Untouched (m m' : Machine δ) : Prop where
  psr : m'.psr.upper = m.psr.upper
  flags : m'.flags = m.flags
  savedSp : m'.savedSp = m.savedSp
  clock : m'.clock = m.clock
  memory : ∀ a, inUserSpace a = false → m'.memory.get a = m.memory.get a

namespace Untouched

variable {m m' m'' : Machine δ}

theorem refl (m : Machine δ) : Untouched m m := ⟨rfl, rfl, rfl, rfl, fun _ _ => rfl⟩

theorem trans (h : Untouched m m') (h' : Untouched m' m'') : Untouched m m'' where
  psr := h'.psr.trans h.psr
  flags := h'.flags.trans h.flags
  savedSp := h'.savedSp.trans h.savedSp
  clock := h'.clock.trans h.clock
  memory a ha := (h'.memory a ha).trans (h.memory a ha)

theorem restricted (h : Untouched m m') (r : m.Restricted) : m'.Restricted where
  user := (Psr.privileged_of_upper h.psr).trans r.user
  strict := (congrArg Flags.ignorePrivilege h.flags).trans r.strict

theorem rollBack {after : Machine δ} (h : Untouched m after) (f : Fault) :
    Untouched m { m.rollBack after with condition := .faulted f } where
  psr := rfl
  flags := h.flags
  savedSp := rfl
  clock := rfl
  memory a ha := by
    change ((after.memory.set (m.supervisorSp - 1) _).set (m.supervisorSp - 2) _).get a = _
    rw [Bank.get_set, Bank.get_set]
    split
    · next h₂ => rw [h₂]
    · split
      · next h₁ => rw [h₁]
      · exact h.memory a ha

end Untouched

theorem Restricted.permits {m : Machine δ} (r : m.Restricted) {a : Word}
    (h : m.access.permits a = true) : inUserSpace a = true := by
  unfold access Access.permits at h
  rw [r.user, r.strict] at h
  exact h

end Machine

variable [Device δ]

namespace Machine

/-- The next step enters a handler, for an interrupt or through the trap table. -/
def entersHandler (m : Machine δ) : Prop :=
  m.condition = .ready ∧
    (m.urgent?.isSome ∨ m.polled.access.permits m.pc = true ∧ m.polled.dispatched?.isSome)

instance (m : Machine δ) : Decidable m.entersHandler :=
  inferInstanceAs (Decidable (_ ∧ (_ ∨ _ ∧ _)))

/-! ### One step -/

/- Of a restricted machine, a part of a step changes the program's own state only. -/
def Keeping (p q : Progress δ) : Prop :=
  p.machine.Restricted → Untouched p.machine q.machine ∧ q.machine.bus = p.machine.bus ∧
    q.machine.host = p.machine.host

theorem frame_keeping : Cycle.Frame (Keeping (δ := δ)) where
  refl p _ := ⟨Untouched.refl _, rfl, rfl⟩
  trans h h' r := by
    obtain ⟨hu, hb, hh⟩ := h r
    obtain ⟨hu', hb', hh'⟩ := h' (hu.restricted r)
    exact ⟨hu.trans hu', hb'.trans hb, hh'.trans hh⟩
  mark p _ := ⟨⟨rfl, rfl, rfl, rfl, fun _ _ => rfl⟩, rfl, rfl⟩
  move p rs pc _ := ⟨⟨rfl, rfl, rfl, rfl, fun _ _ => rfl⟩, rfl, rfl⟩
  record p w _ := ⟨⟨Psr.upper_record _ _, rfl, rfl, rfl, fun _ _ => rfl⟩, rfl, rfl⟩
  read p a permitted r := by
    have ha := lt_ioStart_of_inUserSpace (r.permits permitted)
    unfold Progress.loaded
    rw [p.machine.load_of_lt true ha]
    exact ⟨Untouched.refl _, rfl, rfl⟩
  write p a w permitted r := by
    have ha := r.permits permitted
    unfold Progress.stored
    rw [p.machine.store_of_lt w (lt_ioStart_of_inUserSpace ha)]
    refine ⟨⟨rfl, rfl, rfl, rfl, fun b hb => ?_⟩, rfl, rfl⟩
    have hne : a ≠ b := by
      rintro rfl
      rw [ha] at hb
      cases hb
    exact p.machine.stored_memory_of_ne w hne
  leave p privileged r := by
    unfold access at privileged
    rw [r.user, r.strict] at privileged
    cases privileged

/- A trap that is not dispatched halts at once, and all other instructions keep the frame. -/
theorem perform_keeping (p : Progress δ)
    (direct : p.machine.access.permits p.machine.pc = true → p.machine.dispatched? = none) :
    match (Cycle.perform p.machine.pc).run p with
    | .ok _ q => Keeping p q
    | .error _ q => Keeping p q := by
  rw [Cycle.run_perform]
  by_cases permitted : p.machine.access.permits p.machine.pc = true
  · have read : Keeping p.marked (p.marked.loaded p.machine.pc) :=
      frame_keeping.read p.marked _ permitted
    have advance : Keeping (p.marked.loaded p.machine.pc) p.marked.advanced :=
      fun _ => ⟨⟨rfl, rfl, rfl, rfl, fun _ _ => rfl⟩, rfl, rfl⟩
    have fetched : Keeping p p.fetched := by
      rw [← p.advanced_marked]
      exact frame_keeping.trans (frame_keeping.mark p) (frame_keeping.trans read advance)
    rw [if_pos permitted]
    by_cases legal : p.machine.upcoming.isLegal = true
    · rw [if_pos legal]
      by_cases trap : ∃ v, p.machine.upcoming = .trap v
      · obtain ⟨v, hv⟩ := trap
        have hf : p.fetched.machine.flags = p.machine.flags :=
          congrArg Host.flags p.machine.fetched_host
        rw [hv, Cycle.run_execute_trap, hf, if_pos (dispatched_none (direct permitted) hv)]
        exact fetched
      · have keeps : Cycle.Keeps Keeping (Cycle.execute (δ := δ) p.machine.pc p.machine.upcoming) :=
          frame_keeping.compositional.execute _ _ fun v hv => absurd ⟨v, hv⟩ trap
        cases he : (Cycle.execute p.machine.pc p.machine.upcoming).run p.fetched with
        | ok halts q => exact frame_keeping.trans fetched (keeps.of_ok he)
        | error f q => exact frame_keeping.trans fetched (keeps.of_error he)
    · rw [if_neg legal]
      exact frame_keeping.trans (frame_keeping.mark p) read
  · rw [if_neg permitted]
    exact frame_keeping.mark p

theorem accepted_of_calm {m : Machine δ} (ready : m.condition = .ready) (calm : ¬m.entersHandler) :
    Progress.accepted ⟨m, #[]⟩ = ⟨m.polled, #[]⟩ ∧
      (m.polled.access.permits m.pc = true → m.polled.dispatched? = none) := by
  have urgent : m.urgent? = none := by
    cases h : m.urgent? with
    | none => rfl
    | some i =>
      exact absurd ⟨ready, Or.inl (by rw [h]; rfl)⟩ calm
  refine ⟨Progress.accepted_of_none urgent, fun permitted => ?_⟩
  cases h : m.polled.dispatched? with
  | none => rfl
  | some v => exact absurd ⟨ready, Or.inr ⟨permitted, by rw [h]; rfl⟩⟩ calm

theorem step_confined {m : Machine δ} (ready : m.condition = .ready) (r : m.Restricted)
    (calm : ¬m.entersHandler) :
    Untouched m m.step.machine ∧
      ((∃ f, m.step.machine.condition = .faulted f ∧ m.step.machine.retired = m.retired ∧
          m.step.machine.bus = m.bus.poll.2) ∨
        (∀ f, m.step.machine.condition ≠ .faulted f) ∧
          m.step.machine.retired = m.retired + 1 ∧ m.step.machine.bus = m.bus.poll.2.tick) := by
  obtain ⟨ha, direct⟩ := accepted_of_calm ready calm
  have hm : m.accepted = m.polled := by rw [← Progress.accepted_machine ⟨m, #[]⟩, ha]
  have polled : Untouched m m.polled := ⟨rfl, rfl, rfl, rfl, fun _ _ => rfl⟩
  have kept := perform_keeping ⟨m.polled, #[]⟩ direct
  rw [m.step_of_ready ready, ha, hm]
  cases hp : (Cycle.perform m.polled.pc).run (⟨m.polled, #[]⟩ : Progress δ) with
  | ok halts q =>
    rw [hp] at kept
    obtain ⟨untouched, bus, host⟩ := kept (polled.restricted r)
    have hq : Untouched m q.machine := polled.trans untouched
    have hc : q.machine.condition = .ready := (congrArg Host.condition host).trans ready
    refine ⟨⟨hq.psr, hq.flags, hq.savedSp, hq.clock, hq.memory⟩, Or.inr ⟨?_, ?_, ?_⟩⟩
    · intro f
      change (if halts || !q.machine.clock then Condition.halted else q.machine.condition) ≠ _
      rw [hc]
      split <;> exact Condition.noConfusion
    · exact congrArg (·.retired + 1) host
    · exact congrArg Bus.tick bus
  | error f q =>
    rw [hp] at kept
    obtain ⟨untouched, bus, host⟩ := kept (polled.restricted r)
    have hq : Untouched m q.machine := polled.trans untouched
    exact ⟨hq.rollBack f, Or.inl ⟨f, rfl, congrArg Host.retired host, bus⟩⟩

/-! ### Runs -/

/-- A run of steps none of which enters a handler. -/
inductive HandlerFree : Machine δ → Machine δ → Prop where
  | refl (m : Machine δ) : HandlerFree m m
  | step {m m' : Machine δ} (before : HandlerFree m m') (calm : ¬m'.entersHandler) :
      HandlerFree m m'.step.machine

end Machine

namespace Bus

/-- The devices after a completed step: asked for interrupts, and told. -/
def served (b : Bus δ) : Bus δ := b.poll.2.tick

theorem served_keyboard (b : Bus δ) (n : Nat) :
    (served^[n] b).keyboard.queue = b.keyboard.queue ∧
      (served^[n] b).keyboard.interrupts = b.keyboard.interrupts := by
  induction n with
  | zero => exact ⟨rfl, rfl⟩
  | succ n ih =>
    rw [Function.iterate_succ_apply', ← ih.1, ← ih.2]
    unfold served poll tick Keyboard.tick
    dsimp only
    split <;> exact ⟨rfl, rfl⟩

theorem served_display (b : Bus δ) (n : Nat) : (served^[n] b).display = b.display := by
  induction n with
  | zero => rfl
  | succ n ih =>
    rw [Function.iterate_succ_apply', ← ih]
    rfl

end Bus

namespace Machine

/- The devices were served once for each completed instruction, and asked once more if a step
faulted. -/
def Served (m m' : Machine δ) : Prop :=
  m'.bus = match m'.condition with
    | .faulted _ => (Bus.served^[m'.retired - m.retired] m.bus).poll.2
    | _ => Bus.served^[m'.retired - m.retired] m.bus

/-- What a run leaves of a machine in user mode that enters no handler. -/
structure Confined (m m' : Machine δ) : Prop where
  user : m'.psr.privileged = false
  memory : ∀ a, inUserSpace a = false → m'.memory.get a = m.memory.get a
  savedSp : m'.savedSp = m.savedSp
  clock : m'.clock = m.clock
  psr : m'.psr.word.extractLsb' 3 13 = m.psr.word.extractLsb' 3 13
  queue : m'.bus.keyboard.queue = m.bus.keyboard.queue
  interrupts : m'.bus.keyboard.interrupts = m.bus.keyboard.interrupts
  display : m'.bus.display = m.bus.display
  devices : Served m m'

theorem served_iff {m m' : Machine δ} (h : ∀ f, m'.condition ≠ .faulted f) :
    Served m m' ↔ m'.bus = Bus.served^[m'.retired - m.retired] m.bus := by
  unfold Served
  cases hc : m'.condition with
  | ready => exact Iff.rfl
  | halted => exact Iff.rfl
  | faulted f => exact absurd hc (h f)

theorem Served.step {m m' : Machine δ} (ready : m'.condition = .ready) (r : m'.Restricted)
    (calm : ¬m'.entersHandler) (counted : m.retired ≤ m'.retired) (served : Served m m') :
    Served m m'.step.machine := by
  have going : ∀ f, m'.condition ≠ .faulted f := by
    intro f
    rw [ready]
    exact Condition.noConfusion
  have hb := (served_iff going).mp served
  obtain ⟨-, ⟨f, hf, retired, bus⟩ | ⟨hf, retired, bus⟩⟩ := step_confined ready r calm
  · unfold Served
    rw [hf, retired, bus, hb]
  · have hn : m'.retired + 1 - m.retired = (m'.retired - m.retired) + 1 := by omega
    rw [served_iff hf, retired, hn, Function.iterate_succ_apply', bus, hb]
    rfl

/- The induction is on the run. Once the machine has halted or faulted nothing changes any more; before
that, each step serves the devices once. -/
theorem HandlerFree.untouched {m m' : Machine δ} (run : HandlerFree m m')
    (ready : m.condition = .ready) (r : m.Restricted) :
    Untouched m m' ∧ m.retired ≤ m'.retired ∧ Served m m' := by
  induction run with
  | refl =>
    refine ⟨Untouched.refl m, Nat.le_refl _, ?_⟩
    unfold Served
    rw [ready, Nat.sub_self]
    rfl
  | @step m' before calm ih =>
    obtain ⟨untouched, counted, served⟩ := ih
    by_cases ready' : m'.condition = .ready
    · have r' := untouched.restricted r
      obtain ⟨untouched', ends⟩ := step_confined ready' r' calm
      refine ⟨untouched.trans untouched', ?_, served.step ready' r' calm counted⟩
      rcases ends with ⟨f, -, retired, -⟩ | ⟨-, retired, -⟩
      · omega
      · omega
    · rw [step_of_not_ready ready']
      exact ⟨untouched, counted, served⟩

/-- A program in user mode that enters no handler is confined, also by a fault. -/
theorem run_confined {m m' : Machine δ} (ready : m.condition = .ready)
    (user : m.psr.privileged = false) (strict : m.flags.ignorePrivilege = false)
    (run : HandlerFree m m') : Confined m m' := by
  have r : m.Restricted := ⟨user, strict⟩
  obtain ⟨untouched, -, served⟩ := run.untouched ready r
  have devices : m'.bus.keyboard.queue = m.bus.keyboard.queue ∧
      m'.bus.keyboard.interrupts = m.bus.keyboard.interrupts ∧
      m'.bus.display = m.bus.display := by
    have keyboard := m.bus.served_keyboard (m'.retired - m.retired)
    have display := m.bus.served_display (m'.retired - m.retired)
    unfold Served at served
    split at served
    · rw [served]
      exact ⟨keyboard.1, keyboard.2, display⟩
    · rw [served]
      exact ⟨keyboard.1, keyboard.2, display⟩
  exact {
    user := (untouched.restricted r).user
    memory := untouched.memory
    savedSp := untouched.savedSp
    clock := untouched.clock
    psr := untouched.psr
    queue := devices.1
    interrupts := devices.2.1
    display := devices.2.2
    devices := served }

/- A program that adds once and then tries to write to the display through a pointer. -/
def intruder : Machine Peripheral where
  memory := (((Bank.fill 16 0).set 0x3000 0x1021).set 0x3001 0xB000).set 0x3002 ddr
  registers := Bank.fill 3 0
  flags := { ignorePrivilege := false }

theorem run_confined_intruder :
    let after := intruder.step.machine.step.machine
    after.condition = .faulted (.accessViolation 0x3001 ddr) ∧ Confined intruder after := by
  have run : HandlerFree intruder intruder.step.machine.step.machine :=
    .step (.step (.refl _) (by decide +kernel)) (by decide +kernel)
  exact ⟨by decide +kernel, run_confined rfl rfl rfl run⟩

end Machine

end Lc3
