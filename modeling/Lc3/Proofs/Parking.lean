import Lc3.Device.Peripheral
import Lc3.Proofs.Trail
import Lc3.Session

/-!
# Parked machines

A run that stops at a breakpoint parks the machine there. Whatever the host does, a parked machine
stands where it is parked (`Machine.Anchored`), and it stays parked until an instruction completes or
the host moves the program counter (`Session.perform_advances`). So no breakpoint is reported twice
without either in between, and each report goes to the handler of the run, once
(`Session.breakpoint_reports`).
-/

namespace Lc3

variable {δ : Type}

/- The breakpoint that stopped a run. -/
def StopReason.breakpoint? : StopReason → Option Breakpoint
  | .breakpoint b => some b
  | _ => none

theorem Condition.breakpoint?_of_stop? {c : Condition} {r : StopReason} (h : c.stop? = some r) :
    r.breakpoint? = none := by
  cases c with
  | ready => cases h
  | halted =>
    cases h
    rfl
  | faulted f =>
    cases h
    rfl

theorem Policy.spent_breakpoint? (p : Policy) : p.spent.breakpoint? = none := by
  cases p <;> rfl

namespace Machine

/- A parked machine stands where it is parked. -/
def Anchored (m : Machine δ) : Prop := m.parked = none ∨ m.parked = some m.pc

/- On the way from one machine to the other, it has not moved and not been unparked where it stands,
unless an instruction has been counted. -/
structure Advances (m m' : Machine δ) : Prop where
  retired : m.retired ≤ m'.retired
  still : m'.retired = m.retired → m'.pc = m.pc ∧ (m.parked = some m.pc → m'.parked = some m'.pc)
  anchored : m.Anchored → m'.Anchored

namespace Advances

variable {m m' m'' : Machine δ}

theorem of_same (pc : m'.pc = m.pc) (retired : m'.retired = m.retired)
    (parked : m'.parked = m.parked) : Advances m m' where
  retired := Nat.le_of_eq retired.symm
  still _ := ⟨pc, fun h => by rw [parked, pc, h]⟩
  anchored h := by
    unfold Anchored
    rw [parked, pc]
    exact h

theorem refl (m : Machine δ) : Advances m m := of_same rfl rfl rfl

theorem trans (h : Advances m m') (h' : Advances m' m'') : Advances m m'' where
  retired := Nat.le_trans h.retired h'.retired
  still same := by
    have first : m'.retired = m.retired := Nat.le_antisymm (same ▸ h'.retired) h.retired
    obtain ⟨pc, parked⟩ := h.still first
    obtain ⟨pc', parked'⟩ := h'.still (same.trans first.symm)
    exact ⟨pc'.trans pc, fun at_ => parked' (parked at_)⟩
  anchored start := h'.anchored (h.anchored start)

variable [Device δ]

theorem step (m : Machine δ) : Advances m m.step.machine := by
  by_cases ready : m.condition = .ready
  · obtain ⟨f, -, pc, host⟩ | ⟨c, -, -, host⟩ := step_host ready
    · exact of_same pc (congrArg Host.retired host) (congrArg Host.parked host)
    · have retired : m.step.machine.retired = m.retired + 1 := congrArg Host.retired host
      have parked : m.step.machine.parked = none := congrArg Host.parked host
      refine ⟨by omega, fun same => by omega, fun _ => Or.inl parked⟩
  · rw [step_of_not_ready ready]
    exact refl m

theorem turn {watch : Bool} {x : Machine δ} (h : m.turn? watch = some x) : Advances m x := by
  have frame := turn?_frame h
  exact of_same (by rw [frame]) (by rw [frame]) (by rw [frame])

end Advances

variable [Device δ]

/-! ### Runs -/

/- A parked machine has to leave before a loop stops at a breakpoint. -/
theorem loop_parks {watch : Bool} {spent : StopReason} (hs : spent.breakpoint? = none) (n : Nat)
    (m : Machine δ) (events : Array Event) :
    let e := loop watch spent n m events
    Advances m e.machine ∧ ∀ b, e.reason.breakpoint? = some b →
      e.machine.parked = some e.machine.pc ∧
        (m.parked = some m.pc → m.retired < e.machine.retired) := by
  refine loop_induction (motive := fun m r e => Advances m e ∧ ∀ b, r.breakpoint? = some b →
    e.parked = some e.pc ∧ (m.parked = some m.pc → m.retired < e.retired)) ?_ ?_ n m events
  · intro m r e rests
    cases rests with
    | stopped h =>
      rw [Condition.breakpoint?_of_stop? h]
      exact ⟨.refl m, fun b hb => nomatch hb⟩
    | spent =>
      rw [hs]
      exact ⟨.refl m, fun b hb => nomatch hb⟩
    | breakpoint ready here =>
      have free : m.parked ≠ some m.pc := by
        intro stands
        unfold breakpointHere at here
        rw [if_pos stands] at here
        cases here
      have parks : Advances m { m with parked := some m.pc } :=
        ⟨Nat.le_refl _, fun _ => ⟨rfl, fun _ => rfl⟩, fun _ => Or.inr rfl⟩
      exact ⟨parks, fun b _ => ⟨rfl, fun stands => absurd stands free⟩⟩
    | waits =>
      have frame := m.awaitsInput_frame
      exact ⟨.of_same (by rw [frame]) (by rw [frame]) (by rw [frame]), fun b hb => nomatch hb⟩
  · intro m x r e ht ⟨later, stops⟩
    have first : Advances m x.step.machine := (Advances.turn ht).trans (.step x)
    refine ⟨first.trans later, fun b hb => ?_⟩
    obtain ⟨parked, leaves⟩ := stops b hb
    refine ⟨parked, fun stands => ?_⟩
    cases Nat.lt_or_eq_of_le first.retired with
    | inl counted => exact Nat.lt_of_lt_of_le counted later.retired
    | inr same =>
      rw [same]
      exact leaves ((first.still same.symm).2 stands)

theorem run_parks {η : Type} (m : Machine δ) (p : Policy) (handler : HitHandler δ η) (h : η) :
    let r := m.run p handler h
    Advances m r.machine ∧ ∀ b, r.outcome.reason.breakpoint? = some b →
      r.machine.parked = some r.machine.pc ∧
        (m.parked = some m.pc → m.retired < r.machine.retired) := by
  obtain ⟨kept, stops⟩ := loop_parks p.spent_breakpoint? (p.allowance m.flags)
    { m with limitExceeded := false } #[]
  exact ⟨⟨kept.retired, kept.still, kept.anchored⟩, stops⟩

/-! ### Other operations -/

section Repetition

variable {R : Machine δ → Machine δ → Prop}

/- What holds of a step holds of steps in a row. -/
theorem steps_keeps (refl : ∀ m, R m m) (trans : ∀ {m m' m''}, R m m' → R m' m'' → R m m'')
    (step : ∀ m, R m m.step.machine) (m : Machine δ) (n : Nat) : R m (m.steps n).2.1 := by
  induction n generalizing m with
  | zero => exact refl m
  | succ n ih => exact trans (step m) (ih _)

/- A listing is made of inspections. -/
theorem disassemble_keeps (refl : ∀ m, R m m) (trans : ∀ {m m' m''}, R m m' → R m' m'' → R m m'')
    (inspect : ∀ m a, R m (m.inspect a).2) (m : Machine δ) (a : Word) (n : Nat) :
    R m (m.disassemble a n).2 := by
  induction n generalizing m a with
  | zero => exact refl m
  | succ n ih => exact trans (inspect m a) (ih _ _)

/- A loop is made of looks ahead, of steps and of a note of where it parks the machine. -/
theorem loop_keeps (refl : ∀ m, R m m) (trans : ∀ {m m' m''}, R m m' → R m' m'' → R m m'')
    (step : ∀ m, R m m.step.machine) (inspect : ∀ m a, R m (m.inspect a).2)
    (parks : ∀ m a, R m { m with parked := some a }) (watch : Bool) (spent : StopReason) (n : Nat)
    (m : Machine δ) (events : Array Event) : R m (loop watch spent n m events).machine := by
  refine loop_induction (motive := fun m _ e => R m e) ?_ ?_ n m events
  · intro m r e rests
    cases rests with
    | stopped => exact refl m
    | spent => exact refl m
    | breakpoint => exact parks m m.pc
    | waits => exact awaitsInput_keeps refl trans inspect m
  · intro m x r e turn later
    have looks : R m x := by
      obtain ⟨-, -, ⟨-, -, looked⟩ | ⟨-, same⟩⟩ := turn?_eq_some turn
      · rw [looked]
        exact awaitsInput_keeps refl trans inspect m
      · rw [same]
        exact refl m
    exact trans (trans looks (step x)) later

/- A run is a loop, and notes how it ended. -/
theorem run_keeps {η : Type} (refl : ∀ m, R m m) (trans : ∀ {m m' m''}, R m m' → R m' m'' → R m m'')
    (step : ∀ m, R m m.step.machine) (inspect : ∀ m a, R m (m.inspect a).2)
    (parks : ∀ m a, R m { m with parked := some a })
    (notes : ∀ m exceeded last, R m { m with limitExceeded := exceeded, lastStop := last })
    (m : Machine δ) (p : Policy) (handler : HitHandler δ η) (h : η) :
    R m (m.run p handler h).machine := by
  have begins : R m { m with limitExceeded := false } := notes m false m.lastStop
  have loops := loop_keeps refl trans step inspect parks p.watchesInput p.spent
    (p.allowance m.flags) { m with limitExceeded := false } #[]
  exact trans (trans begins loops) (notes (m.looped p).machine _ _)

end Repetition

theorem inspect_advances (m : Machine δ) (a : Word) : Advances m (m.inspect a).2 := by
  have frame : (m.inspect a).2 =
      { m with memory := (m.inspect a).2.memory, bus := (m.inspect a).2.bus } := m.load_frame a false
  exact .of_same (by rw [frame]) (by rw [frame]) (by rw [frame])

theorem store_advances (m : Machine δ) (a w : Word) : Advances m (m.store a w) := by
  have frame := m.store_frame a w
  exact .of_same (by rw [frame]) (by rw [frame]) (by rw [frame])

end Machine

/-! ### Sessions -/

/- The breakpoint that stopped the run which is answered for. -/
def Answer.stoppedAt? : Answer → Option Breakpoint
  | .outcome o _ => o.reason.breakpoint?
  | _ => none

/- Whether the command loads an image. -/
def Command.loads : Command δ → Bool
  | .load _ _ => true
  | .loadText _ => true
  | .loadObject _ => true
  | _ => false

/- Whether the command sets the program counter. Only images that can be read are loaded. -/
def Command.moves : Command δ → Bool
  | .load blocks _ => (blocks.foldlM Image.addBlock {}).isOk
  | .loadText source => (Image.ofText source).isOk
  | .loadObject bytes => (Image.ofObject bytes).isOk
  | .reset => true
  | .setPc _ => true
  | _ => false

namespace Session

open Machine

variable [Device δ]

/-- Carry out commands one after another. -/
def performAll (s : Session δ) (cs : List (Command δ)) : Session δ :=
  cs.foldl (fun s c => (s.perform c).session) s

/- What holds of each of the commands holds of all of them in a row. -/
theorem performAll_keeps {R : Machine δ → Machine δ → Prop} {P : Command δ → Prop}
    (refl : ∀ m, R m m) (trans : ∀ {m m' m''}, R m m' → R m' m'' → R m m'')
    (perform : ∀ (s : Session δ) (c : Command δ), P c → R s.machine (s.perform c).session.machine)
    (s : Session δ) {cs : List (Command δ)} (h : ∀ c ∈ cs, P c) :
    R s.machine (s.performAll cs).machine := by
  induction cs generalizing s with
  | nil => exact refl s.machine
  | cons c cs ih =>
    have first := perform s c (h c List.mem_cons_self)
    exact trans first (ih _ fun c' hc' => h c' (List.mem_cons_of_mem c hc'))

/- Whoever is told, a run does the same to the machine. -/
theorem run_keeps {R : Machine δ → Machine δ → Prop} (s : Session δ) (p : Policy) (w : Watcher)
    (run : ∀ {η : Type} (handler : HitHandler δ η) (h : η),
      R s.machine (s.machine.run p handler h).machine) :
    R s.machine (s.run p w).session.machine := by
  cases w with
  | nobody => exact run HitHandler.ignore ()
  | host => exact run hostHandler []
  | channel => exact run HitChannel.handler s.channel

/- A command that loads an image goes to it, unless the image cannot be read. -/
theorem perform_loads (s : Session δ) {c : Command δ} (loads : c.loads = true) :
    c.moves = true ∧ (∃ i, (s.perform c).session = s.withMachine (s.machine.loadImage i)) ∨
      c.moves = false ∧ (s.perform c).session = s := by
  cases c with
  | load blocks entry =>
    unfold perform Command.moves
    dsimp only
    cases blocks.foldlM Image.addBlock {} with
    | error e => exact Or.inr ⟨rfl, rfl⟩
    | ok i => exact Or.inl ⟨rfl, _, rfl⟩
  | loadText source =>
    unfold perform Command.moves
    dsimp only
    cases Image.ofText source with
    | error e => exact Or.inr ⟨rfl, rfl⟩
    | ok i => exact Or.inl ⟨rfl, i, rfl⟩
  | loadObject bytes =>
    unfold perform Command.moves
    dsimp only
    cases Image.ofObject bytes with
    | error e => exact Or.inr ⟨rfl, rfl⟩
    | ok i => exact Or.inl ⟨rfl, i, rfl⟩
  | _ => cases loads

theorem run_parks (s : Session δ) (p : Policy) (w : Watcher) :
    Advances s.machine (s.run p w).session.machine ∧
      ∀ b, (s.run p w).answer.stoppedAt? = some b →
        (s.run p w).session.machine.parked = some (s.run p w).session.machine.pc ∧
        (s.machine.parked = some s.machine.pc →
          s.machine.retired < (s.run p w).session.machine.retired) := by
  cases w with
  | nobody => exact s.machine.run_parks p HitHandler.ignore ()
  | host => exact s.machine.run_parks p hostHandler []
  | channel => exact s.machine.run_parks p HitChannel.handler s.channel

/- A command that sets the program counter unparks the machine, and any other lets it advance. -/
theorem perform_cases (s : Session δ) (c : Command δ) :
    c.moves = true ∧ (s.perform c).session.machine.parked = none ∨
      c.moves = false ∧ Advances s.machine (s.perform c).session.machine := by
  have same {m : Machine δ} (pc : m.pc = s.machine.pc) (retired : m.retired = s.machine.retired)
      (parked : m.parked = s.machine.parked) : false = true ∧ m.parked = none ∨
        false = false ∧ Advances s.machine m := Or.inr ⟨rfl, .of_same pc retired parked⟩
  cases loads : c.loads with
  | true =>
    obtain ⟨moves, i, loaded⟩ | ⟨stays, refused⟩ := s.perform_loads loads
    · rw [loaded]
      exact Or.inl ⟨moves, rfl⟩
    · rw [refused]
      exact Or.inr ⟨stays, .refl _⟩
  | false =>
    cases c with
    | load _ _ | loadText _ | loadObject _ => cases loads
    | reset => exact Or.inl ⟨rfl, rfl⟩
    | setPc a => exact Or.inl ⟨rfl, rfl⟩
    | readRegister _ | removeBreakpoint _ =>
      unfold perform
      dsimp only
      split <;> exact same rfl rfl rfl
    | writeRegister n w =>
      unfold perform writeRegister
      dsimp only
      cases Reg.ofNumber n <;> exact same rfl rfl rfl
    | readMemory a => exact Or.inr ⟨rfl, s.machine.inspect_advances a⟩
    | writeMemory a w => exact Or.inr ⟨rfl, s.machine.store_advances a w⟩
    | disassemble a n =>
      exact Or.inr ⟨rfl, disassemble_keeps .refl .trans inspect_advances s.machine a n⟩
    | step n => exact Or.inr ⟨rfl, steps_keeps .refl .trans .step s.machine n⟩
    | run p w => exact Or.inr ⟨rfl, (s.run_parks p w).1⟩
    | _ => exact same rfl rfl rfl

theorem perform_anchored {s : Session δ} (h : s.machine.Anchored) (c : Command δ) :
    (s.perform c).session.machine.Anchored := by
  obtain ⟨-, unparked⟩ | ⟨-, kept⟩ := s.perform_cases c
  · exact Or.inl unparked
  · exact kept.anchored h

theorem perform_advances (s : Session δ) {c : Command δ} (h : c.moves = false) :
    Advances s.machine (s.perform c).session.machine := by
  obtain ⟨moves, -⟩ | ⟨-, kept⟩ := s.perform_cases c
  · rw [h] at moves
    cases moves
  · exact kept

theorem performAll_anchored {s : Session δ} (h : s.machine.Anchored) (cs : List (Command δ)) :
    (s.performAll cs).machine.Anchored := by
  induction cs generalizing s with
  | nil => exact h
  | cons c cs ih => exact ih (perform_anchored h c)

theorem performAll_advances (s : Session δ) {cs : List (Command δ)} (h : ∀ c ∈ cs, c.moves = false) :
    Advances s.machine (s.performAll cs).machine :=
  performAll_keeps .refl .trans (fun s _ stays => s.perform_advances stays) s h

/- A run that stops at a breakpoint and a later one. -/
theorem breakpoint_again (s : Session δ) (p p' : Policy) (w w' : Watcher) (cs : List (Command δ))
    {b b' : Breakpoint} :
    let first := s.perform (.run p w)
    let second := (first.session.performAll cs).perform (.run p' w')
    first.answer.stoppedAt? = some b → second.answer.stoppedAt? = some b' →
      (∃ c ∈ cs, c.moves = true) ∨ first.session.machine.retired < second.session.machine.retired := by
  intro first second stop stop'
  by_cases moved : ∃ c ∈ cs, c.moves = true
  · exact Or.inl moved
  · have stays (c : Command δ) (hc : c ∈ cs) : c.moves = false :=
      Bool.eq_false_iff.mpr fun h => moved ⟨c, hc, h⟩
    have between := first.session.performAll_advances stays
    obtain ⟨last, leaves⟩ := (first.session.performAll cs).run_parks p' w'
    have parked : first.session.machine.parked = some first.session.machine.pc :=
      ((s.run_parks p w).2 b stop).1
    refine Or.inr ?_
    cases Nat.lt_or_eq_of_le between.retired with
    | inl counted => exact Nat.lt_of_lt_of_le counted last.retired
    | inr same =>
      rw [same]
      exact (leaves b' stop').2 ((between.still same.symm).2 parked)

end Session

/-! ### Handlers -/

/- The handler together with a record of the breakpoints that it is told of. -/
def HitHandler.recorded {η : Type} (handler : HitHandler δ η) : HitHandler δ (η × List Breakpoint) :=
  fun m b h => (((handler m b h.1).1, h.2 ++ [b]), (handler m b h.1).2)

variable [Device δ]

theorem Machine.run_recorded {η : Type} (m : Machine δ) (p : Policy) (handler : HitHandler δ η)
    (h : η) :
    let r := m.run p handler h
    let r' := m.run p handler.recorded (h, [])
    r'.outcome = r.outcome ∧ r'.machine = r.machine ∧ r'.events = r.events ∧
      r'.handler = (r.handler, r.outcome.reason.breakpoint?.toList) := by
  unfold run
  dsimp only
  generalize loop p.watchesInput p.spent (p.allowance m.flags) { m with limitExceeded := false } #[] = e
  obtain ⟨reason, machine, events⟩ := e
  cases reason <;> exact ⟨rfl, rfl, rfl, rfl⟩

/-- How runs report breakpoints, in every session that a host can bring about. If its machine is
parked, then where it stands. Between two runs that stop at breakpoints, with any commands between
them, an instruction completes or the host sets the program counter. And a run tells its handler of
the breakpoint that it stops at, once, and of nothing else. -/
theorem Session.breakpoint_reports (flags : Flags) (entropy : Entropy) (capacity : Option Nat)
    (history : List (Command δ)) :
    let s := (Session.start flags entropy capacity).performAll history
    (s.machine.parked = none ∨ s.machine.parked = some s.machine.pc) ∧
    (∀ (p p' : Policy) (w w' : Watcher) (between : List (Command δ)) (b b' : Breakpoint),
      let first := s.perform (.run p w)
      let second := (first.session.performAll between).perform (.run p' w')
      first.answer.stoppedAt? = some b → second.answer.stoppedAt? = some b' →
        (∃ c ∈ between, c.moves = true) ∨
          first.session.machine.retired < second.session.machine.retired) ∧
    ∀ (η : Type) (p : Policy) (handler : HitHandler δ η) (h : η),
      let r := s.machine.run p handler h
      let recorded := s.machine.run p handler.recorded (h, [])
      recorded.outcome = r.outcome ∧ recorded.machine = r.machine ∧ recorded.events = r.events ∧
        recorded.handler = (r.handler, r.outcome.reason.breakpoint?.toList) := by
  intro s
  refine ⟨performAll_anchored (Or.inl rfl) history, ?_, ?_⟩
  · intro p p' w w' between b b'
    exact s.breakpoint_again p p' w w' between
  · intro η p handler h
    exact s.machine.run_recorded p handler h

/- A program that does nothing, with two breakpoints on its way. -/
def stopover : Session Peripheral :=
  (Session.start {} (.constant 0) none).performAll [.setBreakpoint 0x3001, .setBreakpoint 0x3003]

theorem Session.breakpoint_reports_stopover :
    let first := stopover.perform (.run (.toHalt none) .nobody)
    let between : List (Command Peripheral) := [.run (.steps 0) .host, .setBreakpoint 0x3001]
    let second := (first.session.performAll between).perform (.run (.toHalt none) .channel)
    first.answer.stoppedAt? = some ⟨0, 0x3001⟩ ∧ second.answer.stoppedAt? = some ⟨1, 0x3003⟩ ∧
      first.session.machine.retired < second.session.machine.retired := by
  intro first between second
  have stop : first.answer.stoppedAt? = some ⟨0, 0x3001⟩ := by decide +kernel
  have stop' : second.answer.stoppedAt? = some ⟨1, 0x3003⟩ := by decide +kernel
  obtain ⟨-, again, -⟩ := Session.breakpoint_reports (δ := Peripheral) {} (.constant 0) none
    [.setBreakpoint 0x3001, .setBreakpoint 0x3003]
  obtain ⟨c, among, moves⟩ | counted := again _ _ _ _ between _ _ stop stop'
  · have stays : ∀ c ∈ between, c.moves = false := by decide
    rw [stays c among] at moves
    cases moves
  · exact ⟨stop, stop', counted⟩

end Lc3
