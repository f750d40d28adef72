import Lc3.Device.Peripheral
import Lc3.Proofs.Parking
import Mathlib.Data.List.Induction

/-!
# The clock

The top bit of the machine control register is the clock of the machine. A step that leaves it cleared
is the last one (`Machine.step_clock`), and a machine that stopped stays as it stopped until the host
moves it, which sets the clock again. So along whatever a host does the clock is set when the machine
is ready (`Regulated`), with one exception: a host that clears it at its address leaves the machine
ready, and the next step still completes an instruction (`Session.clock_governs`).
-/

namespace Lc3

variable {δ : Type}

/- On the way from one machine to the other, a machine that stopped has stayed as it was, instructions
have been counted only with the clock set behind them, and nothing else has changed the clock of a
machine that is ready. -/
structure Regulated (m m' : Machine δ) : Prop where
  retired : m.retired ≤ m'.retired
  stopped : m.condition ≠ .ready → m'.condition = m.condition ∧ m'.retired = m.retired
  running : m'.condition = .ready → m.retired < m'.retired → m'.clock = true
  still : m'.condition = .ready → m'.retired = m.retired → m'.clock = m.clock

namespace Regulated

variable {m m' m'' : Machine δ}

theorem of_same (condition : m'.condition = m.condition) (retired : m'.retired = m.retired)
    (clock : m'.clock = m.clock) : Regulated m m' where
  retired := Nat.le_of_eq retired.symm
  stopped _ := ⟨condition, retired⟩
  running _ counted := absurd retired.symm (Nat.ne_of_lt counted)
  still _ _ := clock

theorem refl (m : Machine δ) : Regulated m m := of_same rfl rfl rfl

/- A machine that is ready has been ready all along. -/
theorem ready (h : Regulated m m') (hr : m'.condition = .ready) : m.condition = .ready := by
  by_contra stopped
  exact stopped ((h.stopped stopped).1.symm.trans hr)

theorem trans (h : Regulated m m') (h' : Regulated m' m'') : Regulated m m'' where
  retired := Nat.le_trans h.retired h'.retired
  stopped stopped := by
    obtain ⟨condition, retired⟩ := h.stopped stopped
    obtain ⟨condition', retired'⟩ := h'.stopped fun ready => stopped (condition ▸ ready)
    exact ⟨condition'.trans condition, retired'.trans retired⟩
  running ready counted := by
    obtain later | same := Nat.lt_or_eq_of_le h'.retired
    · exact h'.running ready later
    · rw [h'.still ready same.symm]
      exact h.running (h'.ready ready) (same ▸ counted)
  still ready same := by
    have first : m'.retired = m.retired := Nat.le_antisymm (same ▸ h'.retired) h.retired
    exact (h'.still ready (same.trans first.symm)).trans (h.still (h'.ready ready) first)

end Regulated

variable [Device δ]

namespace Machine

/-! ### Steps and runs -/

/- A step that leaves the machine ready leaves the clock set and has completed an instruction. -/
theorem step_clock {m : Machine δ} (ready : m.condition = .ready)
    (goesOn : m.step.machine.condition = .ready) :
    m.step.machine.clock = true ∧ m.step.machine.retired = m.retired + 1 := by
  have retired := step_retired ready
  rw [goesOn] at retired
  refine ⟨?_, retired.resolve_left fun ⟨f, h⟩ => Condition.noConfusion h⟩
  obtain ⟨halts, q, -, -, -, hs⟩ | ⟨f, q, -, hs⟩ := m.step_cases ready
  · rw [hs] at goesOn ⊢
    change (if halts || !q.machine.clock then Condition.halted else q.machine.condition) = .ready
      at goesOn
    cases hc : q.machine.clock with
    | true => exact hc
    | false =>
      rw [hc, Bool.not_false, Bool.or_true, if_pos rfl] at goesOn
      cases goesOn
  · rw [hs] at goesOn
    cases goesOn

theorem step_regulated (m : Machine δ) : Regulated m m.step.machine := by
  by_cases ready : m.condition = .ready
  · refine ⟨?_, fun stopped => absurd ready stopped, fun goesOn _ => (step_clock ready goesOn).1,
      fun goesOn same => ?_⟩
    · obtain ⟨f, -, -, host⟩ | ⟨c, -, -, host⟩ := step_host ready
      · exact Nat.le_of_eq (congrArg Host.retired host).symm
      · exact Nat.le_of_lt (Nat.lt_of_succ_le (Nat.le_of_eq (congrArg Host.retired host).symm))
    · have counted := (step_clock ready goesOn).2
      omega
  · rw [step_of_not_ready ready]
    exact .refl m

theorem inspect_regulated (m : Machine δ) (a : Word) : Regulated m (m.inspect a).2 := by
  have frame : (m.inspect a).2 =
      { m with memory := (m.inspect a).2.memory, bus := (m.inspect a).2.bus } := m.load_frame a false
  exact .of_same (by rw [frame]) (by rw [frame]) (by rw [frame])

theorem run_regulated {η : Type} (m : Machine δ) (p : Policy) (handler : HitHandler δ η) (h : η) :
    Regulated m (m.run p handler h).machine :=
  run_keeps .refl .trans step_regulated inspect_regulated (fun _ _ => .of_same rfl rfl rfl)
    (fun _ _ _ => .of_same rfl rfl rfl) m p handler h

/-! ### Stores -/

theorem store_regulated (m : Machine δ) {a : Word} (w : Word) (h : a ≠ mcrAddress) :
    Regulated m (m.store a w) := by
  have host := m.store_host a w
  exact .of_same (congrArg Host.condition host) (congrArg Host.retired host)
    (m.store_clock_of_ne w h)

end Machine

/-! ### Sessions -/

/- Whether the command writes the machine control register. No command but a write of memory does. -/
def Command.writesControl : Command δ → Bool
  | .writeMemory a _ => a == mcrAddress
  | _ => false

namespace Session

open Machine

/- Where a command takes the machine, it is ready and its clock is set. -/
theorem perform_moves (s : Session δ) {c : Command δ} (moves : c.moves = true) :
    (s.perform c).session.machine.condition = .ready ∧
      (s.perform c).session.machine.clock = true := by
  cases loads : c.loads with
  | true =>
    obtain ⟨-, i, loaded⟩ | ⟨stays, -⟩ := s.perform_loads loads
    · rw [loaded]
      exact ⟨rfl, rfl⟩
    · rw [stays] at moves
      cases moves
  | false =>
    cases c with
    | load _ _ | loadText _ | loadObject _ => cases loads
    | reset | setPc a => exact ⟨rfl, rfl⟩
    | _ => cases moves

theorem perform_regulated (s : Session δ) {c : Command δ} (stays : c.moves = false)
    (h : c.writesControl = false) : Regulated s.machine (s.perform c).session.machine := by
  cases loads : c.loads with
  | true =>
    obtain ⟨moves, -⟩ | ⟨-, refused⟩ := s.perform_loads loads
    · rw [stays] at moves
      cases moves
    · rw [refused]
      exact .refl _
  | false =>
    cases c with
    | load _ _ | loadText _ | loadObject _ => cases loads
    | reset | setPc _ => cases stays
    | readRegister _ | removeBreakpoint _ =>
      unfold perform
      dsimp only
      split <;> exact .of_same rfl rfl rfl
    | writeRegister n w =>
      unfold perform writeRegister
      dsimp only
      cases Reg.ofNumber n <;> exact .of_same rfl rfl rfl
    | readMemory a => exact s.machine.inspect_regulated a
    | writeMemory a w => exact s.machine.store_regulated w fun e => ne_of_beq_false h e
    | disassemble a n => exact disassemble_keeps .refl .trans inspect_regulated s.machine a n
    | step n => exact steps_keeps .refl .trans step_regulated s.machine n
    | run p w => exact s.run_keeps p w (s.machine.run_regulated p)
    | _ => exact .of_same rfl rfl rfl

theorem perform_writesControl (s : Session δ) {c : Command δ} (h : c.writesControl = true) :
    ∃ w, c = .writeMemory mcrAddress w ∧ (s.perform c).session.machine.clock = w.msb ∧
      (s.perform c).session.machine.host = s.machine.host := by
  cases c with
  | writeMemory a w =>
    obtain rfl : a = mcrAddress := eq_of_beq h
    exact ⟨w, rfl, rfl, s.machine.store_host mcrAddress w⟩
  | _ => cases h

theorem performAll_regulated (s : Session δ) {cs : List (Command δ)}
    (h : ∀ c ∈ cs, c.moves = false ∧ c.writesControl = false) :
    Regulated s.machine (s.performAll cs).machine :=
  performAll_keeps .refl .trans (fun s _ hc => s.perform_regulated hc.1 hc.2) s h

/- Only a move takes a machine on that stopped. -/
theorem performAll_stopped (s : Session δ) {cs : List (Command δ)} (stays : ∀ c ∈ cs, c.moves = false)
    (stopped : s.machine.condition ≠ .ready) :
    (s.performAll cs).machine.condition = s.machine.condition ∧
      (s.performAll cs).machine.retired = s.machine.retired := by
  refine performAll_keeps (R := fun m m' => m.condition ≠ .ready →
    m'.condition = m.condition ∧ m'.retired = m.retired) (fun _ _ => ⟨rfl, rfl⟩) ?_ ?_ s stays stopped
  · intro m m' m'' first later stopped
    obtain ⟨condition, retired⟩ := first stopped
    obtain ⟨condition', retired'⟩ := later fun ready => stopped (condition ▸ ready)
    exact ⟨condition'.trans condition, retired'.trans retired⟩
  · intro s c stays stopped
    cases control : c.writesControl with
    | true =>
      obtain ⟨w, -, -, host⟩ := s.perform_writesControl control
      exact ⟨congrArg Host.condition host, congrArg Host.retired host⟩
    | false => exact (s.perform_regulated stays control).stopped stopped

theorem performAll_snoc (s : Session δ) (cs : List (Command δ)) (c : Command δ) :
    s.performAll (cs ++ [c]) = ((s.performAll cs).perform c).session := List.foldl_append

/- The induction takes the last command off. If it does not clear the clock itself, then the clock was
cleared before it, and it has completed no instruction. -/
theorem cleared_by_host (flags : Flags) (entropy : Entropy) (capacity : Option Nat)
    (history : List (Command δ)) :
    let fresh : Session δ := Session.start flags entropy capacity
    let m := (fresh.performAll history).machine
    m.condition = .ready → m.clock = false → ∃ before w after,
      history = before ++ .writeMemory mcrAddress w :: after ∧ w.msb = false ∧
      (∀ c ∈ after, c.moves = false ∧ c.writesControl = false) ∧
      m.retired = (fresh.performAll before).machine.retired := by
  intro fresh
  induction history using List.reverseRecOn with
  | nil => exact fun _ cleared => nomatch cleared
  | append_singleton cs c ih =>
    rw [performAll_snoc]
    intro m ready cleared
    cases moves : c.moves with
    | true =>
      rw [(perform_moves _ moves).2] at cleared
      cases cleared
    | false =>
      cases control : c.writesControl with
      | true =>
        obtain ⟨w, rfl, clock, host⟩ := (fresh.performAll cs).perform_writesControl control
        exact ⟨cs, w, [], rfl, clock.symm.trans cleared, fun _ h => (nomatch h),
          congrArg Host.retired host⟩
      | false =>
        have kept := (fresh.performAll cs).perform_regulated moves control
        have same : m.retired = (fresh.performAll cs).machine.retired := by
          refine (Nat.lt_or_eq_of_le kept.retired).elim (fun counted => ?_) Eq.symm
          rw [kept.running ready counted] at cleared
          cases cleared
        obtain ⟨before, w, after, rfl, low, quiet, counted⟩ :=
          ih (kept.ready ready) ((kept.still ready same).symm.trans cleared)
        refine ⟨before, w, after ++ [c], by rw [List.append_assoc, List.cons_append], low, ?_,
          same.trans counted⟩
        intro c' among
        obtain earlier | last := List.mem_append.mp among
        · exact quiet c' earlier
        · rw [List.mem_singleton.mp last]
          exact ⟨moves, control⟩

/-- The clock of the machine, in every session that a host can bring about. A machine that is ready has
its clock set, unless a host cleared it by a write at its address: exactly then it is cleared when since
that write the host has not moved the machine or written the register again, and no instruction has
completed. The step of such a machine is the last one, if it does not set the clock: no step leaves a
machine ready with its clock cleared. And a machine that stopped stays as it stopped and counts no
instruction until the host moves it, which makes it ready and sets its clock. -/
theorem clock_governs (flags : Flags) (entropy : Entropy) (capacity : Option Nat)
    (history : List (Command δ)) :
    let fresh : Session δ := Session.start flags entropy capacity
    let s := fresh.performAll history
    (s.machine.condition = .ready →
      (s.machine.clock = false ↔ ∃ before w after,
        history = before ++ .writeMemory mcrAddress w :: after ∧ w.msb = false ∧
        (∀ c ∈ after, c.moves = false ∧ c.writesControl = false) ∧
        s.machine.retired = (fresh.performAll before).machine.retired)) ∧
    (s.machine.step.machine.condition = .ready →
      s.machine.step.machine.clock = true ∧
        s.machine.step.machine.retired = s.machine.retired + 1) ∧
    (s.machine.condition ≠ .ready → ∀ cs : List (Command δ), (∀ c ∈ cs, c.moves = false) →
      (s.performAll cs).machine.condition = s.machine.condition ∧
        (s.performAll cs).machine.retired = s.machine.retired) ∧
    ∀ c : Command δ, c.moves = true →
      (s.perform c).session.machine.condition = .ready ∧
        (s.perform c).session.machine.clock = true := by
  intro fresh s
  refine ⟨fun ready => ⟨cleared_by_host flags entropy capacity history ready, ?_⟩, ?_, ?_, ?_⟩
  · rintro ⟨before, w, after, split, low, quiet, counted⟩
    let start := ((fresh.performAll before).perform (.writeMemory mcrAddress w)).session
    have last : s = start.performAll after := by
      change fresh.performAll history = _
      rw [split]
      exact List.foldl_append
    have retired : start.machine.retired = (fresh.performAll before).machine.retired :=
      congrArg Host.retired ((fresh.performAll before).machine.store_host mcrAddress w)
    have kept := start.performAll_regulated quiet
    rw [← last] at kept
    exact (kept.still ready (counted.trans retired.symm)).trans low
  · exact fun goesOn => step_clock (s.machine.step_regulated.ready goesOn) goesOn
  · exact fun stopped cs stays => s.performAll_stopped stays stopped
  · exact fun c moves => s.perform_moves moves

/- A host that clears the clock of a fresh machine. -/
def unclocked : Session Peripheral :=
  (Session.start {} (.constant 0) none).performAll [.writeMemory mcrAddress 0]

/- The machine of a host that cleared its clock is ready, and its next step completes an instruction
before it halts. -/
theorem unclocked_goesOn :
    unclocked.machine.condition = .ready ∧ unclocked.machine.clock = false ∧
      unclocked.machine.step.machine.retired = unclocked.machine.retired + 1 ∧
      unclocked.machine.step.machine.condition = .halted := by
  decide +kernel

end Session

end Lc3
