import Lc3.Proofs.Loop

/-!
# The steps of a run

A turn of a loop takes a step unless something stops it (`turn?`). The trail of a loop lists the
machines that its turns step, each right before its step. The trail accounts for what a run counts and
for what it tells of: the executed instructions are the steps of the trail that did not fault
(`run_executed`), and the log is the logs of these steps, followed by how the run stopped (`run_log`).
-/

namespace Lc3

variable {δ : Type}

/-- Whether the step completed an instruction. -/
def StepResult.completes : StepResult → Bool
  | .faulted _ => false
  | _ => true

theorem StepResult.completes_iff {r : StepResult} : r.completes = true ↔ ∀ f, r ≠ .faulted f := by
  cases r with
  | retired => exact ⟨fun _ _ => StepResult.noConfusion, fun _ => rfl⟩
  | halted => exact ⟨fun _ _ => StepResult.noConfusion, fun _ => rfl⟩
  | faulted f => exact ⟨fun h => (nomatch h), fun h => absurd rfl (h f)⟩

namespace Machine

variable [Device δ]

/-! ### The look ahead -/

/- The look ahead is made of inspections. -/
theorem awaitsInput_keeps {R : Machine δ → Machine δ → Prop} (refl : ∀ m, R m m)
    (trans : ∀ {m m' m''}, R m m' → R m' m'' → R m m'') (inspect : ∀ m a, R m (m.inspect a).2)
    (m : Machine δ) : R m m.awaitsInput.2 := by
  unfold awaitsInput
  split
  · exact refl m
  · dsimp only
    split
    · exact inspect m m.pc
    · exact inspect m m.pc
    · exact trans (inspect m m.pc) (inspect _ _)
    · exact inspect m m.pc

/- Another machine at most in stored words and in the devices. -/
theorem awaitsInput_frame (m : Machine δ) :
    m.awaitsInput.2 = { m with memory := m.awaitsInput.2.memory, bus := m.awaitsInput.2.bus } := by
  refine awaitsInput_keeps (R := fun m m' => m' = { m with memory := m'.memory, bus := m'.bus })
    (fun _ => rfl) (fun h h' => ?_) (fun m a => m.load_frame a false) m
  rw [h', h]

/-! ### Turns that take a step -/

/-- The machine that the next turn of a loop steps, unless it stops the loop. A watching loop has
looked ahead. -/
def turn? (watch : Bool) (m : Machine δ) : Option (Machine δ) :=
  if m.condition = .ready ∧ m.breakpointHere = none then
    if watch then if m.awaitsInput.1 then none else some m.awaitsInput.2
    else some m
  else none

/-- The machines that a loop steps, each right before its step. -/
def trail (watch : Bool) : Nat → Machine δ → List (Machine δ)
  | 0, _ => []
  | n + 1, m =>
    match m.turn? watch with
    | none => []
    | some x => x :: trail watch n x.step.machine

section Turn

variable {watch : Bool} {m x : Machine δ}

theorem turn?_eq_some (h : m.turn? watch = some x) :
    m.condition = .ready ∧ m.breakpointHere = none ∧
      (watch = true ∧ m.awaitsInput.1 = false ∧ x = m.awaitsInput.2 ∨ watch = false ∧ x = m) := by
  unfold turn? at h
  split at h
  · next free =>
    refine ⟨free.1, free.2, ?_⟩
    cases watch with
    | false => exact Or.inr ⟨rfl, (Option.some.inj h).symm⟩
    | true =>
      rw [if_pos rfl] at h
      split at h
      · cases h
      · next goes => exact Or.inl ⟨rfl, Bool.eq_false_iff.mpr goes, (Option.some.inj h).symm⟩
  · cases h

theorem turn?_frame (h : m.turn? watch = some x) :
    x = { m with memory := x.memory, bus := x.bus } := by
  obtain ⟨-, -, ⟨-, -, rfl⟩ | ⟨-, rfl⟩⟩ := turn?_eq_some h
  · exact m.awaitsInput_frame
  · rfl

theorem turn?_host (h : m.turn? watch = some x) : x.host = m.host := by
  rw [turn?_frame h]
  rfl

theorem turn?_ready (h : m.turn? watch = some x) : x.condition = .ready :=
  (congrArg Host.condition (turn?_host h)).trans (turn?_eq_some h).1

theorem turn?_breakpointHere (h : m.turn? watch = some x) : x.breakpointHere = none := by
  rw [turn?_frame h]
  exact (turn?_eq_some h).2.1

theorem loop_of_turn (h : m.turn? watch = some x) (spent : StopReason) (n : Nat)
    (events : Array Event) :
    loop watch spent (n + 1) m events =
      loop watch spent n x.step.machine (events ++ x.step.events) := by
  obtain ⟨ready, clear, ⟨rfl, goes, rfl⟩ | ⟨rfl, rfl⟩⟩ := turn?_eq_some h
  · exact loop_goes_on ready _ _ _ clear goes
  · exact loop_step ready _ _ _ clear

/- Without a turn, a loop of a ready machine stops in the same way under every allowance. -/
theorem loop_of_no_turn (ready : m.condition = .ready) (h : m.turn? watch = none)
    (spent : StopReason) (events : Array Event) :
    (∃ b, m.breakpointHere = some b ∧ ∀ n, loop watch spent (n + 1) m events =
        ⟨.breakpoint b, { m with parked := some m.pc }, events.push (.stoppedAt b)⟩) ∨
      watch = true ∧ m.breakpointHere = none ∧ m.awaitsInput.1 = true ∧
        ∀ n, loop watch spent (n + 1) m events = ⟨.inputRequested, m.awaitsInput.2, events⟩ := by
  cases here : m.breakpointHere with
  | some b => exact Or.inl ⟨b, rfl, fun n => loop_of_breakpoint ready watch spent n events here⟩
  | none =>
    unfold turn? at h
    rw [if_pos ⟨ready, here⟩] at h
    cases watch with
    | false => cases h
    | true =>
      cases waits : m.awaitsInput.1 with
      | true => exact Or.inr ⟨rfl, rfl, rfl, fun n => loop_waits ready spent n events here waits⟩
      | false =>
        rw [waits] at h
        cases h

end Turn

/-! ### How loops end -/

/-- The turn at a machine ends a loop, for a reason and with a last machine. -/
inductive Rests (watch : Bool) (spent : StopReason) (m : Machine δ) :
    StopReason → Machine δ → Prop where
  | stopped {r : StopReason} (stopped : m.condition.stop? = some r) : Rests watch spent m r m
  | spent (ready : m.condition = .ready) : Rests watch spent m spent m
  | breakpoint {b : Breakpoint} (ready : m.condition = .ready) (here : m.breakpointHere = some b) :
      Rests watch spent m (.breakpoint b) { m with parked := some m.pc }
  | waits (ready : m.condition = .ready) (watches : watch = true) (waits : m.awaitsInput.1 = true) :
      Rests watch spent m .inputRequested m.awaitsInput.2

/- How a loop ends without a turn. It tells of nothing then but of a breakpoint. -/
theorem loop_rests {watch : Bool} {n : Nat} {m : Machine δ} (h : n = 0 ∨ m.turn? watch = none)
    (spent : StopReason) (events : Array Event) :
    Rests watch spent m (loop watch spent n m events).reason (loop watch spent n m events).machine ∧
      ∃ last, (loop watch spent n m events).events = events ++ last ∧
        ∀ e ∈ last, ∃ b, e = .stoppedAt b := by
  have silent : ∀ e ∈ (#[] : Array Event), ∃ b, e = .stoppedAt b := fun e he =>
    absurd he (Array.not_mem_empty e)
  cases hs : m.condition.stop? with
  | some r =>
    rw [loop_of_stopped hs]
    exact ⟨.stopped hs, #[], Array.append_empty.symm, silent⟩
  | none =>
    have ready := Condition.ready_of_stop? hs
    cases n with
    | zero =>
      rw [loop_zero ready]
      exact ⟨.spent ready, #[], Array.append_empty.symm, silent⟩
    | succ n =>
      obtain ⟨b, here, ends⟩ | ⟨watches, -, waits, ends⟩ :=
        loop_of_no_turn ready (h.resolve_left (Nat.succ_ne_zero n)) spent events
      · rw [ends]
        exact ⟨.breakpoint ready here, #[.stoppedAt b], rfl, fun e he =>
          ⟨b, List.mem_singleton.mp (Array.mem_toList_iff.mpr he)⟩⟩
      · rw [ends]
        exact ⟨.waits ready watches waits, #[], Array.append_empty.symm, silent⟩

/-- What holds of a loop that a turn ends, and of a loop if it holds after its first step, holds of
every loop. -/
theorem loop_induction {watch : Bool} {spent : StopReason}
    {motive : Machine δ → StopReason → Machine δ → Prop}
    (rests : ∀ {m r e}, Rests watch spent m r e → motive m r e)
    (turn : ∀ {m x r e}, m.turn? watch = some x → motive x.step.machine r e → motive m r e)
    (n : Nat) (m : Machine δ) (events : Array Event) :
    motive m (loop watch spent n m events).reason (loop watch spent n m events).machine := by
  induction n generalizing m events with
  | zero => exact rests (loop_rests (Or.inl rfl) spent events).1
  | succ n ih =>
    cases h : m.turn? watch with
    | none => exact rests (loop_rests (Or.inr h) spent events).1
    | some x =>
      rw [loop_of_turn h]
      exact turn h (ih _ _)

/-! ### What the trail accounts for -/

theorem trail_of_turn {watch : Bool} {m x : Machine δ} (h : m.turn? watch = some x) (n : Nat) :
    trail watch (n + 1) m = x :: trail watch n x.step.machine := by
  rw [trail, h]

theorem trail_of_no_turn {watch : Bool} {m : Machine δ} (h : m.turn? watch = none) (n : Nat) :
    trail watch n m = [] := by
  cases n with
  | zero => rfl
  | succ n => rw [trail, h]

/- A machine in the trail comes from one that has every property that holds at the start and that
turns keep. -/
theorem mem_trail {watch : Bool} {P : Machine δ → Prop}
    (turn : ∀ {m x}, P m → m.turn? watch = some x → P x.step.machine) {n : Nat} {m x : Machine δ}
    (start : P m) (h : x ∈ trail watch n m) : ∃ m', P m' ∧ m'.turn? watch = some x := by
  induction n generalizing m with
  | zero => cases h
  | succ n ih =>
    cases ht : m.turn? watch with
    | none =>
      rw [trail_of_no_turn ht] at h
      cases h
    | some y =>
      rw [trail_of_turn ht] at h
      obtain rfl | later := List.mem_cons.mp h
      · exact ⟨m, start, ht⟩
      · exact ih (turn start ht) later

theorem Rests.retired {watch : Bool} {spent : StopReason} {m e : Machine δ} {r : StopReason}
    (h : Rests watch spent m r e) : e.retired = m.retired := by
  cases h with
  | stopped => rfl
  | spent => rfl
  | breakpoint => rfl
  | waits => rw [m.awaitsInput_frame]

theorem loop_trail (watch : Bool) (spent : StopReason) (n : Nat) (m : Machine δ)
    (events : Array Event) :
    (loop watch spent n m events).machine.retired =
        m.retired + (trail watch n m).countP (·.step.result.completes) ∧
      ∃ last, (loop watch spent n m events).events =
        (trail watch n m).foldl (fun log x => log ++ x.step.events) events ++ last := by
  have ends {n : Nat} {m : Machine δ} (h : n = 0 ∨ m.turn? watch = none) (events : Array Event) :
      trail watch n m = [] ∧ (loop watch spent n m events).machine.retired = m.retired ∧
        ∃ last, (loop watch spent n m events).events = events ++ last := by
    obtain ⟨rests, last, log, -⟩ := loop_rests h spent events
    refine ⟨?_, rests.retired, last, log⟩
    obtain rfl | h := h
    · rfl
    · exact trail_of_no_turn h n
  induction n generalizing m events with
  | zero =>
    obtain ⟨empty, retired, log⟩ := ends (Or.inl rfl) events
    rw [empty]
    exact ⟨retired, log⟩
  | succ n ih =>
    cases h : m.turn? watch with
    | none =>
      obtain ⟨empty, retired, log⟩ := ends (Or.inr h) events
      rw [empty]
      exact ⟨retired, log⟩
    | some x =>
      obtain ⟨retired, log⟩ := ih x.step.machine (events ++ x.step.events)
      have hx : x.retired = m.retired := congrArg Host.retired (turn?_host h)
      rw [loop_of_turn h, trail_of_turn h]
      refine ⟨?_, log⟩
      rw [retired, List.countP_cons]
      obtain ⟨f, faulted, -, host⟩ | ⟨c, completed, -, host⟩ := step_host (turn?_ready h)
      · have hr : x.step.machine.retired = x.retired := congrArg Host.retired host
        have hc : x.step.result.completes = false := by rw [faulted]; rfl
        rw [hr, hx, hc]
        rfl
      · have hr : x.step.machine.retired = x.retired + 1 := congrArg Host.retired host
        have hc : x.step.result.completes = true := StepResult.completes_iff.mpr completed
        rw [hr, hx, hc, if_pos rfl]
        omega

/-! ### Runs -/

/-- The machines that a run steps, each right before its step. -/
def stepped (m : Machine δ) (p : Policy) : List (Machine δ) :=
  trail p.watchesInput (p.allowance m.flags) { m with limitExceeded := false }

/-- A run counts the steps that it took and that did not fault. -/
theorem run_executed {η : Type} (m : Machine δ) (p : Policy) (handler : HitHandler δ η) (h : η) :
    (m.run p handler h).outcome.executed = (m.stepped p).countP (·.step.result.completes) := by
  have counted := (loop_trail p.watchesInput p.spent (p.allowance m.flags)
    { m with limitExceeded := false } #[]).1
  change (m.looped p).machine.retired - m.retired = _
  change (m.looped p).machine.retired = m.retired + (m.stepped p).countP _ at counted
  omega

/-- A run tells of the steps that it took, and then of how it stopped. -/
theorem run_log {η : Type} (m : Machine δ) (p : Policy) (handler : HitHandler δ η) (h : η) :
    ∃ last, (m.run p handler h).events =
      (m.stepped p).foldl (fun log x => log ++ x.step.events) #[] ++ last := by
  obtain ⟨last, log⟩ := (loop_trail p.watchesInput p.spent (p.allowance m.flags)
    { m with limitExceeded := false } #[]).2
  have told : ∃ notices : List Event, ∃ stop : Event,
      (m.run p handler h).events = ((m.looped p).events ++ notices).push stop := ⟨_, _, rfl⟩
  obtain ⟨notices, stop, told⟩ := told
  refine ⟨(last ++ notices).push stop, ?_⟩
  change (m.looped p).events = (m.stepped p).foldl _ _ ++ last at log
  rw [told, log]
  apply Array.ext'
  simp

end Machine

end Lc3
