import Lc3.Proofs.Simulation
import Lc3.Proofs.Trail

/-!
# Loops that behave alike

A simulation carries over from steps to loops if related machines also look alike to what a loop does
between its steps: it looks for a breakpoint and parks there, and it inspects memory for a wait for
input (`LoopSimulation`). Loops of related machines then stop for the same reason, tell of the same
events, and leave related machines (`LoopSimulation.loop_along`).
-/

namespace Lc3

variable {δ : Type}

/- Two loops, which were given events to go on from, end for the same reason in related machines, and
have told the same of their own. -/
structure StopAlike (R : Machine δ → Machine δ → Prop) (events events' told : Array Event)
    (e e' : LoopEnd δ) : Prop where
  reason : e'.reason = e.reason
  machine : R e.machine e'.machine
  log : e.events = events ++ told
  log' : e'.events = events' ++ told

/- Before the loops the same was told of a step. -/
theorem StopAlike.after {R : Machine δ → Machine δ → Prop}
    {events events' told stepped stepped' : Array Event} {e e' : LoopEnd δ}
    (h : StopAlike R (events ++ stepped) (events' ++ stepped') told e e')
    (same : stepped' = stepped) : StopAlike R events events' (stepped ++ told) e e' where
  reason := h.reason
  machine := h.machine
  log := h.log.trans Array.append_assoc
  log' := by rw [h.log', same, Array.append_assoc]

variable [Device δ]

/-- A simulation that inspections and breakpoints keep as well. -/
structure LoopSimulation (R : Machine δ → Machine δ → Prop) : Prop extends Simulation R where
  inspected {m m' : Machine δ} (a : Word) : R m m' →
    (m'.inspect a).1 = (m.inspect a).1 ∧ R (m.inspect a).2 (m'.inspect a).2
  queue {m m' : Machine δ} : R m m' → m'.bus.keyboard.queue = m.bus.keyboard.queue
  here {m m' : Machine δ} : R m m' → m'.breakpointHere = m.breakpointHere
  parked {m m' : Machine δ} : R m m' →
    R { m with parked := some m.pc } { m' with parked := some m'.pc }

namespace LoopSimulation

variable {R : Machine δ → Machine δ → Prop} {m m' : Machine δ}

theorem awaitsInput (S : LoopSimulation R) (h : R m m') :
    m'.awaitsInput.1 = m.awaitsInput.1 ∧ R m.awaitsInput.2 m'.awaitsInput.2 := by
  obtain ⟨word, looked⟩ := S.inspected m.pc h
  unfold Machine.awaitsInput
  rw [S.queue h]
  split
  · exact ⟨rfl, h⟩
  · rw [S.pc h]
    generalize m.inspect m.pc = first at word looked ⊢
    generalize m'.inspect m.pc = first' at word looked ⊢
    dsimp only
    rw [word]
    cases Instruction.decode first.1 with
    | ldr d b o =>
      have reg : first'.2.reg b = first.2.reg b :=
        congrArg (fun c : Core => c.registers.get b) (S.core looked)
      dsimp only
      rw [reg]
      exact ⟨rfl, looked⟩
    | ldi d o =>
      obtain ⟨pointer, followed⟩ := S.inspected (first.2.pc + 1 + signedField o) looked
      dsimp only
      rw [S.pc looked, pointer]
      exact ⟨rfl, followed⟩
    | ld d o =>
      dsimp only
      rw [S.pc looked]
      exact ⟨rfl, looked⟩
    | _ => exact ⟨rfl, looked⟩

/-- Related machines take the same turn, or none. -/
theorem turn (S : LoopSimulation R) (h : R m m') (watch : Bool) :
    m.turn? watch = none ∧ m'.turn? watch = none ∨
      ∃ x x', m.turn? watch = some x ∧ m'.turn? watch = some x' ∧ R x x' := by
  obtain ⟨waits, looked⟩ := S.awaitsInput h
  unfold Machine.turn?
  rw [S.condition h, S.here h, waits]
  split
  · cases watch with
    | false => exact Or.inr ⟨m, m', rfl, rfl, h⟩
    | true =>
      cases m.awaitsInput.1 with
      | true => exact Or.inl ⟨rfl, rfl⟩
      | false => exact Or.inr ⟨_, _, rfl, rfl, looked⟩
  · exact Or.inl ⟨rfl, rfl⟩

/- Where no turn is left, the loops stop in the same way, and tell of nothing but of a breakpoint. -/
theorem rests (S : LoopSimulation R) (h : R m m') {watch : Bool} {n : Nat}
    (rests : n = 0 ∨ m.turn? watch = none ∧ m'.turn? watch = none) (spent : StopReason)
    (events events' : Array Event) :
    ∃ told, (∀ e ∈ told, ∃ b, e = .stoppedAt b) ∧
      StopAlike R events events' told (Machine.loop watch spent n m events)
        (Machine.loop watch spent n m' events') := by
  have silent {e e' : LoopEnd δ} (reason : e'.reason = e.reason) (machine : R e.machine e'.machine)
      (log : e.events = events) (log' : e'.events = events') :
      ∃ told, (∀ e ∈ told, ∃ b, e = .stoppedAt b) ∧ StopAlike R events events' told e e' :=
    ⟨#[], fun e he => absurd he (Array.not_mem_empty e), reason, machine,
      log.trans Array.append_empty.symm, log'.trans Array.append_empty.symm⟩
  have condition := S.condition h
  cases stops : m.condition.stop? with
  | some r =>
    rw [Machine.loop_of_stopped stops, Machine.loop_of_stopped (condition ▸ stops)]
    exact silent rfl h rfl rfl
  | none =>
    have ready := Condition.ready_of_stop? stops
    have ready' := condition.trans ready
    cases n with
    | zero =>
      rw [Machine.loop_zero ready, Machine.loop_zero ready']
      exact silent rfl h rfl rfl
    | succ n =>
      obtain ⟨last, -⟩ := rests.resolve_left (Nat.succ_ne_zero n)
      obtain ⟨b, here, -⟩ | ⟨rfl, clear, waits, -⟩ := Machine.loop_of_no_turn ready last spent events
      · rw [Machine.loop_of_breakpoint ready _ _ _ _ here,
          Machine.loop_of_breakpoint ready' _ _ _ _ ((S.here h).trans here)]
        exact ⟨#[.stoppedAt b], fun e he => ⟨b, List.mem_singleton.mp (Array.mem_toList_iff.mpr he)⟩,
          rfl, S.parked h, rfl, rfl⟩
      · obtain ⟨same, looked⟩ := S.awaitsInput h
        rw [Machine.loop_waits ready _ _ _ clear waits,
          Machine.loop_waits ready' _ _ _ ((S.here h).trans clear) (same.trans waits)]
        exact silent rfl looked rfl rfl

/-- Loops of related machines stop alike. How the machines are related may depend on what was told
before, as long as every step keeps up with what it tells, and the end of a loop with the breakpoint. -/
theorem loop_along {R : Array Event → Machine δ → Machine δ → Prop}
    (S : ∀ told, LoopSimulation (R told))
    (step : ∀ {told : Array Event} {m m' : Machine δ}, R told m m' →
      R (told ++ m.step.events) m.step.machine m'.step.machine)
    (stop : ∀ {told last : Array Event} {m m' : Machine δ}, (∀ e ∈ last, ∃ b, e = .stoppedAt b) →
      R told m m' → R (told ++ last) m m')
    (before : Array Event) (h : R before m m') (watch : Bool) (spent : StopReason) (n : Nat)
    (events events' : Array Event) :
    ∃ told, StopAlike (R (before ++ told)) events events' told
      (Machine.loop watch spent n m events) (Machine.loop watch spent n m' events') := by
  have ends {before : Array Event} {n : Nat} {m m' : Machine δ} (h : R before m m')
      (rests : n = 0 ∨ m.turn? watch = none ∧ m'.turn? watch = none) (events events' : Array Event) :
      ∃ told, StopAlike (R (before ++ told)) events events' told
        (Machine.loop watch spent n m events) (Machine.loop watch spent n m' events') := by
    obtain ⟨last, stops, alike⟩ := (S before).rests h rests spent events events'
    exact ⟨last, alike.reason, stop stops alike.machine, alike.log, alike.log'⟩
  induction n generalizing before m m' events events' with
  | zero => exact ends h (Or.inl rfl) events events'
  | succ n ih =>
    obtain none | ⟨x, x', turn, turn', related⟩ := (S before).turn h watch
    · exact ends h (Or.inr none) events events'
    · obtain ⟨-, same, -⟩ := (S before).step related
      obtain ⟨told, alike⟩ :=
        ih _ (step related) (events ++ x.step.events) (events' ++ x'.step.events)
      rw [Array.append_assoc] at alike
      rw [Machine.loop_of_turn turn, Machine.loop_of_turn turn']
      exact ⟨x.step.events ++ told, alike.after same⟩

theorem loop (S : LoopSimulation R) (h : R m m') (watch : Bool) (spent : StopReason) (n : Nat)
    (events events' : Array Event) :
    ∃ told, StopAlike R events events' told (Machine.loop watch spent n m events)
      (Machine.loop watch spent n m' events') :=
  loop_along (R := fun _ => R) (fun _ => S) (fun related => (S.step related).2.2)
    (fun _ related => related) #[] h watch spent n events events'

end LoopSimulation

/-! ### Changes that go unseen -/

/-- A change of machines that no step, inspection or breakpoint depends on, and that all of these leave
as it is. -/
structure Unseen (f : Machine δ → Machine δ) : Prop where
  core (m : Machine δ) : (f m).core = m.core
  flags (m : Machine δ) : (f m).flags = m.flags
  clock (m : Machine δ) : (f m).clock = m.clock
  condition (m : Machine δ) : (f m).condition = m.condition
  queue (m : Machine δ) : (f m).bus.keyboard.queue = m.bus.keyboard.queue
  here (m : Machine δ) : (f m).breakpointHere = m.breakpointHere
  offer (m : Machine δ) : (f m).bus.poll.1 = m.bus.poll.1
  marked (m : Machine δ) : (f m).marked = f m.marked
  withCore (m : Machine δ) (c : Core) : (f m).withCore c = f (m.withCore c)
  load (m : Machine δ) (a : Word) (effects : Bool) : (f m).load a effects =
    ⟨(m.load a effects).word, f (m.load a effects).machine, (m.load a effects).events⟩
  store (m : Machine δ) (a w : Word) : (f m).store a w = f (m.store a w)
  polled (m : Machine δ) : (f m).polled = f m.polled
  completed (m : Machine δ) (halts : Bool) : (f m).completed halts = f (m.completed halts)
  undone (m after : Machine δ) (fault : Fault) :
    { (f m).rollBack (f after) with condition := .faulted fault } =
      f { m.rollBack after with condition := .faulted fault }
  parked (m : Machine δ) : { f m with parked := some (f m).pc } = f { m with parked := some m.pc }

namespace Unseen

variable {f : Machine δ → Machine δ}

theorem inspect (h : Unseen f) (m : Machine δ) (a : Word) :
    (f m).inspect a = ((m.inspect a).1, f (m.inspect a).2) := by
  unfold Machine.inspect
  rw [h.load]

theorem loopSimulation (h : Unseen f) : LoopSimulation fun m m' => m' = f m where
  core {m _} same := same ▸ h.core m
  flags {m _} same := same ▸ h.flags m
  clock {m _} same := same ▸ h.clock m
  condition {m _} same := same ▸ h.condition m
  queue {m _} same := same ▸ h.queue m
  here {m _} same := same ▸ h.here m
  offer {m _} same := same ▸ h.offer m
  marked {m _} same := same ▸ h.marked m
  withCore {m _} c same := same ▸ h.withCore m c
  word {m _} a same := by rw [same, h.load]
  events {m _} a same := by rw [same, h.load]
  load {m _} a same := by rw [same, h.load]
  store {m _} a w same := same ▸ h.store m a w
  polled {m _} same := same ▸ h.polled m
  completed {m _} halts same := same ▸ h.completed m halts
  undone {m _ after _ fault} _ same same' := by rw [same, same', h.undone m after fault]
  inspected {m _} a same := by
    rw [same, h.inspect]
    exact ⟨rfl, rfl⟩
  parked {m _} same := same ▸ h.parked m

end Unseen

end Lc3
