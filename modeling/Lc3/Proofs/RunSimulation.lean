import Lc3.Proofs.LoopSimulation
import Lc3.Session

/-!
# Runs that go alike

A simulation that loops keep carries over to all that a host has a machine do: single steps
(`LoopSimulation.steps_along`), listings (`LoopSimulation.disassemble`), and, if it also holds between
machines that were noted the same end of a run, whole runs (`RunSimulation.run_along`).
-/

namespace Lc3

variable {δ : Type} [Device δ]

/-! ### Steps and listings -/

namespace LoopSimulation

/- How the machines are related may depend on what was told before, as for a loop. -/
theorem steps_along {R : Array Event → Machine δ → Machine δ → Prop}
    (S : ∀ told, LoopSimulation (R told))
    (step : ∀ {told : Array Event} {m m' : Machine δ}, R told m m' →
      R (told ++ m.step.events) m.step.machine m'.step.machine)
    (before : Array Event) {m m' : Machine δ} (h : R before m m') (n : Nat) :
    (m'.steps n).1 = (m.steps n).1 ∧ (m'.steps n).2.2 = (m.steps n).2.2 ∧
      R (before ++ (m.steps n).2.2) (m.steps n).2.1 (m'.steps n).2.1 := by
  induction n generalizing before m m' with
  | zero =>
    refine ⟨rfl, rfl, ?_⟩
    show R (before ++ #[]) m m'
    rw [Array.append_empty]
    exact h
  | succ n ih =>
    obtain ⟨result, events, -⟩ := (S before).step h
    obtain ⟨answers, told, ended⟩ := ih _ (step h)
    have core := (S _).core (step h)
    have pc : m'.step.machine.pc = m.step.machine.pc := congrArg Core.pc core
    have psr : m'.step.machine.psr = m.step.machine.psr := congrArg Core.psr core
    rw [Array.append_assoc] at ended
    unfold Machine.steps
    dsimp only
    rw [answers, told, result, events, pc, psr]
    exact ⟨rfl, rfl, ended⟩

theorem steps {R : Machine δ → Machine δ → Prop} (S : LoopSimulation R) {m m' : Machine δ}
    (h : R m m') (n : Nat) :
    (m'.steps n).1 = (m.steps n).1 ∧ (m'.steps n).2.2 = (m.steps n).2.2 ∧
      R (m.steps n).2.1 (m'.steps n).2.1 :=
  steps_along (R := fun _ => R) (fun _ => S) (fun related => (S.step related).2.2) #[] h n

theorem disassemble {R : Machine δ → Machine δ → Prop} (S : LoopSimulation R) {m m' : Machine δ}
    (h : R m m') (a : Word) (n : Nat) :
    (m'.disassemble a n).1 = (m.disassemble a n).1 ∧
      R (m.disassemble a n).2 (m'.disassemble a n).2 := by
  induction n generalizing m m' a with
  | zero => exact ⟨rfl, h⟩
  | succ n ih =>
    obtain ⟨word, looked⟩ := S.inspected a h
    obtain ⟨texts, ended⟩ := ih looked (a + 1)
    unfold Machine.disassemble
    dsimp only
    rw [word, texts]
    exact ⟨rfl, ended⟩

end LoopSimulation

/-! ### Runs -/

/-- A simulation that is kept by the notes of how a run ended, and under which a run counts alike. -/
structure RunSimulation (R : Machine δ → Machine δ → Prop) : Prop extends LoopSimulation R where
  retired {m m' : Machine δ} : R m m' → m'.retired = m.retired
  limited {m m' : Machine δ} (exceeded : Bool) : R m m' →
    R { m with limitExceeded := exceeded } { m' with limitExceeded := exceeded }
  ended {m m' : Machine δ} (reason : StopReason) : R m m' →
    R { m with lastStop := some reason } { m' with lastStop := some reason }

namespace RunSimulation

/-- Runs of related machines answer and tell the same, if the handler does not tell them apart. -/
theorem run_along {R : Array Event → Machine δ → Machine δ → Prop}
    (S : ∀ told, RunSimulation (R told))
    (step : ∀ {told : Array Event} {m m' : Machine δ}, R told m m' →
      R (told ++ m.step.events) m.step.machine m'.step.machine)
    (stop : ∀ {told last : Array Event} {m m' : Machine δ}, (∀ e ∈ last, ∃ b, e = .stoppedAt b) →
      R told m m' → R (told ++ last) m m')
    (before : Array Event) {m m' : Machine δ} (h : R before m m') (p : Policy) {η : Type}
    (handler : HitHandler δ η) (x : η)
    (blind : ∀ {told : Array Event} {m m' : Machine δ} (b : Breakpoint), R told m m' →
      handler m' b x = handler m b x) :
    (m'.run p handler x).outcome = (m.run p handler x).outcome ∧
      (m'.run p handler x).handler = (m.run p handler x).handler ∧
      (m'.run p handler x).events = (m.run p handler x).events ∧
      R (before ++ (m.looped p).events) (m.run p handler x).machine
        (m'.run p handler x).machine := by
  have allowance : p.allowance m'.flags = p.allowance m.flags := by rw [(S before).flags h]
  have counted := (S before).retired h
  have ends : (m'.looped p).reason = (m.looped p).reason ∧
      R (before ++ (m.looped p).events) (m.looped p).machine (m'.looped p).machine ∧
      (m'.looped p).events = (m.looped p).events := by
    obtain ⟨told, alike⟩ := LoopSimulation.loop_along (fun told => (S told).toLoopSimulation) step
      stop before ((S before).limited false h) p.watchesInput p.spent (p.allowance m.flags) #[] #[]
    have log : (m.looped p).events = told := alike.log.trans Array.empty_append
    have machine := alike.machine
    rw [← log] at machine
    unfold Machine.looped at machine ⊢
    rw [allowance]
    exact ⟨alike.reason, machine, alike.log'.trans alike.log.symm⟩
  obtain ⟨reason, ended, events⟩ := ends
  have retired := (S _).retired ended
  have notified : Machine.notified (m'.looped p) handler x =
      Machine.notified (m.looped p) handler x := by
    unfold Machine.notified
    rw [reason]
    cases (m.looped p).reason with
    | breakpoint b => exact blind b ended
    | _ => rfl
  refine ⟨?_, ?_, ?_, ?_⟩
  · rw [Machine.run_outcome, Machine.run_outcome, reason, retired, counted]
  · rw [Machine.run_handler, Machine.run_handler, notified]
  · rw [Machine.run_events, Machine.run_events, events, notified, retired, counted, reason]
  · rw [Machine.run_machine, Machine.run_machine, reason]
    have limited := (S _).limited ((m.looped p).reason == .limitExceeded) ended
    exact (S _).ended (m.looped p).reason limited

theorem run {R : Machine δ → Machine δ → Prop} (S : RunSimulation R) {m m' : Machine δ}
    (h : R m m') (p : Policy) {η : Type} (handler : HitHandler δ η) (x : η)
    (blind : ∀ {m m' : Machine δ} (b : Breakpoint), R m m' → handler m' b x = handler m b x) :
    (m'.run p handler x).outcome = (m.run p handler x).outcome ∧
      (m'.run p handler x).handler = (m.run p handler x).handler ∧
      (m'.run p handler x).events = (m.run p handler x).events ∧
      R (m.run p handler x).machine (m'.run p handler x).machine :=
  run_along (R := fun _ => R) (fun _ => S) (fun related => (S.step related).2.2)
    (fun _ related => related) #[] h p handler x blind

end RunSimulation

end Lc3
