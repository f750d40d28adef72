import Lc3.Proofs.Composition

/-!
# Machines that behave alike

A relation between two machines is a simulation if related machines compute with the same registers
and stay related under each access, poll and end of a step (`Simulation`). Related machines then take
every step in the same way: the steps end alike, tell of the same events, and leave related machines
(`Simulation.step`).
-/

namespace Lc3

variable {δ α β : Type}

namespace Cycle

/-! ### Parts that end alike -/

/-- Both parts completed with the same value or had the same fault, and left related machines. -/
inductive Ends (R : Progress δ → Progress δ → Prop) :
    EStateM.Result Fault (Progress δ) α → EStateM.Result Fault (Progress δ) α → Prop where
  | ok {a : α} {q q' : Progress δ} (related : R q q') : Ends R (.ok a q) (.ok a q')
  | error {f : Fault} {q q' : Progress δ} (related : R q q') : Ends R (.error f q) (.error f q')

theorem Ends.cases {R : Progress δ → Progress δ → Prop}
    {r r' : EStateM.Result Fault (Progress δ) α} (h : Ends R r r') :
    (∃ a q q', r = .ok a q ∧ r' = .ok a q' ∧ R q q') ∨
      ∃ f q q', r = .error f q ∧ r' = .error f q' ∧ R q q' := by
  cases h with
  | ok related => exact Or.inl ⟨_, _, _, rfl, rfl, related⟩
  | error related => exact Or.inr ⟨_, _, _, rfl, rfl, related⟩

/-- The part ends alike on related machines. -/
def Agrees (R : Progress δ → Progress δ → Prop) (c : Cycle δ α) : Prop :=
  ∀ p p', R p p' → Ends R (c.run p) (c.run p')

variable {R : Progress δ → Progress δ → Prop}

theorem agrees_pure (a : α) : Agrees R (pure a) := fun _ _ h => .ok h

theorem agrees_throw (f : Fault) : Agrees R (throw f : Cycle δ α) := fun _ _ h => .error h

theorem agrees_look {g : Machine δ → α} (h : ∀ p p', R p p' → g p'.machine = g p.machine) :
    Agrees R (look g) := by
  intro p p' hp
  rw [run_look, run_look, h p p' hp]
  exact .ok hp

theorem agrees_update {g : Machine δ → Machine δ}
    (h : ∀ p p', R p p' →
      R { p with machine := g p.machine } { p' with machine := g p'.machine }) :
    Agrees R (update g) :=
  fun p p' hp => .ok (h p p' hp)

theorem agrees_guarded {c : Cycle δ α} {test : Progress δ → Bool} {value : Progress δ → α}
    {after : Progress δ → Progress δ} {fault : Fault} (hc : Guarded c test value after fault)
    (ht : ∀ p p', R p p' → test p' = test p)
    (hv : ∀ p p', R p p' → test p = true → value p' = value p)
    (ha : ∀ p p', R p p' → test p = true → R (after p) (after p')) : Agrees R c := by
  intro p p' h
  rw [hc p, hc p', ht p p' h]
  by_cases passed : test p = true
  · rw [if_pos passed, if_pos passed, hv p p' h passed]
    exact .ok (ha p p' h passed)
  · rw [if_neg passed, if_neg passed]
    exact .error h

theorem agrees_bind {c : Cycle δ α} {k : α → Cycle δ β} (hc : Agrees R c)
    (hk : ∀ a, Agrees R (k a)) : Agrees R (c >>= k) := by
  intro p p' hp
  have h := hc p p' hp
  rw [run_bind, run_bind]
  generalize c.run p = r at h ⊢
  generalize c.run p' = r' at h ⊢
  cases h with
  | ok related => exact hk _ _ _ related
  | error related => exact .error related

end Cycle

/- Related machines with the same log. -/
def Paired (R : Machine δ → Machine δ → Prop) (p p' : Progress δ) : Prop :=
  R p.machine p'.machine ∧ p'.events = p.events

theorem Paired.noted {R : Machine δ → Machine δ → Prop} {p p' : Progress δ} (h : Paired R p p')
    (e : Event) : Paired R (p.noted e) (p'.noted e) := by
  refine ⟨h.1, ?_⟩
  unfold Progress.noted
  rw [h.2]

theorem Paired.undone {R : Machine δ → Machine δ → Prop} {q q' : Progress δ} (h : Paired R q q')
    (m m' : Machine δ) (f : Fault) : (q'.undone m' f).events = (q.undone m f).events := by
  unfold Progress.undone
  rw [h.2]

variable [Device δ]

theorem Paired.concluded {R : Machine δ → Machine δ → Prop} {q q' : Progress δ} (h : Paired R q q')
    (clock : q'.machine.clock = q.machine.clock) (pc : Word) (halts : Bool) :
    (q'.concluded pc halts).result = (q.concluded pc halts).result ∧
      (q'.concluded pc halts).events = (q.concluded pc halts).events := by
  unfold Progress.concluded Progress.finished
  dsimp only
  rw [clock, h.2]
  exact ⟨rfl, rfl⟩

/-! ### Simulations -/

/-- Related machines stay related under all that a step does to a machine, and nothing that a step
looks at tells them apart. -/
structure Simulation (R : Machine δ → Machine δ → Prop) : Prop where
  core {m m' : Machine δ} : R m m' → m'.core = m.core
  flags {m m' : Machine δ} : R m m' → m'.flags = m.flags
  clock {m m' : Machine δ} : R m m' → m'.clock = m.clock
  condition {m m' : Machine δ} : R m m' → m'.condition = m.condition
  marked {m m' : Machine δ} : R m m' → R m.marked m'.marked
  withCore {m m' : Machine δ} (c : Core) : R m m' → R (m.withCore c) (m'.withCore c)
  word {m m' : Machine δ} (a : Word) : R m m' → (m'.load a true).word = (m.load a true).word
  events {m m' : Machine δ} (a : Word) : R m m' → (m'.load a true).events = (m.load a true).events
  load {m m' : Machine δ} (a : Word) : R m m' → R (m.load a true).machine (m'.load a true).machine
  store {m m' : Machine δ} (a w : Word) : R m m' → R (m.store a w) (m'.store a w)
  offer {m m' : Machine δ} : R m m' → m'.bus.poll.1 = m.bus.poll.1
  polled {m m' : Machine δ} : R m m' → R m.polled m'.polled
  completed {m m' : Machine δ} (halts : Bool) : R m m' → R (m.completed halts) (m'.completed halts)
  undone {m m' after after' : Machine δ} {f : Fault} : m.BreaksOff f after → R m m' →
    R after after' → R { m.rollBack after with condition := .faulted f }
      { m'.rollBack after' with condition := .faulted f }

namespace Simulation

variable {R : Machine δ → Machine δ → Prop} {m m' : Machine δ} {p p' : Progress δ}

theorem access (S : Simulation R) (h : R m m') : m'.access = m.access := by
  have hp : m'.psr = m.psr := congrArg Core.psr (S.core h)
  unfold Machine.access
  rw [hp, S.flags h]

theorem pc (S : Simulation R) (h : R m m') : m'.pc = m.pc := congrArg Core.pc (S.core h)

theorem upcoming (S : Simulation R) (h : R m m') : m'.upcoming = m.upcoming := by
  unfold Machine.upcoming
  rw [S.pc h, S.word _ h]

theorem loaded (S : Simulation R) (h : Paired R p p') (a : Word) :
    Paired R (p.loaded a) (p'.loaded a) := by
  refine ⟨S.load a h.1, ?_⟩
  unfold Progress.loaded
  rw [S.events a h.1, h.2]

theorem stored (S : Simulation R) (h : Paired R p p') (a w : Word) :
    Paired R (p.stored a w) (p'.stored a w) := by
  refine ⟨S.store a w h.1, ?_⟩
  unfold Progress.stored
  rw [h.2]

theorem move (S : Simulation R) (h : R m m') (k : Core → Core) :
    R (m.withCore (k m.core)) (m'.withCore (k m'.core)) := by
  rw [S.core h]
  exact S.withCore _ h

/-! ### Handlers -/

theorem poised (S : Simulation R) (h : R m m') (priority : Option (BitVec 3)) :
    R (m.poised priority) (m'.poised priority) := by
  have hc := S.core h
  have hpsr : m'.psr = m.psr := congrArg Core.psr hc
  have hp : R m.pushed m'.pushed := by
    unfold Machine.pushed
    rw [hc, hpsr, S.pc h]
    exact S.store _ _ (S.store _ _ (S.withCore _ h))
  exact S.move hp fun c => { c with psr := c.psr.entered priority }

theorem entered (S : Simulation R) (h : Paired R p p') (vector : Word)
    (priority : Option (BitVec 3)) :
    Paired R (p.entered vector priority) (p'.entered vector priority) := by
  have hc := S.core h.1
  have hpsr : p'.machine.psr = p.machine.psr := congrArg Core.psr hc
  have hp := S.poised h.1 priority
  constructor
  · change R (p.machine.entered vector priority) (p'.machine.entered vector priority)
    unfold Machine.entered
    dsimp only
    rw [S.word vector hp]
    exact S.move (S.load vector hp) fun c =>
      { c with pc := ((p.machine.poised priority).load vector true).word }
  · unfold Progress.entered
    dsimp only
    rw [hc, hpsr, S.pc h.1, h.2, S.events vector hp]

theorem returned (S : Simulation R) (h : Paired R p p') : Paired R p.returned p'.returned := by
  have hc := S.core h.1
  have hl := S.loaded (S.loaded h p.machine.core.sp) (p.machine.core.sp + 1)
  have hp : R p.machine.popped p'.machine.popped := by
    unfold Machine.popped
    dsimp only
    rw [hc, S.word _ h.1, S.word _ (S.load _ h.1)]
    exact S.move hl.1 fun c =>
      { c.setReg stackReg (p.machine.core.sp + 2) with
        pc := (p.machine.load p.machine.core.sp true).word
        psr := ⟨((p.machine.load p.machine.core.sp true).machine.load
          (p.machine.core.sp + 1) true).word⟩ }
  constructor
  · change R p.machine.returned p'.machine.returned
    have hpsr : p'.machine.popped.psr = p.machine.popped.psr := congrArg Core.psr (S.core hp)
    unfold Machine.returned
    rw [hpsr]
    split
    · exact hp
    · exact S.move hp Core.swap
  · unfold Progress.returned
    rw [hc]
    exact hl.2

/-! ### Instructions -/

open Lc3.Cycle in
theorem compositional (S : Simulation R) :
    Compositional fun (_ : Type) c => Agrees (Paired R) c where
  pure := agrees_pure
  throw := agrees_throw
  bind := agrees_bind
  look g := agrees_look fun _ _ h => congrArg (fun c => g c.front) (S.core h.1)
  move registers pc := agrees_update fun _ _ h =>
    ⟨S.move h.1 fun c => { c with registers := registers c.front, pc := pc c.front }, h.2⟩
  deliver r w := agrees_update fun _ _ h =>
    ⟨S.move h.1 fun c => { c.setReg r w with psr := c.psr.record w }, h.2⟩
  read pc a := agrees_guarded (run_loadPermitted pc a) (fun _ _ h => by rw [S.access h.1])
    (fun _ _ h _ => S.word a h.1) fun _ _ h _ => S.loaded h a
  write pc a w := agrees_guarded (run_storePermitted pc a w) (fun _ _ h => by rw [S.access h.1])
    (fun _ _ _ _ => rfl) fun _ _ h _ => S.stored h a w
  leave pc := agrees_guarded (run_leave pc) (fun _ _ h => by rw [S.access h.1])
    (fun _ _ _ _ => rfl) fun _ _ h _ => S.returned h

open Lc3.Cycle in
theorem execute (S : Simulation R) (pc : Word) (i : Instruction) :
    Agrees (Paired R) (execute pc i) :=
  S.compositional.execute pc i fun v hv => by
    rw [hv]
    intro p p' h
    rw [run_execute_trap, run_execute_trap, S.flags h.1]
    split
    · exact .ok h
    · exact .ok (S.entered h _ _)

/-! ### Steps -/

theorem accepted (S : Simulation R) (h : Paired R p p') : Paired R p.accepted p'.accepted := by
  have hpsr : p'.machine.psr = p.machine.psr := congrArg Core.psr (S.core h.1)
  have hu : p'.machine.urgent? = p.machine.urgent? := by
    unfold Machine.urgent?
    rw [S.offer h.1, hpsr]
  have hp : Paired R { p with machine := p.machine.polled }
      { p' with machine := p'.machine.polled } := ⟨S.polled h.1, h.2⟩
  unfold Progress.accepted
  rw [hu]
  split
  · exact hp
  · exact S.entered (hp.noted _) _ _

open Lc3.Cycle in
theorem perform (S : Simulation R) (pc : Word) : Agrees (Paired R) (perform pc) := by
  have fetch : Agrees (Paired R) (fetch pc) := agrees_bind (S.compositional.read pc pc) fun w => by
    dsimp only
    cases Instruction.decode w with
    | reserved w => exact agrees_throw _
    | _ => exact agrees_bind (fun _ _ h => .ok (h.noted _)) fun _ => agrees_pure _
  have mark : Agrees (Paired R) mark := agrees_update fun _ _ h => ⟨S.marked h.1, h.2⟩
  exact agrees_bind mark fun _ => agrees_bind fetch fun i =>
    agrees_bind (S.compositional.move (·.registers) fun c => c.pc + 1) fun _ => S.execute pc i

/-- Related machines take a step in the same way. -/
theorem step (S : Simulation R) (h : R m m') :
    m'.step.result = m.step.result ∧ m'.step.events = m.step.events ∧
      R m.step.machine m'.step.machine := by
  have hc := S.condition h
  by_cases ready : m.condition = .ready
  · have ready' := hc.trans ready
    have ha : Paired R (Progress.accepted ⟨m, #[]⟩) (Progress.accepted ⟨m', #[]⟩) :=
      S.accepted ⟨h, rfl⟩
    have hpc := S.pc ha.1
    rw [Progress.accepted_machine, Progress.accepted_machine] at hpc
    have ends := S.perform m.accepted.pc _ _ ha
    rw [m.step_of_ready ready, m'.step_of_ready ready', hpc]
    obtain ⟨halts, q, q', hp, hp', related⟩ | ⟨f, q, q', hp, hp', related⟩ := ends.cases
    · rw [hp, hp']
      obtain ⟨result, events⟩ := related.concluded (S.clock related.1) m.accepted.pc halts
      exact ⟨result, events, S.completed halts related.1⟩
    · rw [hp, hp']
      exact ⟨rfl, related.undone m m' f, S.undone ⟨q.events, hp⟩ h related.1⟩
  · obtain ⟨result, events, here, here'⟩ := Machine.step_of_stopped ready hc
    rw [here, here']
    exact ⟨result, events, h⟩

end Simulation

end Lc3
