import Lc3.Device.Peripheral
import Lc3.Proofs.Attachments
import Lc3.Proofs.Loop
import Lc3.Proofs.Simulation

/-!
# Looking ahead for input

A run that watches for input looks at the next instruction before each step, and at a pointer that
the instruction would follow. These looks bring stored words of memory-mapped addresses up to date,
so they leave another machine behind. But each read of the program brings these words up to date
again: machines that differ in them only (`Alike`) take every step in the same way
(`simulation_alike`). So a watching run does what a run without the watch does, up to the place
where it stops for input (`run_toInput`).
-/

namespace Lc3

variable {δ : Type}

/-! ### Machines alike -/

/-- The stored word at the address is brought up to date by every read. -/
def Mirror (a : Word) : Prop := a = kbsr ∨ a = dsr ∨ a = psrAddress ∨ a = mcrAddress

/-- The machines differ in mirrors and in the record of the last run only. -/
structure Alike (m m' : Machine δ) : Prop where
  same : m' = { m with
    memory := m'.memory
    lastStop := m'.lastStop
    limitExceeded := m'.limitExceeded }
  memory : ∀ a, ¬Mirror a → m'.memory.get a = m.memory.get a

namespace Alike

variable {m m' m'' : Machine δ}

theorem refl (m : Machine δ) : Alike m m := ⟨rfl, fun _ _ => rfl⟩

theorem trans (h : Alike m m') (h' : Alike m' m'') : Alike m m'' where
  same := by
    rw [h'.same, h.same]
  memory a ha := (h'.memory a ha).trans (h.memory a ha)

theorem stored (h : Alike m m') {a w w' : Word} (hw : ¬Mirror a → w' = w) :
    Alike (m.stored a w) (m'.stored a w') where
  same := by
    rw [h.same]
    rfl
  memory b hb := by
    change (m'.memory.set a w').get b = (m.memory.set a w).get b
    rw [Bank.get_set, Bank.get_set]
    split
    · next e => exact hw (e ▸ hb)
    · exact h.memory b hb

theorem bus (h : Alike m m') : m'.bus = m.bus := by
  rw [h.same]

theorem breakpointHere (h : Alike m m') : m'.breakpointHere = m.breakpointHere := by
  rw [h.same]
  rfl

theorem retired (h : Alike m m') : m'.retired = m.retired := by
  rw [h.same]

/- A change that neither looks at memory nor changes it, nor the record of the last run. -/
theorem update (h : Alike m m') (g : Machine δ → Machine δ)
    (hg : ∀ m mem stop spent, g { m with memory := mem, lastStop := stop, limitExceeded := spent } =
      { g m with memory := mem, lastStop := stop, limitExceeded := spent })
    (hm : ∀ m, (g m).memory = m.memory := by intro m; rfl) : Alike (g m) (g m') where
  same := by
    rw [h.same, hg]
  memory a ha := by
    rw [hm, hm]
    exact h.memory a ha

theorem parked (h : Alike m m') :
    Alike { m with parked := some m.pc } { m' with parked := some m'.pc } :=
  h.update (fun m => { m with parked := some m.pc }) fun _ _ _ _ => rfl

theorem ended (h : Alike m m') (r r' : StopReason) :
    Alike { m with limitExceeded := r == .limitExceeded, lastStop := some r }
      { m' with limitExceeded := r' == .limitExceeded, lastStop := some r' } where
  same := by
    rw [h.same]
  memory := h.memory

theorem undone {after after' : Machine δ} (h : Alike m m') (ha : Alike after after')
    (f : Fault) : Alike { m.rollBack after with condition := .faulted f }
      { m'.rollBack after' with condition := .faulted f } := by
  have hsp : m'.supervisorSp = m.supervisorSp := by
    rw [h.same]
    rfl
  have hs := (ha.stored (h.memory (m.supervisorSp - 1))).stored (h.memory (m.supervisorSp - 2))
  have hu := hs.update (fun n => { n with
    registers := m.registers
    psr := m.psr
    savedSp := m.savedSp
    clock := m.clock
    pc := m.pc
    fetchPc := m.pc
    condition := .faulted f }) (fun _ _ _ _ => rfl)
  have hr : m'.registers = m.registers := by rw [h.same]
  have hpsr : m'.psr = m.psr := by rw [h.same]
  have hsaved : m'.savedSp = m.savedSp := by rw [h.same]
  have hclock : m'.clock = m.clock := by rw [h.same]
  have hpc : m'.pc = m.pc := by rw [h.same]
  unfold Machine.rollBack
  dsimp only
  rw [hsp, hr, hpsr, hsaved, hclock, hpc]
  exact hu

end Alike

theorem Keyboard.consume?_of_empty {k : Keyboard} (empty : k.queue = []) : k.consume? = none := by
  unfold consume?
  rw [empty]

variable [Device δ]

/-! ### A bus without further devices -/

namespace Bus

variable {b : Bus δ}

theorem read_attached (h : b.attached = []) (a : Word) (effects : Bool) :
    (b.read a effects).bus.attached = [] := by
  unfold read
  split
  · exact h
  · exact h
  · exact h
  · next owned => exact absurd owned (owner?_ne_attached h)

theorem write_attached (h : b.attached = []) (a w : Word) : (b.write a w).2.attached = [] := by
  unfold write
  split
  · exact h
  · exact h
  · exact h
  · next owned => exact absurd owned (owner?_ne_attached h)

theorem poll_attached (h : b.attached = []) : b.poll.2.attached = [] :=
  (b.attached_mapDevices _).trans (congrArg _ h)

theorem tick_attached (h : b.attached = []) : b.tick.attached = [] :=
  (b.attached_mapDevices _).trans (congrArg _ h)

/- The status registers always answer. -/
theorem read_mirror {a : Word} (h : Mirror a) (hp : a ≠ psrAddress) (hm : a ≠ mcrAddress)
    (effects : Bool) : (b.read a effects).word ≠ none := by
  unfold read
  rcases h with rfl | rfl | rfl | rfl
  · rw [owner?_eq_keyboard_iff.mpr (Or.inl rfl)]
    exact Option.some_ne_none _
  · rw [owner?_eq_display_iff.mpr (Or.inl rfl)]
    exact Option.some_ne_none _
  · exact absurd rfl hp
  · exact absurd rfl hm

/- Nothing else answers, but the keyboard for a byte that is ready. -/
theorem read_word_of_not_mirror (h : b.attached = []) {a : Word} (ha : ¬Mirror a)
    (idle : a = kbdr → b.keyboard.consume? = none) (effects : Bool) :
    (b.read a effects).word = none := by
  have hk : a ≠ kbsr := fun e => ha (Or.inl e)
  have hd : a ≠ dsr := fun e => ha (Or.inr (Or.inl e))
  unfold read
  split
  · rfl
  · dsimp only
    unfold Keyboard.read
    rw [if_neg hk]
    split
    · next here => rw [idle here]
    · rfl
  · exact if_neg hd
  · next owned => exact absurd owned (owner?_ne_attached h)

theorem read_inspect (h : b.attached = []) (a : Word) : (b.read a false).bus = b := by
  unfold read
  split
  · rfl
  · dsimp only
    rw [b.keyboard.read_inspection]
  · rfl
  · next owned => exact absurd owned (owner?_ne_attached h)

end Bus

/-! ### Alike machines take the same steps -/

namespace Machine

theorem load_attached {m : Machine δ} (h : m.bus.attached = []) (a : Word) (effects : Bool) :
    (m.load a effects).machine.bus.attached = [] := by
  rw [load_bus]
  split
  · exact Bus.read_attached h a effects
  · exact h

theorem store_attached {m : Machine δ} (h : m.bus.attached = []) (a w : Word) :
    (m.store a w).bus.attached = [] := by
  rw [store_bus]
  split
  · exact Bus.write_attached h a w
  · exact h

end Machine

/- At a mirror something always answers. -/
theorem Machine.refresh?_of_mirror (m : Machine δ) {a : Word} (h : Mirror a) (effects : Bool) :
    m.refresh? a effects ≠ none := by
  unfold refresh?
  split
  · exact Option.some_ne_none _
  · split
    · exact Option.some_ne_none _
    · next psr mcr =>
      have port : isPort a = true := by rcases h with rfl | rfl | rfl | rfl <;> decide
      rw [if_pos port]
      exact Bus.read_mirror h psr mcr effects

theorem Alike.load {m m' : Machine δ} (h : Alike m m') (a : Word) (effects : Bool) :
    (m'.load a effects).word = (m.load a effects).word ∧
      (m'.load a effects).events = (m.load a effects).events ∧
      Alike (m.load a effects).machine (m'.load a effects).machine := by
  have found : m'.refresh? a effects = m.refresh? a effects := by
    rw [h.same]
    rfl
  have answered := h.update (fun n => { n with
    bus := if ReachesBus a then (m.bus.read a effects).bus else m.bus }) fun _ _ _ _ => rfl
  rw [m.load_eq, m'.load_eq, found, h.bus]
  cases refresh : m.refresh? a effects with
  | some w => exact ⟨rfl, rfl, answered.stored fun _ => rfl⟩
  | none =>
    exact ⟨h.memory a fun mirror => m.refresh?_of_mirror mirror effects refresh, rfl, answered⟩

theorem Alike.store {m m' : Machine δ} (h : Alike m m') (a w : Word) :
    Alike (m.store a w) (m'.store a w) := by
  unfold Machine.store
  by_cases hp : a = psrAddress
  · have hb := h.update (fun m => { m with psr := ⟨w⟩ }) (fun _ _ _ _ => rfl)
    rw [if_pos hp, if_pos hp]
    exact hb.stored fun _ => rfl
  · by_cases hm : a = mcrAddress
    · have hb := h.update (fun m => { m with clock := w.msb }) (fun _ _ _ _ => rfl)
      rw [if_neg hp, if_neg hp, if_pos hm, if_pos hm]
      exact hb.stored fun _ => rfl
    · rw [if_neg hp, if_neg hp, if_neg hm, if_neg hm]
      by_cases hport : isPort a = true
      · have hb := h.update (fun m => { m with bus := (m'.bus.write a w).2 }) (fun _ _ _ _ => rfl)
        rw [if_pos hport, if_pos hport, ← h.bus]
        dsimp only
        split
        · exact hb.stored fun _ => rfl
        · exact hb
      · rw [if_neg hport, if_neg hport]
        exact h.stored fun _ => rfl

/- Alike machines without further devices. -/
def AlikeBare (m m' : Machine δ) : Prop := m.bus.attached = [] ∧ Alike m m'

theorem simulation_alike : Simulation (AlikeBare (δ := δ)) where
  core h := by
    rw [h.2.same]
    rfl
  flags h := by
    rw [h.2.same]
  clock h := by
    rw [h.2.same]
  condition h := by
    rw [h.2.same]
  marked h := ⟨h.1, h.2.update Machine.marked fun _ _ _ _ => rfl⟩
  withCore c h := ⟨h.1, h.2.update (·.withCore c) fun _ _ _ _ => rfl⟩
  word a h := (h.2.load a true).1
  events a h := (h.2.load a true).2.1
  load a h := ⟨Machine.load_attached h.1 a true, (h.2.load a true).2.2⟩
  store a w h := ⟨Machine.store_attached h.1 a w, h.2.store a w⟩
  offer h := by
    rw [h.2.bus]
  polled h := ⟨Bus.poll_attached h.1, h.2.update Machine.polled fun _ _ _ _ => rfl⟩
  completed halts h :=
    ⟨Bus.tick_attached h.1, h.2.update (·.completed halts) fun _ _ _ _ => rfl⟩
  undone {_ _ _ _ f} _ h ha := ⟨ha.1, h.2.undone ha.2 f⟩

/-! ### The look ahead -/

namespace Machine

variable {m : Machine δ}

theorem inspect_bus (bare : m.bus.attached = []) (a : Word) : (m.inspect a).2.bus = m.bus := by
  change (m.load a false).machine.bus = m.bus
  rw [load_bus]
  split
  · exact Bus.read_inspect bare a
  · rfl

theorem inspect_word (bare : m.bus.attached = []) {a : Word} (ha : ¬Mirror a)
    (idle : a = kbdr → m.bus.keyboard.consume? = none) : (m.inspect a).1 = m.memory.get a := by
  have silent : m.refresh? a false = none := by
    unfold refresh?
    rw [if_neg fun e => ha (Or.inr (Or.inr (Or.inl e))),
      if_neg fun e => ha (Or.inr (Or.inr (Or.inr e)))]
    split
    · exact Bus.read_word_of_not_mirror bare ha idle false
    · rfl
  change (m.load a false).word = _
  rw [load_eq, silent]
  rfl

theorem inspect_frame (bare : m.bus.attached = []) (a : Word) :
    (m.inspect a).2 = { m with memory := (m.inspect a).2.memory } := by
  have frame : (m.inspect a).2 = { m with
      memory := (m.inspect a).2.memory
      bus := (m.inspect a).2.bus } := m.load_frame a false
  rw [inspect_bus bare a] at frame
  exact frame

theorem inspect_memory (a b : Word) :
    (m.inspect a).2.memory.get b = if a = b then (m.inspect a).1 else m.memory.get b :=
  m.load_memory a b false

theorem inspect_alike (bare : m.bus.attached = []) (empty : m.bus.keyboard.queue = [])
    (a : Word) : Alike m (m.inspect a).2 where
  same := by
    rw [inspect_frame bare a]
  memory b hb := by
    rw [inspect_memory]
    split
    · next e =>
      rw [← e] at hb ⊢
      exact inspect_word bare hb fun _ => Keyboard.consume?_of_empty empty
    · rfl

theorem awaitsInput_alike (bare : m.bus.attached = []) : Alike m m.awaitsInput.2 := by
  unfold awaitsInput
  split
  · exact Alike.refl m
  · next h =>
    have empty : m.bus.keyboard.queue = [] := by
      cases hq : m.bus.keyboard.queue with
      | nil => rfl
      | cons b bs =>
        rw [hq] at h
        exact absurd rfl h
    have first := inspect_alike bare empty m.pc
    have hbus := inspect_bus bare m.pc
    dsimp only
    split
    · exact first
    · exact first
    · exact first.trans (inspect_alike (hbus ▸ bare) (hbus ▸ empty) _)
    · exact first

end Machine

theorem AlikeBare.lookedAhead {m m' : Machine δ} (h : AlikeBare m m') :
    AlikeBare m m'.awaitsInput.2 := by
  have bare : m'.bus.attached = [] := by
    rw [h.2.bus]
    exact h.1
  exact ⟨h.1, h.2.trans (Machine.awaitsInput_alike bare)⟩

/-! ### Loops -/

namespace Machine

theorem loop_alike_of_stopped (n : Nat) (spent : StopReason) {m m' : Machine δ}
    (h : AlikeBare m m') {r : StopReason} (hs : m.condition.stop? = some r)
    (events events' : Array Event) :
    (loop false spent n m events).reason = (loop true spent n m' events').reason ∧
      Alike (loop false spent n m events).machine (loop true spent n m' events').machine := by
  have hc := simulation_alike.condition h
  rw [loop_of_stopped hs, loop_of_stopped (hc ▸ hs)]
  exact ⟨rfl, h.2⟩

/- The plain run, on the left, has not looked ahead; the watching one, on the right, may have. Both
take the same steps, so the induction is on their common allowance. -/
theorem loop_alike (n : Nat) (spent : StopReason) {m m' : Machine δ} (h : AlikeBare m m')
    (events events' : Array Event)
    (reason : (loop true spent n m' events').reason ≠ .inputRequested) :
    (loop false spent n m events).reason = (loop true spent n m' events').reason ∧
      Alike (loop false spent n m events).machine (loop true spent n m' events').machine := by
  induction n generalizing m m' events events' with
  | zero =>
    have hc := simulation_alike.condition h
    cases hs : m.condition.stop? with
    | some r => exact loop_alike_of_stopped 0 spent h hs events events'
    | none =>
      have ready := Condition.ready_of_stop? hs
      rw [loop_zero ready, loop_zero (hc.trans ready)]
      exact ⟨rfl, h.2⟩
  | succ n ih =>
    have hc := simulation_alike.condition h
    have hb := h.2.breakpointHere
    cases hs : m.condition.stop? with
    | some r => exact loop_alike_of_stopped (n + 1) spent h hs events events'
    | none =>
      have ready := Condition.ready_of_stop? hs
      have ready' := hc.trans ready
      cases hbm : m.breakpointHere with
      | some b =>
        rw [loop_of_breakpoint ready _ _ _ _ hbm,
          loop_of_breakpoint ready' _ _ _ _ (hb.trans hbm)]
        exact ⟨rfl, h.2.parked⟩
      | none =>
        cases hw : m'.awaitsInput.1 with
        | true =>
          rw [loop_waits ready' _ _ _ (hb.trans hbm) hw] at reason
          exact absurd rfl reason
        | false =>
          obtain ⟨-, -, stepped⟩ := simulation_alike.step h.lookedAhead
          rw [loop_goes_on ready' _ _ _ (hb.trans hbm) hw] at reason ⊢
          rw [loop_step ready _ _ _ hbm]
          exact ih stepped _ _ reason

/- Where the watching run stops for input, the plain one is after as many instructions. -/
theorem loop_upTo_input (n : Nat) {m m' : Machine δ} (h : AlikeBare m m')
    (events events' : Array Event)
    (reason : (loop true .limitExceeded n m' events').reason = .inputRequested) :
    ∃ k, (loop true .limitExceeded n m' events').machine.retired = m'.retired + k ∧
      (loop false .paused k m events).reason = .paused ∧
      Alike (loop false .paused k m events).machine
        (loop true .limitExceeded n m' events').machine := by
  induction n generalizing m m' events events' with
  | zero =>
    rw [loop_zero (ready_of_loop_input reason)] at reason
    cases reason
  | succ n ih =>
    have ready' := ready_of_loop_input reason
    have ready := (simulation_alike.condition h).symm.trans ready'
    have looked := h.lookedAhead
    have hb := h.2.breakpointHere
    cases hbm : m'.breakpointHere with
    | some b =>
      rw [loop_of_breakpoint ready' _ _ _ _ hbm] at reason
      cases reason
    | none =>
      have hr : m'.awaitsInput.2.retired = m'.retired := by rw [looked.2.retired, h.2.retired]
      cases hw : m'.awaitsInput.1 with
      | true =>
        rw [loop_waits ready' _ _ _ hbm hw]
        refine ⟨0, hr, ?_, ?_⟩
        · rw [loop_zero ready]
        · rw [loop_zero ready]
          exact looked.2
      | false =>
        obtain ⟨-, -, stepped⟩ := simulation_alike.step looked
        rw [loop_goes_on ready' _ _ _ hbm hw] at reason ⊢
        obtain ⟨k, retired, paused, alike⟩ := ih stepped (events ++ m.step.events) _ reason
        refine ⟨k + 1, ?_, ?_, ?_⟩
        · obtain ⟨f, hf⟩ | hs := step_retired ((simulation_alike.condition looked).trans ready)
          · rw [ready_of_loop_input reason] at hf
            cases hf
          · omega
        · rw [loop_step ready _ _ _ (hb.symm.trans hbm)]
          exact paused
        · rw [loop_step ready _ _ _ (hb.symm.trans hbm)]
          exact alike

/-! ### Whole runs -/

/-- Watching for input does not change what a program does. Without further devices, a run that
watches and stops for another reason ends like the run that does not watch, and one that stops for
input ends like the run of as many instructions, which nothing stops earlier. The machines differ in
mirrors and in the record of the last run only. -/
theorem run_toInput (m : Machine δ) (bare : m.bus.attached = []) (limit : Option Nat)
    {η η' : Type} (handler : HitHandler δ η) (h : η) (handler' : HitHandler δ η') (h' : η') :
    let watched := m.run (.toInput limit) handler h
    let plain := m.run (.toHalt limit) handler' h'
    let counted := m.run (.steps watched.outcome.executed) handler' h'
    (watched.outcome.reason ≠ .inputRequested →
      plain.outcome = watched.outcome ∧ Alike plain.machine watched.machine) ∧
    (watched.outcome.reason = .inputRequested →
      counted.outcome = ⟨.paused, watched.outcome.executed⟩ ∧
        Alike counted.machine watched.machine) := by
  have start : AlikeBare { m with limitExceeded := false } { m with limitExceeded := false } :=
    ⟨bare, Alike.refl _⟩
  dsimp only
  rw [run_outcome, run_outcome, run_outcome, run_machine, run_machine, run_machine]
  constructor
  · intro reason
    obtain ⟨same, alike⟩ := loop_alike _ _ start #[] #[] reason
    have hr : (m.looped (.toHalt limit)).machine.retired = (m.looped (.toInput limit)).machine.retired :=
      alike.retired.symm
    have hs : (m.looped (.toHalt limit)).reason = (m.looped (.toInput limit)).reason := same
    rw [hr, hs]
    exact ⟨rfl, alike.ended _ _⟩
  · intro reason
    obtain ⟨k, retired, paused, alike⟩ := loop_upTo_input _ start #[] #[] reason
    have hk : (m.looped (.toInput limit)).machine.retired - m.retired = k := by
      have hr : (m.looped (.toInput limit)).machine.retired = m.retired + k := retired
      omega
    rw [hk]
    have hp : (m.looped (.steps k)).reason = .paused := paused
    have ha : Alike (m.looped (.steps k)).machine (m.looped (.toInput limit)).machine := alike
    rw [hp, ← ha.retired, hk]
    exact ⟨rfl, ha.ended _ _⟩

/- A program that adds once and then reads the keyboard through a pointer, with no key waiting. -/
def keyReader : Machine Peripheral where
  memory := (((Bank.fill 16 0).set 0x3000 0x1021).set 0x3001 0xA200).set 0x3002 kbdr
  registers := Bank.fill 3 0

theorem run_toInput_keyReader :
    let watched := keyReader.run (.toInput none) HitHandler.ignore ()
    let counted := keyReader.run (.steps 1) HitHandler.ignore ()
    watched.outcome = ⟨.inputRequested, 1⟩ ∧ counted.outcome = ⟨.paused, 1⟩ ∧
      Alike counted.machine watched.machine := by
  have outcome : (keyReader.run (.toInput none) HitHandler.ignore ()).outcome =
      ⟨.inputRequested, 1⟩ := by
    decide +kernel
  have counted := (run_toInput keyReader rfl none HitHandler.ignore () HitHandler.ignore ()).2
  rw [outcome] at counted
  exact ⟨outcome, counted rfl⟩

end Machine

end Lc3
