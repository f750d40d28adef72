import Lc3.Device.Peripheral
import Lc3.Proofs.Delivery
import Lc3.Proofs.RunSimulation
import Lc3.Proofs.Veil

/-!
# Inspections

A host that inspects a word brings its stored copy up to date. The program cannot tell: whatever is
done afterwards is answered and told as without the inspection, and ends in the same machine but for
stored words (`Session.inspection_unseen`). There is one exception. The inspection of the keyboard's
data register leaves the byte that is ready in its cell, and the program sees that byte if the host
takes it back from the keyboard before the program has read it.
-/

namespace Lc3

variable {δ : Type}

/-! ### Loading -/

/- Whether two memories agree on a cell after a write depends on that cell alone. -/
theorem Memory.get_write {mem mem' : Memory} {b : Word} (h : mem'.get b = mem.get b) (a : Word)
    (words : List Word) : (mem'.write a words).get b = (mem.write a words).get b := by
  induction words generalizing mem mem' a with
  | nil => exact h
  | cons w words ih =>
    refine ih ?_ (a + 1)
    rw [Bank.get_set, Bank.get_set, h]

theorem Memory.get_copyBlocks {mem mem' : Memory} {b : Word} (h : mem'.get b = mem.get b)
    (blocks : List Block) :
    (blocks.foldl (fun mem x => mem.copyBlock x.start x.words) mem').get b =
      (blocks.foldl (fun mem x => mem.copyBlock x.start x.words) mem).get b := by
  induction blocks generalizing mem mem' with
  | nil => exact h
  | cons x blocks ih => exact ih (get_write (get_write h x.start _) 0 _)

namespace Veiled

variable {hidden : Bool} {m m' : Machine δ}

theorem loadImage (h : Veiled hidden m m') (i : Image) :
    Veiled hidden (m.loadImage i) (m'.loadImage i) where
  same := by
    rw [h.same]
    rfl
  memory a ha := Memory.get_copyBlocks (h.memory a ha) i.blocks

theorem withBus (h : Veiled hidden m m') (b : Bus δ)
    (kept : hidden = true → m.bus.keyboard.ready = true → b.keyboard.ready = true) :
    Veiled hidden { m with bus := b } { m' with bus := b } :=
  h.update (fun m => { m with bus := b }) (fun _ _ => rfl) kept

end Veiled

/-! ### Steps and runs -/

section Runs

variable [Device δ]

theorem runSimulation_veiled (hidden : Bool) : RunSimulation (Veiled (δ := δ) hidden) where
  toLoopSimulation := loopSimulation_veiled hidden
  retired h := by rw [h.same]
  limited exceeded h :=
    h.update (fun m => { m with limitExceeded := exceeded }) (fun _ _ => rfl) fun _ => id
  ended reason h :=
    h.update (fun m => { m with lastStop := some reason }) (fun _ _ => rfl) fun _ => id

namespace Veiled

variable {hidden : Bool} {m m' : Machine δ}

theorem steps (h : Veiled hidden m m') (n : Nat) :
    (m'.steps n).1 = (m.steps n).1 ∧ (m'.steps n).2.2 = (m.steps n).2.2 ∧
      Veiled (hiddenAfter hidden (m.steps n).2.2) (m.steps n).2.1 (m'.steps n).2.1 := by
  have alike := LoopSimulation.steps_along (R := fun told => Veiled (hiddenAfter hidden told))
    (fun _ => loopSimulation_veiled _) stepped #[] h.untold n
  rw [Array.empty_append] at alike
  exact alike

/- The handler of the run must not look at stored words either. -/
theorem run (h : Veiled hidden m m') (p : Policy) {η : Type} (handler : HitHandler δ η) (x : η)
    (blind : ∀ m mem b x, handler { m with memory := mem } b x = handler m b x) :
    (m'.run p handler x).outcome = (m.run p handler x).outcome ∧
      (m'.run p handler x).handler = (m.run p handler x).handler ∧
      (m'.run p handler x).events = (m.run p handler x).events ∧
      Veiled (hiddenAfter hidden (m.looped p).events) (m.run p handler x).machine
        (m'.run p handler x).machine := by
  have same {told : Array Event} {m m' : Machine δ} (b : Breakpoint)
      (h : Veiled (hiddenAfter hidden told) m m') : handler m' b x = handler m b x := by
    rw [h.same]
    exact blind m _ b x
  have alike := RunSimulation.run_along (R := fun told => Veiled (hiddenAfter hidden told))
    (fun _ => runSimulation_veiled _) stepped stopped #[] h.untold p handler x same
  rw [Array.empty_append] at alike
  exact alike

end Veiled

end Runs

theorem Bus.ready_ticks [Device δ] (b : Bus δ) (h : b.keyboard.ready = true) (n : Nat) :
    (Nat.repeat Bus.tick n b).keyboard.ready = true := by
  induction n with
  | zero => exact h
  | succ n ih => exact Keyboard.ready_tick ih

namespace Keyboard

theorem ready_pushInput {k : Keyboard} (h : k.ready = true) (bytes : List Byte) :
    (k.pushInput bytes).ready = true := by
  obtain ⟨waiting, passed⟩ := ready_iff.mp h
  refine ready_iff.mpr ⟨List.append_ne_nil_of_left_ne_nil waiting _, ?_⟩
  unfold pushInput
  rw [if_neg (by rwa [List.isEmpty_iff])]
  exact passed

theorem ready_setDelay {k : Keyboard} (h : k.ready = true) (delay : Nat) :
    (k.setDelay delay).ready = true := by
  obtain ⟨waiting, passed⟩ := ready_iff.mp h
  refine ready_iff.mpr ⟨waiting, ?_⟩
  unfold setDelay
  rw [passed]
  exact Nat.zero_min delay

end Keyboard

/-! ### Commands -/

/-- Whether the command takes the byte away that is ready at the keyboard, by itself and not because the
program reads it. -/
def Command.withdraws (k : Keyboard) : Command δ → Bool
  | .setInput bytes => !(k.setInput bytes).ready
  | .clearInput => true
  | .resetDevices => true
  | .readPort a effects => a == kbdr && effects
  | _ => false

namespace Session

/- The sessions differ behind the veil only. -/
structure Veiled (hidden : Bool) (s s' : Session δ) : Prop where
  machine : Lc3.Veiled hidden s.machine s'.machine
  channel : s'.channel = s.channel

end Session

namespace Reply

/- Both replies answer and tell the same, and leave sessions that differ behind the veil only. -/
structure Veiled (hidden : Bool) (r r' : Reply δ) : Prop where
  answer : r'.answer = r.answer
  events : r'.events = r.events
  session : r.session.Veiled hidden r'.session

theorem Veiled.of_machine {hidden hidden' : Bool} {r r' : Reply δ} (h : r.Veiled hidden r')
    (machine : Lc3.Veiled hidden' r.session.machine r'.session.machine) : r.Veiled hidden' r' :=
  ⟨h.answer, h.events, machine, h.session.channel⟩

theorem Veiled.weaken {hidden hidden' : Bool} {r r' : Reply δ} (h : r.Veiled hidden' r')
    (le : hidden' = true → hidden = true) : r.Veiled hidden r' :=
  h.of_machine (h.session.machine.weaken le)

end Reply

variable [Device δ]

namespace Session

theorem run_veiled {hidden : Bool} {s s' : Session δ} (h : s.Veiled hidden s') (p : Policy)
    (w : Watcher) :
    (s.run p w).Veiled (hiddenAfter hidden (s.machine.looped p).events) (s'.run p w) := by
  obtain ⟨m, _⟩ := s
  obtain ⟨m', channel⟩ := s'
  obtain ⟨h, rfl⟩ := h
  cases w with
  | nobody =>
    obtain ⟨outcome, -, events, machine⟩ := h.run p HitHandler.ignore () fun _ _ _ _ => rfl
    exact ⟨congrArg (Answer.outcome · []) outcome, events, machine, rfl⟩
  | host =>
    obtain ⟨outcome, hits, events, machine⟩ := h.run p hostHandler [] fun _ _ _ _ => rfl
    exact ⟨congrArg₂ Answer.outcome outcome hits, events, machine, rfl⟩
  | channel =>
    obtain ⟨outcome, sent, events, machine⟩ := h.run p HitChannel.handler channel fun _ _ _ _ => rfl
    exact ⟨congrArg (Answer.outcome · []) outcome, events, machine, sent⟩

/- Only memory tells the machines apart, so all but what reads stored words is answered by the same
terms. -/
theorem perform_alike {hidden : Bool} {s s' : Session δ} (h : s.Veiled hidden s') {c : Command δ}
    (kept : hidden = true → c.withdraws s.machine.bus.keyboard = false) :
    (s.perform c).Veiled hidden (s'.perform c) := by
  obtain ⟨m, _⟩ := s
  obtain ⟨m', channel⟩ := s'
  obtain ⟨h, rfl⟩ := h
  change Lc3.Veiled hidden m m' at h
  have frame := h.same
  generalize m'.memory = memory at frame
  subst frame
  have same (answer : Answer) (events : Array Event) (channel : HitChannel) :
      Reply.Veiled hidden ⟨⟨m, channel⟩, answer, events⟩
        ⟨⟨{ m with memory := memory }, channel⟩, answer, events⟩ := ⟨rfl, rfl, h, rfl⟩
  have changed (g : Machine δ → Machine δ) (answer : Answer) (events : Array Event)
      (hg : ∀ m mem, g { m with memory := mem } = { g m with memory := mem })
      (hk : hidden = true → m.bus.keyboard.ready = true → (g m).bus.keyboard.ready = true)
      (hm : ∀ m, (g m).memory = m.memory) :
      Reply.Veiled hidden ⟨⟨g m, channel⟩, answer, events⟩
        ⟨⟨g { m with memory := memory }, channel⟩, answer, events⟩ :=
    ⟨rfl, rfl, h.update g hg hk hm, rfl⟩
  have loaded (i : Image) (events : Array Event) :
      Reply.Veiled hidden ((⟨m, channel⟩ : Session δ).loadImage i events)
        ((⟨{ m with memory := memory }, channel⟩ : Session δ).loadImage i events) :=
    ⟨rfl, rfl, h.loadImage i, rfl⟩
  have plugged (b : Bus δ) (answer : Answer) (events : Array Event)
      (hk : hidden = true → m.bus.keyboard.ready = true → b.keyboard.ready = true) :
      Reply.Veiled hidden ⟨⟨{ m with bus := b }, channel⟩, answer, events⟩
        ⟨⟨{ m with memory := memory, bus := b }, channel⟩, answer, events⟩ :=
    ⟨rfl, rfl, h.withBus b hk, rfl⟩
  cases c with
  | accesses | drain | disconnect | outputText | getBreakpoint _ | breakpointAt _ | listBreakpoints
  | describeDevices => exact same _ _ _
  | load _ _ | loadText _ | loadObject _ =>
    unfold perform
    dsimp only
    split
    · exact same _ _ _
    · exact loaded _ _
  | reset => exact ⟨rfl, rfl, ⟨rfl, fun _ _ => rfl⟩, rfl⟩
  | configure edit =>
    exact changed (fun m => { m with flags := edit m.flags }) _ _ (fun _ _ => rfl) (fun _ => id)
      fun _ => rfl
  | readRegister n =>
    unfold perform Machine.readRegister
    dsimp only
    cases Reg.ofNumber n with
    | error e => exact same _ _ _
    | ok r => exact same _ _ _
  | writeRegister n w =>
    unfold perform Machine.writeRegister
    dsimp only
    cases Reg.ofNumber n with
    | error e => exact same _ _ _
    | ok r => exact changed (·.setReg r w) _ _ (fun _ _ => rfl) (fun _ => id) fun _ => rfl
  | setPc a => exact changed (·.setPc a) _ _ (fun _ _ => rfl) (fun _ => id) fun _ => rfl
  | writePsr w =>
    exact changed (fun m => { m with psr := ⟨w⟩ }) _ _ (fun _ _ => rfl) (fun _ => id) fun _ => rfl
  | readMemory a =>
    obtain ⟨word, looked⟩ := h.inspected a
    exact ⟨congrArg (Answer.word ∘ some) word, rfl, looked, rfl⟩
  | writeMemory a w => exact ⟨rfl, rfl, h.store a w, rfl⟩
  | disassemble a n =>
    obtain ⟨texts, looked⟩ := (loopSimulation_veiled hidden).disassemble h a n
    exact ⟨congrArg Answer.texts texts, rfl, looked, rfl⟩
  | step n =>
    obtain ⟨answers, events, stepped⟩ := h.steps n
    exact ⟨congrArg Answer.steps answers, events, stepped.weaken of_hiddenAfter, rfl⟩
  | run p w =>
    have veiled : (⟨m, channel⟩ : Session δ).Veiled hidden ⟨{ m with memory := memory }, channel⟩ :=
      ⟨h, rfl⟩
    exact (run_veiled veiled p w).weaken of_hiddenAfter
  | setInput bytes =>
    refine plugged _ _ _ fun hides _ => ?_
    have stays : (!(m.bus.keyboard.setInput bytes).ready) = false := kept hides
    rwa [Bool.not_eq_false'] at stays
  | pushInput bytes => exact plugged _ _ _ fun _ ready => Keyboard.ready_pushInput ready bytes
  | clearInput | resetDevices => exact plugged _ _ _ fun hides => nomatch kept hides
  | setDelay n => exact plugged _ _ _ fun _ ready => Keyboard.ready_setDelay ready n
  | takeOutput | clearOutput | poll => exact plugged _ _ _ fun _ ready => ready
  | detach id =>
    refine plugged (m.bus.detach id).2 _ _ fun _ ready => ?_
    rw [(m.bus.detach_builtin id).1]
    exact ready
  | setBreakpoint a =>
    exact changed (fun n => { n with breakpoints := n.breakpoints.set a }) _ _ (fun _ _ => rfl)
      (fun _ => id) fun _ => rfl
  | removeBreakpoint id =>
    unfold perform
    dsimp only
    split
    · exact changed (fun n => { n with breakpoints := n.breakpoints.remove id }) _ _ (fun _ _ => rfl)
        (fun _ ready => ready) fun _ => rfl
    · exact same _ _ _
  | clearBreakpoints =>
    exact changed (fun n => { n with breakpoints := n.breakpoints.clear }) _ _ (fun _ _ => rfl)
      (fun _ => id) fun _ => rfl
  | attach device ports =>
    refine plugged (m.bus.attach device ports).2 _ _ fun _ ready => ?_
    rw [(m.bus.attach_builtin device ports).1]
    exact ready
  | attachMany device n =>
    refine plugged _ _ _ fun _ ready => ?_
    rw [(m.bus.attachMany_builtin device n []).1]
    exact ready
  | readPort a effects =>
    refine plugged _ _ _ fun hides ready => ?_
    rw [(m.bus.read_untaken (kept hides)).1]
    exact ready
  | writePort a w =>
    exact plugged _ _ _ fun _ ready =>
      (Keyboard.ready_of_supply (m.bus.supply_write a w)).trans ready
  | tick n => exact plugged _ _ _ fun _ ready => m.bus.ready_ticks ready n

/- A byte that the program consumes lifts the veil. Only steps and runs tell of such bytes, and a host
that reads the keyboard itself. -/
theorem perform_lifts {hidden : Bool} {s s' : Session δ} (h : s.Veiled hidden s') {c : Command δ}
    (kept : c.withdraws s.machine.bus.keyboard = false)
    (consumed : consumption (s.perform c).events ≠ []) :
    Lc3.Veiled false (s.perform c).session.machine (s'.perform c).session.machine := by
  cases c with
  | step n =>
    have told : consumption (s.machine.steps n).2.2 ≠ [] := consumed
    have stepped := (h.machine.steps n).2.2
    rw [hiddenAfter_of_consumption hidden told] at stepped
    exact stepped
  | run p w =>
    have told : consumption (s.machine.looped p).events ≠ [] := fun silent =>
      consumed ((s.consumption_run p w).trans silent)
    have ended := (run_veiled h p w).session.machine
    rw [hiddenAfter_of_consumption hidden told] at ended
    exact ended
  | readPort a effects =>
    have silent := (s.machine.bus.read_untaken kept).2
    exact absurd (congrArg (fun es : List Event => consumption es.toArray) silent) consumed
  | attachMany device n =>
    refine absurd (consumption_eq_nil fun e he => ?_) consumed
    obtain ⟨id, -, rfl⟩ := List.mem_map.mp (List.mem_toArray.mp he)
    rfl
  | load _ _ | loadText _ | loadObject _ | readRegister _ | removeBreakpoint _ | attach _ _ =>
    refine absurd ?_ consumed
    unfold perform
    dsimp only
    split <;> rfl
  | writeRegister n w =>
    refine absurd ?_ consumed
    unfold perform Machine.writeRegister
    dsimp only
    cases Reg.ofNumber n <;> rfl
  | _ => exact absurd rfl consumed

theorem perform_veiled {hidden : Bool} {s s' : Session δ} (h : s.Veiled hidden s') {c : Command δ}
    (kept : hidden = true → c.withdraws s.machine.bus.keyboard = false) :
    (s.perform c).Veiled (hiddenAfter hidden (s.perform c).events) (s'.perform c) := by
  have alike := perform_alike h kept
  by_cases silent : consumption (s.perform c).events = []
  · rw [hiddenAfter_of_silent hidden silent]
    exact alike
  · cases hidden with
    | false => exact alike
    | true =>
      rw [hiddenAfter_of_consumption true silent]
      exact alike.of_machine (perform_lifts h (kept rfl) silent)

/-! ### What follows an inspection -/

/-- What commands that are carried out one after another answer. -/
def answers (s : Session δ) : List (Command δ) → List Answer
  | [] => []
  | c :: cs => (s.perform c).answer :: (s.perform c).session.answers cs

/-- Whether one of the commands takes a byte away that is ready at the keyboard, before the program has
consumed one. -/
def withdraws (s : Session δ) : List (Command δ) → Bool
  | [] => false
  | c :: cs => s.machine.bus.keyboard.ready &&
      (c.withdraws s.machine.bus.keyboard ||
        (consumption (s.perform c).events).isEmpty && (s.perform c).session.withdraws cs)

/- What the host must leave alone for the next command to be carried out alike, and for those behind
it. -/
theorem Veiled.unwithdrawn {hidden : Bool} {s s' : Session δ} (h : s.Veiled hidden s') {c : Command δ}
    {cs : List (Command δ)} (kept : hidden = true → s.withdraws (c :: cs) = false) :
    ∃ hides, s.Veiled hides s' ∧ (hides = true → c.withdraws s.machine.bus.keyboard = false) ∧
      (hiddenAfter hides (s.perform c).events = true →
        (s.perform c).session.withdraws cs = false) := by
  cases hidden with
  | false => exact ⟨false, h, nofun, nofun⟩
  | true =>
    rcases Bool.and_eq_false_iff.mp (kept rfl) with idle | stays
    · exact ⟨false, ⟨h.machine.of_idle idle, h.channel⟩, nofun, nofun⟩
    · obtain ⟨now, later⟩ := Bool.or_eq_false_iff.mp stays
      refine ⟨true, h, fun _ => now, fun silent => ?_⟩
      rcases Bool.and_eq_false_iff.mp later with told | later
      · exact absurd (silent.symm.trans told) Bool.noConfusion
      · exact later

/- The induction is on the commands. Once no byte is ready or the program has consumed one, the veil is
lifted, and what the host does to the keyboard does not matter any more. -/
theorem performAll_veiled {hidden : Bool} {s s' : Session δ} (h : s.Veiled hidden s')
    {cs : List (Command δ)} (kept : hidden = true → s.withdraws cs = false) :
    s'.answers cs = s.answers cs ∧ s'.log cs = s.log cs ∧
      ∃ still, (s.performAll cs).Veiled still (s'.performAll cs) := by
  induction cs generalizing hidden s s' with
  | nil => exact ⟨rfl, rfl, hidden, h⟩
  | cons c cs ih =>
    obtain ⟨hides, veiled, now, later⟩ := h.unwithdrawn kept
    have reply := perform_veiled veiled now
    obtain ⟨answers, log, still⟩ := ih reply.session later
    refine ⟨congrArg₂ List.cons reply.answer answers, ?_, still⟩
    unfold Session.log
    rw [reply.events, log]

/-- An inspection is not seen. With the keyboard and the display only, all commands that follow it are
answered as without it, tell the same, and lead to the same machine but for stored words of
memory-mapped input and output. If the inspected word is the byte that is ready at the keyboard, the
host must not take the byte back before the program has read it. -/
theorem inspection_unseen (s : Session δ) (bare : s.machine.bus.attached = []) (a : Word)
    (cs : List (Command δ)) (kept : a = kbdr → s.withdraws cs = false) :
    let s' := (s.perform (.readMemory a)).session
    s'.answers cs = s.answers cs ∧ s'.log cs = s.log cs ∧
      (s'.performAll cs).channel = (s.performAll cs).channel ∧
      (s'.performAll cs).machine =
        { (s.performAll cs).machine with memory := (s'.performAll cs).machine.memory } ∧
      ∀ b, b < ioStart →
        (s'.performAll cs).machine.memory.get b = (s.performAll cs).machine.memory.get b := by
  intro s'
  have veiled : s.Veiled (a == kbdr) s' := ⟨inspect_veiled bare a, rfl⟩
  obtain ⟨answers, log, still, machine, channel⟩ :=
    performAll_veiled veiled fun here => kept (beq_iff_eq.mp here)
  refine ⟨answers, log, channel, machine.same, fun b low => machine.memory b ⟨?_, ?_⟩⟩
  · rintro (rfl | rfl | rfl | rfl) <;> exact absurd low (by decide)
  · rintro - rfl
    exact absurd low (by decide)

/- The program of the listener reads its first byte, however often the byte is inspected before. -/
theorem inspection_unseen_listener :
    let cs := [.setDelay 2, .pushInput [0x62], .readMemory kbdr, .step 2, .clearInput, .step 1,
      .readRegister 1]
    let s' := (listener.perform (.readMemory kbdr)).session
    listener.machine.bus.keyboard.ready = true ∧ s'.answers cs = listener.answers cs ∧
      s'.log cs = listener.log cs := by
  intro cs s'
  have kept : listener.withdraws cs = false := by decide +kernel
  obtain ⟨answers, log, -⟩ := inspection_unseen listener rfl kbdr cs fun _ => kept
  exact ⟨by decide +kernel, answers, log⟩

/- The host looks at the byte and takes it back. Then the program reads it all the same. -/
theorem inspection_seen :
    let cs := [.clearInput, .step 1]
    let s' := (listener.perform (.readMemory kbdr)).session
    listener.machine.bus.attached = [] ∧
      (listener.performAll cs).machine.bus.keyboard = (s'.performAll cs).machine.bus.keyboard ∧
      (listener.performAll cs).machine.reg 0 = 0 ∧ (s'.performAll cs).machine.reg 0 = 0x61 := by
  decide +kernel

end Session

end Lc3
