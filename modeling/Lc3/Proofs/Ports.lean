import Lc3.Device.Peripheral
import Lc3.Proofs.Parking
import Lc3.Proofs.Wiring

/-!
# Devices at their ports

What becomes of an attached device while the machine runs and the host uses it. The log of a step
accounts for every device: it is asked for an interrupt, called for the accesses at its ports in their
order, and told of a completed instruction (`Machine.step_attached`). No step and no command of a host
but an attachment or a removal changes the wiring (`Session.perform_wiring`). So a device stays at the
ports that it was attached to until it is removed, and every access there calls it
(`Session.ports_live`), but for the addresses of the control registers: these are granted to devices as
well, and never lead to them.
-/

namespace Lc3

variable {δ : Type}

/-! ### Accesses of one device -/

namespace Attachment

/- The device changed, if it has the port. -/
def called (a : Word) (f : δ → δ) (x : Attachment δ) : Attachment δ :=
  if a ∈ x.ports then x.changed f else x

variable [Device δ]

/-- A device after an event of a step. Only an access at one of its ports does something to it. -/
def after (x : Attachment δ) : Event → Attachment δ
  | .read a => if ReachesBus a then x.called a fun d => (Device.read d a true).2 else x
  | .wrote a w => if ReachesBus a then x.called a fun d => (Device.write d a w).2 else x
  | _ => x

/-- A device after the events of a log. -/
def replay (x : Attachment δ) (events : Array Event) : Attachment δ := events.foldl after x

/-- A device after a step. -/
def stepped (x : Attachment δ) (s : Step δ) : Attachment δ :=
  let called := (x.changed fun d => (Device.poll d).2).replay s.events
  if s.result.completes then called.changed Device.tick else called

end Attachment

namespace Bus

variable {b : Bus δ}

/- At most the owner of a port has it. -/
theorem map_called (b : Bus δ) (a : Word) (f : δ → δ) :
    b.attached.map (·.called a f) = match b.owner? a with
      | some (.attached slot d) => (b.setDevice slot (f d)).attached
      | _ => b.attached := by
  split
  · next slot d owned =>
    obtain ⟨led, found⟩ := owner?_eq_attached_iff.mp owned
    rw [attached_setDevice found]
    refine List.map_congr_left fun x hx => ?_
    have listed : a ∈ x.ports ↔ x.id = slot + 3 := by
      rw [mem_ports_iff hx, led, Option.some.injEq, eq_comm]
    simp only [Attachment.called, listed]
  · next unowned =>
    refine (List.map_congr_left fun x hx => if_neg fun listed => ?_).trans (List.map_id' _)
    obtain ⟨slot, d, -, rfl⟩ := mem_attached.mp hx
    exact unowned slot d (owner?_eq_attached_iff_mem.mpr ⟨_, hx, rfl, rfl, listed⟩)

theorem Plugged.reachesBus {slot : Nat} {ports : List Word} (h : b.Plugged slot ports) {a : Word}
    (listed : a ∈ ports) (free : ¬(a = psrAddress ∨ a = mcrAddress)) : ReachesBus a :=
  ⟨fun psr => free (Or.inl psr), fun mcr => free (Or.inr mcr),
    PortTable.isPort_of_id? ((h.entries a).mpr listed)⟩

variable [Device δ]

/- An access at a port calls the device that has it. -/
theorem read_attached_called (b : Bus δ) (a : Word) (effects : Bool) :
    (b.read a effects).bus.attached =
      b.attached.map (·.called a fun d => (Device.read d a effects).2) := by
  rw [map_called]
  unfold read
  cases b.owner? a with
  | none => rfl
  | some o => cases o <;> rfl

theorem write_attached_called (b : Bus δ) (a w : Word) :
    (b.write a w).2.attached = b.attached.map (·.called a fun d => (Device.write d a w).2) := by
  rw [map_called]
  unfold write
  cases b.owner? a with
  | none => rfl
  | some o => cases o <;> rfl

theorem after_wiredAlike (b : Bus δ) (e : Event) : WiredAlike b (b.after e) := by
  cases e with
  | read a =>
    unfold after
    dsimp only
    split
    · exact b.read_wiredAlike a true
    · exact .refl b
  | wrote a w =>
    unfold after
    dsimp only
    split
    · exact b.write_wiredAlike a w
    · exact .refl b
  | _ => exact .refl b

theorem after_attached (b : Bus δ) (e : Event) :
    (b.after e).attached = b.attached.map (·.after e) := by
  cases e with
  | read a =>
    unfold after Attachment.after
    dsimp only
    split
    · exact b.read_attached_called a true
    · exact (List.map_id' _).symm
  | wrote a w =>
    unfold after Attachment.after
    dsimp only
    split
    · exact b.write_attached_called a w
    · exact (List.map_id' _).symm
  | _ => exact (List.map_id' _).symm

theorem replay_wiredAlike (b : Bus δ) (events : Array Event) : WiredAlike b (b.replay events) := by
  unfold replay
  rw [← Array.foldl_toList]
  induction events.toList generalizing b with
  | nil => exact .refl b
  | cons e es ih => exact (b.after_wiredAlike e).trans (ih (b.after e))

/- What a log did to the devices, it did to each of them. -/
theorem replay_attached (b : Bus δ) (events : Array Event) :
    (b.replay events).attached = b.attached.map (·.replay events) := by
  unfold replay Attachment.replay
  simp only [← Array.foldl_toList]
  induction events.toList generalizing b with
  | nil => exact (List.map_id' _).symm
  | cons e es ih =>
    rw [List.foldl_cons, ih, b.after_attached, List.map_map]
    rfl

end Bus

variable [Device δ]

/-! ### Steps -/

theorem frame_accounts : Cycle.Frame fun p q : Progress δ => ∀ b, Accounts b p → Accounts b q where
  refl _ _ h := h
  trans h h' b hp := h' b (h b hp)
  mark _ _ h := h
  move _ _ _ _ h := h
  record _ _ _ h := h
  read _ a _ _ h := h.loaded a
  write _ a w _ _ h := h.stored a w
  leave p _ b h := by
    have popped := (h.loaded p.machine.core.sp).loaded (p.machine.core.sp + 1)
    unfold Accounts Progress.returned Machine.returned
    dsimp only
    split <;> exact popped

theorem execute_accounts (pc : Word) (i : Instruction) :
    Cycle.Keeps (fun p q : Progress δ => ∀ b, Accounts b p → Accounts b q) (Cycle.execute pc i) :=
  frame_accounts.compositional.execute pc i fun v hv => by
    rw [hv]
    exact frame_accounts.execute_trap pc v fun p vector b h => h.entered vector none

namespace Machine

/- The devices after a step. They were asked for interrupts, saw the accesses in the log, and were told
of a completed instruction. -/
theorem step_bus {m : Machine δ} (ready : m.condition = .ready) :
    m.step.machine.bus =
      if m.step.result.completes then (m.bus.poll.2.replay m.step.events).tick
      else m.bus.poll.2.replay m.step.events := by
  obtain ⟨halts, q, -, -, run, hs⟩ | ⟨f, q, run, hs⟩ := m.step_cases ready
  · have devices : q.machine.bus = m.bus.poll.2.replay q.events :=
      (execute_accounts _ _).of_ok run _ (Accounts.accepted m).fetched
    have completes : m.step.result.completes = true :=
      StepResult.completes_iff.mpr fun f => by
        rw [hs]
        exact q.concluded_completes _ _ f
    have told : m.bus.poll.2.replay m.step.events = m.bus.poll.2.replay q.events := by
      rw [hs]
      change m.bus.poll.2.replay (if _ then q.events.push (.halted _) else q.events) = _
      split
      · exact Bus.replay_push ..
      · rfl
    rw [if_pos completes, told, ← devices, hs]
    rfl
  · rw [← Progress.accepted_machine ⟨m, #[]⟩] at run
    have devices : q.machine.bus = m.bus.poll.2.replay q.events :=
      ((Remains.accepted m).perform run).devices
    have told : m.bus.poll.2.replay m.step.events = q.machine.bus := by
      rw [hs, devices]
      exact Bus.replay_push ..
    rw [told, hs]
    rfl

theorem step_wiredAlike (m : Machine δ) : Bus.WiredAlike m.bus m.step.machine.bus := by
  by_cases ready : m.condition = .ready
  · have replayed : Bus.WiredAlike m.bus (m.bus.poll.2.replay m.step.events) :=
      m.bus.poll_wiredAlike.trans (m.bus.poll.2.replay_wiredAlike m.step.events)
    rw [step_bus ready]
    split
    · exact replayed.trans (Bus.tick_wiredAlike _)
    · exact replayed
  · rw [step_of_not_ready ready]
    exact .refl _

/- What a step does to each device. -/
theorem step_attached {m : Machine δ} (ready : m.condition = .ready) :
    m.step.machine.bus.attached = m.bus.attached.map (·.stepped m.step) := by
  have polled : m.bus.poll.2.attached =
      m.bus.attached.map (·.changed fun d => (Device.poll d).2) := m.bus.attached_mapDevices _
  have replayed := m.bus.poll.2.replay_attached m.step.events
  rw [polled, List.map_map] at replayed
  rw [step_bus ready]
  unfold Attachment.stepped
  split
  · let b := m.bus.poll.2.replay m.step.events
    have ticked : b.tick.attached = b.attached.map (·.changed Device.tick) :=
      b.attached_mapDevices Device.tick
    rw [ticked, replayed, List.map_map]
    rfl
  · exact replayed

/-! ### Loads and stores -/

theorem load_wiredAlike (m : Machine δ) (a : Word) (effects : Bool) :
    Bus.WiredAlike m.bus (m.load a effects).machine.bus := by
  rw [load_bus]
  split
  · exact m.bus.read_wiredAlike a effects
  · exact .refl _

theorem store_wiredAlike (m : Machine δ) (a w : Word) : Bus.WiredAlike m.bus (m.store a w).bus := by
  rw [store_bus]
  split
  · exact m.bus.write_wiredAlike a w
  · exact .refl _

theorem run_wiredAlike {η : Type} (m : Machine δ) (p : Policy) (handler : HitHandler δ η) (h : η) :
    Bus.WiredAlike m.bus (m.run p handler h).machine.bus :=
  run_keeps (R := fun m m' => Bus.WiredAlike m.bus m'.bus) (fun m => .refl m.bus) .trans
    step_wiredAlike (fun m a => m.load_wiredAlike a false) (fun m _ => .refl m.bus)
    (fun m _ _ => .refl m.bus) m p handler h

/-- Each access at the address calls the device in the slot once and no other. A load gives the word
that it answers, or the stored word if it does not answer, and a store is kept if it takes the word. -/
def Serves (m : Machine δ) (slot : Nat) (d : δ) (a : Word) : Prop :=
  (∀ effects,
    (m.load a effects).word = (Device.read d a effects).1.getD (m.memory.get a) ∧
      m.bus.Replaced slot (Device.read d a effects).2 (m.load a effects).machine.bus) ∧
  ∀ w,
    (m.store a w).memory.get a = (if (Device.write d a w).1 then w else m.memory.get a) ∧
      m.bus.Replaced slot (Device.write d a w).2 (m.store a w).bus

/-- No access at the address calls a device. -/
def Bypasses (m : Machine δ) (a : Word) : Prop :=
  (∀ effects, (m.load a effects).machine.bus = m.bus) ∧ ∀ w, (m.store a w).bus = m.bus

theorem bypasses_control (m : Machine δ) {a : Word} (control : a = psrAddress ∨ a = mcrAddress) :
    m.Bypasses a := by
  have unreached : ¬ReachesBus a := fun reaches => control.elim reaches.1 reaches.2.1
  refine ⟨fun effects => ?_, fun w => ?_⟩
  · rw [load_bus, if_neg unreached]
  · rw [store_bus, if_neg unreached]

theorem serves_of_owned {m : Machine δ} {a : Word} {slot : Nat} {d : δ}
    (owned : m.bus.owner? a = some (.attached slot d)) (reaches : ReachesBus a) :
    m.Serves slot d a := by
  have calls := m.bus.calls_owner a
  rw [owned] at calls
  obtain ⟨-, read, write⟩ := calls
  refine ⟨fun effects => ?_, fun w => ?_⟩
  · obtain ⟨word, replaced, -⟩ := read effects
    have found : m.refresh? a effects = (Device.read d a effects).1 := by
      unfold refresh?
      rw [if_neg reaches.1, if_neg reaches.2.1, if_pos reaches.2.2, word]
    rw [load_eq, found, if_pos reaches]
    exact ⟨rfl, replaced⟩
  · obtain ⟨taken, replaced⟩ := write w
    refine ⟨?_, ?_⟩
    · unfold store
      rw [if_neg reaches.1, if_neg reaches.2.1, if_pos reaches.2.2]
      dsimp only
      rw [taken]
      split
      · exact Bank.get_set_self ..
      · rfl
    · rw [store_bus, if_pos reaches]
      exact replaced

end Machine

/-! ### Sessions -/

/- What the command asks of the wiring. -/
def Command.requests : Command δ → List (Bus.Request δ)
  | .attach device ports => [.attach device ports]
  | .attachMany device n => List.replicate n (.attach device [])
  | .detach id => [.detach id]
  | _ => []

namespace Bus

theorem attachMany_eq (b : Bus δ) (device : δ) (n : Nat) (ids : List Nat) :
    (b.attachMany device n ids).2 = b.serveAll (List.replicate n (.attach device [])) := by
  induction n generalizing b ids with
  | zero => rfl
  | succ n ih =>
    have next (ids : List Nat) := ih (b.attach device []).2 ids
    rw [List.replicate_succ]
    unfold attachMany
    split
    · next id b' attached =>
      rw [attached] at next
      rw [next, ← show b.serve (.attach device []) = b' from congrArg Prod.snd attached]
      rfl
    · next b' refused =>
      rw [refused] at next
      rw [next, ← show b.serve (.attach device []) = b' from congrArg Prod.snd refused]
      rfl

theorem ticks_wiredAlike (b : Bus δ) (n : Nat) : WiredAlike b (Nat.repeat tick n b) := by
  induction n with
  | zero => exact .refl b
  | succ n ih => exact ih.trans (tick_wiredAlike _)

end Bus

namespace Session

/- No other command than an attachment or a removal changes the wiring. -/
theorem perform_wiring (s : Session δ) (c : Command δ) :
    Bus.WiredAlike (s.machine.bus.serveAll c.requests) (s.perform c).session.machine.bus := by
  have same {b : Bus δ} (h : b = s.machine.bus) : Bus.WiredAlike s.machine.bus b := by
    rw [h]
    exact .refl _
  cases loads : c.loads with
  | true =>
    have quiet : c.requests = [] := by
      cases c with
      | load _ _ | loadText _ | loadObject _ => rfl
      | _ => cases loads
    rw [quiet]
    obtain ⟨-, i, loaded⟩ | ⟨-, refused⟩ := s.perform_loads loads
    · rw [loaded]
      exact same rfl
    · rw [refused]
      exact same rfl
  | false =>
    cases c with
    | load _ _ | loadText _ | loadObject _ => cases loads
    | readRegister _ | removeBreakpoint _ =>
      unfold perform
      dsimp only
      split <;> exact same rfl
    | writeRegister n w =>
      unfold perform Machine.writeRegister
      dsimp only
      cases Reg.ofNumber n <;> exact same rfl
    | attach device ports => exact .refl _
    | attachMany device n =>
      change Bus.WiredAlike _ (s.machine.bus.attachMany device n []).2
      rw [Bus.attachMany_eq]
      exact .refl _
    | detach id => exact .refl _
    | reset | resetDevices => exact s.machine.bus.reset_wiredAlike
    | poll => exact s.machine.bus.poll_wiredAlike
    | tick n => exact s.machine.bus.ticks_wiredAlike n
    | readPort a effects => exact s.machine.bus.read_wiredAlike a effects
    | writePort a w => exact s.machine.bus.write_wiredAlike a w
    | readMemory a => exact s.machine.load_wiredAlike a false
    | writeMemory a w => exact s.machine.store_wiredAlike a w
    | disassemble a n =>
      exact Machine.disassemble_keeps (R := fun m m' => Bus.WiredAlike m.bus m'.bus)
        (fun m => .refl m.bus) .trans (fun m a => m.load_wiredAlike a false) s.machine a n
    | step n =>
      exact Machine.steps_keeps (R := fun m m' => Bus.WiredAlike m.bus m'.bus)
        (fun m => .refl m.bus) .trans Machine.step_wiredAlike s.machine n
    | run p w =>
      exact s.run_keeps (R := fun m m' => Bus.WiredAlike m.bus m'.bus) p w
        (s.machine.run_wiredAlike p)
    | _ => exact ⟨rfl, rfl⟩

theorem performAll_wired {s : Session δ} (h : s.machine.bus.Wired) (cs : List (Command δ)) :
    (s.performAll cs).machine.bus.Wired := by
  induction cs generalizing s with
  | nil => exact h
  | cons c cs ih => exact ih ((s.perform_wiring c).wired (Bus.serveAll_wired h c.requests))

/- A device stays at its ports until the host removes it. -/
theorem performAll_plugged {s : Session δ} (wired : s.machine.bus.Wired) {slot : Nat}
    {ports : List Word} (plugged : s.machine.bus.Plugged slot ports) {cs : List (Command δ)}
    (kept : ∀ c ∈ cs, c ≠ .detach (slot + 3)) : (s.performAll cs).machine.bus.Plugged slot ports := by
  induction cs generalizing s with
  | nil => exact plugged
  | cons c cs ih =>
    obtain ⟨first, rest⟩ := List.forall_mem_cons.mp kept
    have wiring := s.perform_wiring c
    refine ih (wiring.wired (Bus.serveAll_wired wired c.requests)) ?_ rest
    refine wiring.plugged (wired.plugged_serveAll plugged fun r hr => ?_)
    cases c with
    | attach device ports =>
      rw [List.mem_singleton.mp hr]
      nofun
    | attachMany device n =>
      rw [List.eq_of_mem_replicate hr]
      nofun
    | detach id =>
      rw [List.mem_singleton.mp hr]
      rintro ⟨⟩
      exact first rfl
    | _ => cases hr

/-- A device that a host attached is live at its ports, until the host removes it. On every machine
with the wiring of the session, such as those that a step goes through, an access at one of the ports
that the device was granted calls it once and no other device, and gives or takes what it answers. The
addresses of the two control registers are the exception: they may be granted as well, but no access
there calls a device. And a step calls each device for the accesses at its ports that its log tells of,
in their order, and for nothing else but the question for an interrupt before them and the notice of
a completed instruction behind them. -/
theorem ports_live (flags : Flags) (entropy : Entropy) (capacity : Option Nat)
    (history : List (Command δ)) (device : δ) (ports : List Word) (later : List (Command δ)) :
    let before := (Session.start flags entropy capacity).performAll history
    let granted := before.perform (.attach device ports)
    let s := granted.session.performAll later
    ∀ id, granted.answer = .device (some id) → (∀ c ∈ later, c ≠ .detach id) →
      ∀ m : Machine δ, Bus.WiredAlike s.machine.bus m.bus →
        (∃ slot d, id = slot + 3 ∧ m.bus.slots[slot]? = some (some d) ∧
          (∃ x ∈ m.bus.attached, x.id = id ∧ x.device = d ∧ ∀ a, a ∈ x.ports ↔ a ∈ ports) ∧
          ∀ a ∈ ports, if a = psrAddress ∨ a = mcrAddress then m.Bypasses a
            else m.Serves slot d a) ∧
        (m.condition = .ready →
          m.step.machine.bus.attached = m.bus.attached.map (·.stepped m.step)) := by
  intro before granted s id accepted kept m alike
  have wired : before.machine.bus.Wired := performAll_wired Bus.wired_empty history
  have given : before.machine.bus.granted? (.attach device ports) = some id :=
    Answer.device.inj accepted
  obtain ⟨slot, rfl, plugged⟩ := wired.plugged_attach given
  have still : m.bus.Plugged slot ports := alike.plugged
    (performAll_plugged (s := granted.session) (wired.serve (.attach device ports)) plugged kept)
  obtain ⟨d, found⟩ := still.occupied
  have among := Bus.mem_attached.mpr ⟨slot, d, found, rfl⟩
  refine ⟨⟨slot, d, rfl, found, ⟨_, among, rfl, rfl, fun a => ?_⟩, fun a listed => ?_⟩,
    Machine.step_attached⟩
  · exact (Bus.mem_ports_iff among).trans (still.entries a)
  · have owned := Bus.owner?_eq_attached_iff.mpr ⟨(still.entries a).mpr listed, found⟩
    split
    · next control => exact m.bypasses_control control
    · next free => exact Machine.serves_of_owned owned (still.reachesBus listed free)

/- A register that is attached before it is used. -/
theorem ports_live_register :
    let before := (Session.start {} (.constant 0) none).performAll [.setPc 0x4000]
    let granted := before.perform (.attach (Peripheral.register 5) [0xFE10])
    let s := granted.session.performAll [.writeMemory 0xFE10 7, .run (.steps 3) .nobody]
    ∃ d, s.machine.bus.slots[0]? = some (some d) ∧ s.machine.Serves 0 d 0xFE10 := by
  have accepted : (((Session.start {} (.constant 0) none).performAll [.setPc 0x4000]).perform
      (.attach (Peripheral.register 5) [0xFE10])).answer = .device (some 3) :=
    congrArg Answer.device (by decide +kernel)
  have live := ports_live {} (.constant 0) none [.setPc 0x4000] (Peripheral.register 5) [0xFE10]
    [.writeMemory 0xFE10 7, .run (.steps 3) .nobody] 3 accepted (by simp)
  obtain ⟨⟨slot, d, id, found, -, serves⟩, -⟩ := live _ (.refl _)
  obtain rfl : slot = 0 := Nat.add_right_cancel id.symm
  have served := serves 0xFE10 List.mem_cons_self
  rw [if_neg (by decide)] at served
  exact ⟨d, found, served⟩

/- A device that answers every read with the address is granted the ports of the control registers,
and an inspection of either gives another word. -/
theorem control_ports_dead :
    let granted (a : Word) := (Session.start {} (.constant 0) none).perform (.attach Peripheral.echo [a])
    (∀ a, (Device.read Peripheral.echo a false).1 = some a) ∧
      (granted psrAddress).answer = .device (some 3) ∧
      ((granted psrAddress).session.machine.inspect psrAddress).1 ≠ psrAddress ∧
      (granted mcrAddress).answer = .device (some 3) ∧
      ((granted mcrAddress).session.machine.inspect mcrAddress).1 ≠ mcrAddress := by
  refine ⟨fun _ => rfl, ?_, by decide +kernel, ?_, by decide +kernel⟩
  · exact congrArg Answer.device (by decide +kernel)
  · exact congrArg Answer.device (by decide +kernel)

end Session

end Lc3
