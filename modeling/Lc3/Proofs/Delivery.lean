import Lc3.Device.Peripheral
import Lc3.Proofs.Parking
import Lc3.Proofs.Supply

/-!
# Delivery of keyboard input

The bytes that a log tells of as consumed, and behind them those that are still queued, are the bytes
that were queued before, and behind them those that the host pushed (`Delivers`). Each step keeps this,
and so do the looks ahead of a run, so runs keep it (`Machine.looped_delivers`), and every command of a
host does that does not replace or empty the queue (`Session.perform_delivers`). So no byte is lost,
doubled or overtaken, whatever a host does between its pushes (`Session.input_delivered`).
-/

namespace Lc3

variable {δ : Type}

/- On the way from one machine to the other, these bytes are pushed and the events are told. -/
def Delivers (m m' : Machine δ) (pushed : List Byte) (events : Array Event) : Prop :=
  consumption events ++ m'.bus.keyboard.queue = m.bus.keyboard.queue ++ pushed

namespace Delivers

variable {m m' m'' : Machine δ}

theorem of_queue (queue : m'.bus.keyboard.queue = m.bus.keyboard.queue) {events : Array Event}
    (silent : consumption events = []) : Delivers m m' [] events := by
  unfold Delivers
  rw [queue, silent, List.nil_append, List.append_nil]

theorem of_keyboard (keyboard : m'.bus.keyboard = m.bus.keyboard) {events : Array Event}
    (silent : consumption events = []) : Delivers m m' [] events :=
  of_queue (congrArg Keyboard.queue keyboard) silent

theorem refl (m : Machine δ) : Delivers m m [] #[] := of_queue rfl rfl

theorem trans {pushed pushed' : List Byte} {events events' : Array Event}
    (h : Delivers m m' pushed events) (h' : Delivers m' m'' pushed' events') :
    Delivers m m'' (pushed ++ pushed') (events ++ events') := by
  unfold Delivers at h h' ⊢
  calc consumption (events ++ events') ++ m''.bus.keyboard.queue
      = consumption events ++ (consumption events' ++ m''.bus.keyboard.queue) := by
        rw [consumption_append, List.append_assoc]
    _ = (consumption events ++ m'.bus.keyboard.queue) ++ pushed' := by
        rw [h', List.append_assoc]
    _ = m.bus.keyboard.queue ++ (pushed ++ pushed') := by
        rw [h, List.append_assoc]

end Delivers

/-! ### Further devices -/

namespace Bus

/- To attach or remove a device changes neither the keyboard nor the display. -/
theorem attach_builtin (b : Bus δ) (device : δ) (ports : List Word) :
    (b.attach device ports).2.keyboard = b.keyboard ∧
      (b.attach device ports).2.display = b.display := by
  unfold attach
  split <;> exact ⟨rfl, rfl⟩

theorem attachMany_builtin (b : Bus δ) (device : δ) (n : Nat) (ids : List Nat) :
    (b.attachMany device n ids).2.keyboard = b.keyboard ∧
      (b.attachMany device n ids).2.display = b.display := by
  induction n generalizing b ids with
  | zero => exact ⟨rfl, rfl⟩
  | succ n ih =>
    obtain ⟨keyboard, display⟩ := b.attach_builtin device []
    have next (ids : List Nat) := ih (b.attach device []).2 ids
    rw [keyboard, display] at next
    unfold attachMany
    split
    · next id b' attached =>
      rw [attached] at next
      exact next (id :: ids)
    · next b' refused =>
      rw [refused] at next
      exact next ids

theorem detach_builtin (b : Bus δ) (id : Nat) :
    (b.detach id).2.keyboard = b.keyboard ∧ (b.detach id).2.display = b.display := by
  unfold detach
  split
  · split <;> exact ⟨rfl, rfl⟩
  · exact ⟨rfl, rfl⟩

end Bus

variable [Device δ]

namespace Machine

/-! ### Steps and looks -/

theorem step_delivers (m : Machine δ) : Delivers m m.step.machine [] m.step.events := by
  obtain ⟨queue, silent⟩ | ⟨b, consumes⟩ := m.step_supply
  · exact .of_queue queue silent
  · unfold Delivers
    rw [consumes.told, consumes.front, List.append_nil]
    rfl

theorem inspect_keyboard (m : Machine δ) (a : Word) :
    (m.inspect a).2.bus.keyboard = m.bus.keyboard := by
  change (m.load a false).machine.bus.keyboard = m.bus.keyboard
  rw [load_bus]
  split
  · exact m.bus.read_inspection a
  · rfl

theorem awaitsInput_keyboard (m : Machine δ) :
    m.awaitsInput.2.bus.keyboard = m.bus.keyboard :=
  awaitsInput_keeps (R := fun m m' => m'.bus.keyboard = m.bus.keyboard) (fun _ => rfl)
    (fun h h' => h'.trans h) inspect_keyboard m

theorem turn?_keyboard {watch : Bool} {m x : Machine δ} (h : m.turn? watch = some x) :
    x.bus.keyboard = m.bus.keyboard := by
  obtain ⟨-, -, ⟨-, -, rfl⟩ | ⟨-, rfl⟩⟩ := turn?_eq_some h
  · exact m.awaitsInput_keyboard
  · rfl

/-! ### Runs -/

theorem Rests.keyboard {watch : Bool} {spent : StopReason} {m e : Machine δ} {r : StopReason}
    (h : Rests watch spent m r e) : e.bus.keyboard = m.bus.keyboard := by
  cases h with
  | stopped => rfl
  | spent => rfl
  | breakpoint => rfl
  | waits => exact m.awaitsInput_keyboard

/- The induction follows the turns of the loop. What the loop is given as told is not its own. -/
theorem loop_delivers (watch : Bool) (spent : StopReason) (n : Nat) (m : Machine δ)
    (events : Array Event) :
    ∃ told, (loop watch spent n m events).events = events ++ told ∧
      Delivers m (loop watch spent n m events).machine [] told := by
  have ends {n : Nat} {m : Machine δ} (h : n = 0 ∨ m.turn? watch = none) (events : Array Event) :
      ∃ told, (loop watch spent n m events).events = events ++ told ∧
        Delivers m (loop watch spent n m events).machine [] told := by
    obtain ⟨rests, told, log, stops⟩ := loop_rests h spent events
    refine ⟨told, log, .of_keyboard rests.keyboard (consumption_eq_nil fun e he => ?_)⟩
    obtain ⟨b, rfl⟩ := stops e he
    rfl
  induction n generalizing m events with
  | zero => exact ends (Or.inl rfl) events
  | succ n ih =>
    cases turn : m.turn? watch with
    | none => exact ends (Or.inr turn) events
    | some x =>
      obtain ⟨told, log, later⟩ := ih x.step.machine (events ++ x.step.events)
      have looks : Delivers m x [] #[] := .of_keyboard (turn?_keyboard turn) rfl
      have whole := (looks.trans x.step_delivers).trans later
      rw [Array.empty_append] at whole
      rw [loop_of_turn turn, log]
      exact ⟨x.step.events ++ told, Array.append_assoc, whole⟩

theorem looped_delivers (m : Machine δ) (p : Policy) :
    Delivers m (m.looped p).machine [] (m.looped p).events := by
  obtain ⟨told, log, delivers⟩ := loop_delivers p.watchesInput p.spent (p.allowance m.flags)
    { m with limitExceeded := false } #[]
  change (m.looped p).events = #[] ++ told at log
  rw [log, Array.empty_append]
  exact delivers

/- What a run tells of consumed bytes is what its loop tells of them, if its handler tells of none. -/
theorem consumption_run {η : Type} (m : Machine δ) (p : Policy) (handler : HitHandler δ η) (h : η)
    (silent : ∀ m b h, (handler m b h).2.filterMap Event.byte? = []) :
    consumption (m.run p handler h).events = consumption (m.looped p).events := by
  have quiet : (notified (m.looped p) handler h).2.filterMap Event.byte? = [] := by
    unfold notified
    split
    · exact silent _ _ _
    · rfl
  rw [run_events, consumption_push _ rfl, consumption_appendList, quiet, List.append_nil]

/-! ### Other operations -/

theorem steps_delivers (m : Machine δ) (n : Nat) :
    Delivers m (m.steps n).2.1 [] (m.steps n).2.2 := by
  induction n generalizing m with
  | zero => exact .refl m
  | succ n ih => exact m.step_delivers.trans (ih _)

theorem disassemble_keyboard (m : Machine δ) (a : Word) (n : Nat) :
    (m.disassemble a n).2.bus.keyboard = m.bus.keyboard :=
  disassemble_keeps (R := fun m m' => m'.bus.keyboard = m.bus.keyboard) (fun _ => rfl)
    (fun h h' => h'.trans h) inspect_keyboard m a n

end Machine

namespace Bus

variable (b : Bus δ)

theorem queue_ticks (n : Nat) : (Nat.repeat tick n b).keyboard.queue = b.keyboard.queue := by
  induction n with
  | zero => rfl
  | succ n ih => exact (Keyboard.queue_tick _).trans ih

/- A host that reads at a port may consume a byte as well. -/
theorem read_delivers (a : Word) (effects : Bool) :
    (b.read a effects).events.filterMap Event.byte? ++ (b.read a effects).bus.keyboard.queue =
      b.keyboard.queue := by
  by_cases here : a = kbdr
  · subst here
    cases effects with
    | false =>
      obtain ⟨keyboard, silent⟩ := b.read_untaken (Bool.and_false (kbdr == kbdr))
      rw [keyboard, silent]
      rfl
    | true =>
      cases h : b.keyboard.consume? with
      | none =>
        rw [b.read_kbdr_of_none h]
        rfl
      | some x =>
        rw [b.read_kbdr_of_some h]
        exact (Keyboard.ready_of_consume? h).2.symm
  · obtain ⟨keyboard, silent⟩ := b.read_keyboard_of_ne here effects
    rw [keyboard, silent]
    rfl

end Bus

/-! ### Sessions -/

/- The bytes that the command appends to the queue. -/
def Command.pushed : Command δ → List Byte
  | .pushInput bytes => bytes
  | _ => []

/- Whether the command replaces or empties the queue. -/
def Command.discards : Command δ → Bool
  | .setInput _ => true
  | .clearInput => true
  | .reset => true
  | .resetDevices => true
  | _ => false

namespace Session

/-- What commands that are carried out one after another tell. -/
def log (s : Session δ) : List (Command δ) → Array Event
  | [] => #[]
  | c :: cs => (s.perform c).events ++ (s.perform c).session.log cs

theorem consumption_run (s : Session δ) (p : Policy) (w : Watcher) :
    consumption (s.run p w).events = consumption (s.machine.looped p).events := by
  cases w with
  | nobody => exact s.machine.consumption_run p HitHandler.ignore () fun _ _ _ => rfl
  | host => exact s.machine.consumption_run p hostHandler [] fun _ _ _ => rfl
  | channel =>
    refine s.machine.consumption_run p HitChannel.handler s.channel fun m b c => ?_
    unfold HitChannel.handler
    split <;> rfl

theorem run_delivers (s : Session δ) (p : Policy) (w : Watcher) :
    Delivers s.machine (s.run p w).session.machine [] (s.run p w).events := by
  have delivers := s.machine.looped_delivers p
  unfold Delivers at delivers ⊢
  rw [s.consumption_run]
  cases w with
  | nobody => exact delivers
  | host => exact delivers
  | channel => exact delivers

theorem perform_delivers (s : Session δ) {c : Command δ} (kept : c.discards = false) :
    Delivers s.machine (s.perform c).session.machine c.pushed (s.perform c).events := by
  cases c with
  | setInput _ | clearInput | reset | resetDevices => cases kept
  | pushInput bytes => exact List.nil_append _
  | load _ _ | loadText _ | loadObject _ | readRegister _ | removeBreakpoint _ =>
    unfold perform Command.pushed
    dsimp only
    split <;> exact .of_queue rfl rfl
  | writeRegister n _ =>
    unfold perform Command.pushed Machine.writeRegister
    dsimp only
    cases Reg.ofNumber n <;> exact .of_queue rfl rfl
  | attach device ports =>
    refine .of_keyboard (s.machine.bus.attach_builtin device ports).1 ?_
    unfold perform
    dsimp only
    split <;> rfl
  | detach id => exact .of_keyboard (s.machine.bus.detach_builtin id).1 rfl
  | attachMany device n =>
    refine .of_keyboard (s.machine.bus.attachMany_builtin device n []).1
      (consumption_eq_nil fun e he => ?_)
    obtain ⟨id, -, rfl⟩ := List.mem_map.mp (List.mem_toArray.mp he)
    rfl
  | readMemory a => exact .of_keyboard (s.machine.inspect_keyboard a) rfl
  | writeMemory a w => exact .of_queue (Keyboard.queue_of_supply (s.machine.store_supply a w)) rfl
  | disassemble a n => exact .of_keyboard (s.machine.disassemble_keyboard a n) rfl
  | step n => exact s.machine.steps_delivers n
  | run p w => exact s.run_delivers p w
  | readPort a effects =>
    unfold Delivers
    exact (s.machine.bus.read_delivers a effects).trans (List.append_nil _).symm
  | writePort a w => exact .of_queue (Keyboard.queue_of_supply (s.machine.bus.supply_write a w)) rfl
  | tick n => exact .of_queue (s.machine.bus.queue_ticks n) rfl
  | _ => exact .of_queue rfl rfl

theorem performAll_delivers (s : Session δ) {cs : List (Command δ)}
    (kept : ∀ c ∈ cs, c.discards = false) :
    Delivers s.machine (s.performAll cs).machine (cs.flatMap Command.pushed) (s.log cs) := by
  induction cs generalizing s with
  | nil => exact .refl _
  | cons c cs ih =>
    have first := s.perform_delivers (kept c List.mem_cons_self)
    exact first.trans (ih _ fun c' hc' => kept c' (List.mem_cons_of_mem c hc'))

/-- Keyboard input is delivered once and in order. Whatever a host does that does not replace or empty
the queue, the bytes consumed since then, followed by those still queued, are those that were queued,
followed by those pushed since then. And a step either leaves the queue alone or completes and takes
the byte in front, which was ready, into the cell of the data register. -/
theorem input_delivered (s : Session δ) (cs : List (Command δ))
    (kept : ∀ c ∈ cs, c.discards = false) :
    consumption (s.log cs) ++ (s.performAll cs).machine.bus.keyboard.queue =
        s.machine.bus.keyboard.queue ++ cs.flatMap Command.pushed ∧
      ∀ m : Machine δ,
        m.step.machine.bus.keyboard.queue = m.bus.keyboard.queue ∧ consumption m.step.events = [] ∨
          ∃ b, m.Consumes b :=
  ⟨s.performAll_delivers kept, fun m => m.step_supply⟩

/- A program that reads the keyboard three times. -/
def listener : Session Peripheral where
  machine := {
    memory := ((((Bank.fill 16 0).set 0x3000 0xA003).set 0x3001 0xA202).set 0x3002 0xA401).set
      0x3004 kbdr
    registers := Bank.fill 3 0
    bus := { keyboard := { queue := [0x61] } } }

theorem input_delivered_listener :
    let cs := [.step 1, .readMemory kbdr, .pushInput [0x62, 0x63], .writeMemory kbdr 7,
      .run (.steps 1) .nobody, .pushInput [0x64]]
    consumption (listener.log cs) = [0x61, 0x62] ∧
      [0x61, 0x62] ++ (listener.performAll cs).machine.bus.keyboard.queue =
        [0x61] ++ [0x62, 0x63, 0x64] := by
  intro cs
  have consumed : consumption (listener.log cs) = [0x61, 0x62] := by decide +kernel
  obtain ⟨delivered, -⟩ := input_delivered listener cs (by decide)
  rw [consumed] at delivered
  exact ⟨consumed, delivered⟩

end Session

end Lc3
