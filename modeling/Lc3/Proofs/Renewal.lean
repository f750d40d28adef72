import Lc3.Device.Peripheral
import Lc3.Proofs.Breakpoints
import Lc3.Proofs.Inspection
import Lc3.Proofs.Ports
import Lc3.Proofs.RunSimulation

/-!
# Resets

Two things that a machine carries along tell the program nothing: the slots of removed devices behind
the others, and how often a generator of its host was made once the initial words are drawn
(`Machine.aged`). When all devices are removed, the port table leads to the keyboard and to the display
only, and a reset bus is a new one with empty slots (`Bus.Wired.reset_eq`). So a reset machine without
further devices is a fresh one but for its age and for what a reset keeps: flags, breakpoints and the
delay of the keyboard. Whatever is done next is answered and told as on a fresh machine that was given
the same (`Session.reset_renews`).
-/

namespace Lc3

variable {δ : Type}

/-! ### Generators -/

namespace Entropy

/-- The words that a generator with a seed draws depend on the seed only, and not on when it is made. -/
def Deterministic (e : Entropy) : Prop := ∀ use use' seed, e.seeded use seed = e.seeded use' seed

/- The host when some number of generators was made. -/
def after (e : Entropy) (uses : Nat) : Entropy := { e with uses := uses }

end Entropy

/- Initial words that are drawn without a seed differ from use to use. All others do not. -/
theorem Machine.start_after {flags : Flags} (known : flags.startup ≠ .unseeded) {entropy : Entropy}
    (deterministic : entropy.Deterministic) (uses uses' : Nat) :
    (Machine.start flags (entropy.after uses') : Machine δ) =
      { (Machine.start flags (entropy.after uses) : Machine δ) with entropy := entropy.after uses' } := by
  have word : flags.startup.word (entropy.after uses') = flags.startup.word (entropy.after uses) := by
    cases drawn : flags.startup with
    | unseeded => exact absurd drawn known
    | seeded seed => exact deterministic uses' uses seed
    | known _ => rfl
  unfold Machine.start Startup.memory Startup.registers
  rw [word]

/-! ### Empty slots -/

/-- The bus with some more slots of removed devices behind the others. -/
def Bus.padded (b : Bus δ) (n : Nat) : Bus δ := { b with slots := b.slots ++ Array.replicate n none }

namespace Machine

/-- The machine with more slots of removed devices, and another number of generators that were made. -/
def aged (m : Machine δ) (n uses : Nat) : Machine δ :=
  { m with bus := m.bus.padded n, entropy := m.entropy.after uses }

end Machine

namespace Bus

section Padding

variable (b : Bus δ) (n : Nat)

theorem join_padded (slot : Nat) : (b.padded n).slots[slot]?.join = b.slots[slot]?.join := by
  unfold padded
  rw [Array.getElem?_append]
  split
  · rfl
  · next beyond =>
    rw [Array.getElem?_eq_none (Nat.not_lt.mp beyond), Array.getElem?_replicate]
    split <;> rfl

theorem occupied_padded {slot : Nat} : (b.padded n).Occupied slot ↔ b.Occupied slot := by
  have some_iff (c : Bus δ) : c.Occupied slot ↔ ∃ d, c.slots[slot]?.join = some d :=
    exists_congr fun _ => Option.join_eq_some_iff.symm
  rw [some_iff, some_iff, join_padded]

theorem owner?_padded (a : Word) : (b.padded n).owner? a = b.owner? a := by
  have device : (b.padded n).device? = b.device? := by
    funext id
    match id with
    | 0 | 1 | 2 => rfl
    | slot + 3 => exact congrArg (Option.map (PortOwner.attached slot)) (b.join_padded n slot)
  unfold owner?
  rw [device]
  rfl

theorem setDevice_padded {slot : Nat} (found : b.Occupied slot) (d : δ) :
    (b.padded n).setDevice slot d = (b.setDevice slot d).padded n := by
  unfold setDevice padded
  dsimp only
  rw [Array.setIfInBounds_append_left found.lt]

theorem mapDevices_padded (f : δ → δ) : (b.padded n).mapDevices f = (b.mapDevices f).padded n := by
  unfold mapDevices padded
  dsimp only
  rw [Array.map_append, Array.map_replicate]
  rfl

theorem devices_padded : (b.padded n).devices = b.devices := by
  unfold devices padded
  dsimp only
  rw [Array.toList_append, List.filterMap_append, Array.toList_replicate, List.filterMap_replicate]
  exact List.append_nil _

theorem describe_padded : (b.padded n).describe = b.describe := by
  unfold describe padded
  dsimp only
  rw [Array.countP_append, Array.countP_replicate]
  rfl

/- A device that is refused while slots are left is refused for its ports. -/
theorem attach_padded {device : δ} {ports : List Word} (room : b.slots.size < 65533)
    (refused : (b.attach device ports).1 = none) :
    b.attach device ports = (none, b) ∧ (b.padded n).attach device ports = (none, b.padded n) := by
  obtain ⟨-, -, accepted, -⟩ | ⟨occupied, same⟩ := b.attach_cases device ports
  · rw [accepted] at refused
    cases refused
  · refine ⟨same, ?_⟩
    obtain ⟨-, free, -⟩ | ⟨-, same'⟩ := (b.padded n).attach_cases device ports
    · exact absurd ⟨room, free⟩ occupied
    · exact same'

theorem detach_padded (id : Nat) :
    (b.padded n).detach id = ((b.detach id).1, (b.detach id).2.padded n) := by
  obtain ⟨slot, rfl, occupied, -⟩ | ⟨missing, refused⟩ := b.detach_cases id
  · obtain ⟨d, inside⟩ := occupied
    obtain ⟨d', inside'⟩ := (b.occupied_padded n).mpr ⟨d, inside⟩
    have emptied : (b.padded n).slots.setIfInBounds slot none =
        b.slots.setIfInBounds slot none ++ Array.replicate n none :=
      Array.setIfInBounds_append_left (Occupied.lt ⟨d, inside⟩)
    have custom : firstCustomId ≤ slot + 3 := Nat.le_add_left 3 slot
    have place : slot + 3 - firstCustomId = slot := Nat.add_sub_cancel slot 3
    unfold detach
    rw [dif_pos custom, dif_pos custom]
    simp only [place, inside, inside', emptied]
    rfl
  · rw [refused]
    obtain ⟨slot, here, occupied, -⟩ | ⟨-, refused'⟩ := (b.padded n).detach_cases id
    · exact absurd ((b.occupied_padded n).mp occupied) (missing slot here)
    · exact refused'

end Padding

end Bus

variable [Device δ]

namespace Bus

section Accesses

variable (b : Bus δ) (n : Nat)

theorem read_padded (a : Word) (effects : Bool) :
    (b.padded n).read a effects =
      ⟨(b.read a effects).word, (b.read a effects).bus.padded n, (b.read a effects).events⟩ := by
  unfold read
  rw [owner?_padded]
  cases owned : b.owner? a with
  | none => rfl
  | some o =>
    cases o with
    | attached slot d =>
      have found : b.Occupied slot := ⟨d, (owner?_eq_attached_iff.mp owned).2⟩
      exact congrArg (PortRead.mk _ · []) (b.setDevice_padded n found _)
    | _ => rfl

theorem write_padded (a w : Word) :
    (b.padded n).write a w = ((b.write a w).1, (b.write a w).2.padded n) := by
  unfold write
  rw [owner?_padded]
  cases owned : b.owner? a with
  | none => rfl
  | some o =>
    cases o with
    | attached slot d =>
      have found : b.Occupied slot := ⟨d, (owner?_eq_attached_iff.mp owned).2⟩
      exact congrArg (Prod.mk _) (b.setDevice_padded n found _)
    | _ => rfl

theorem poll_padded : (b.padded n).poll = (b.poll.1, b.poll.2.padded n) := by
  unfold poll offers
  rw [devices_padded, mapDevices_padded]
  rfl

theorem tick_padded : (b.padded n).tick = b.tick.padded n := by
  unfold tick
  rw [mapDevices_padded]
  rfl

theorem reset_padded : (b.padded n).reset = b.reset.padded n := by
  unfold reset
  rw [mapDevices_padded]
  rfl

theorem ticks_padded (k : Nat) : Nat.repeat tick k (b.padded n) = (Nat.repeat tick k b).padded n := by
  induction k with
  | zero => rfl
  | succ k ih => exact (congrArg tick ih).trans (tick_padded _ n)

end Accesses

end Bus

namespace Machine

section Ageing

variable (m : Machine δ) (n uses : Nat)

theorem load_aged (a : Word) (effects : Bool) :
    (m.aged n uses).load a effects =
      ⟨(m.load a effects).word, (m.load a effects).machine.aged n uses, (m.load a effects).events⟩ := by
  have read : (m.aged n uses).bus.read a effects = _ := m.bus.read_padded n a effects
  unfold load
  split
  · rfl
  · split
    · rfl
    · split
      · dsimp only
        rw [read]
        cases (m.bus.read a effects).word <;> rfl
      · rfl

theorem store_aged (a w : Word) : (m.aged n uses).store a w = (m.store a w).aged n uses := by
  have written : (m.aged n uses).bus.write a w = _ := m.bus.write_padded n a w
  unfold store
  split
  · rfl
  · split
    · rfl
    · split
      · dsimp only
        rw [written]
        cases (m.bus.write a w).1 <;> rfl
      · rfl

theorem polled_aged : (m.aged n uses).polled = m.polled.aged n uses := by
  have polled : (m.aged n uses).bus.poll = _ := m.bus.poll_padded n
  unfold Machine.polled
  rw [polled]
  rfl

theorem completed_aged (halts : Bool) :
    (m.aged n uses).completed halts = (m.completed halts).aged n uses := by
  have ticked : (m.aged n uses).bus.tick = _ := m.bus.tick_padded n
  unfold Machine.completed Machine.ticked
  rw [ticked]
  rfl

theorem unseen_aged : Unseen fun m : Machine δ => m.aged n uses where
  core _ := rfl
  flags _ := rfl
  clock _ := rfl
  condition _ := rfl
  queue _ := rfl
  here _ := rfl
  offer m := by
    have polled : (m.aged n uses).bus.poll = _ := m.bus.poll_padded n
    rw [polled]
  marked _ := rfl
  withCore _ _ := rfl
  load m := m.load_aged n uses
  store m := m.store_aged n uses
  polled m := m.polled_aged n uses
  completed m := m.completed_aged n uses
  undone _ _ _ := rfl
  parked _ := rfl

theorem runSimulation_aged : RunSimulation fun m m' : Machine δ => m' = m.aged n uses where
  toLoopSimulation := (unseen_aged n uses).loopSimulation
  retired same := by
    rw [same]
    rfl
  limited exceeded same := by
    rw [same]
    rfl
  ended reason same := by
    rw [same]
    rfl

theorem reset_aged (known : m.flags.startup ≠ .unseeded) (deterministic : m.entropy.Deterministic) :
    (m.aged n uses).reset = m.reset.aged n (uses + 1) := by
  have drawn := start_after (δ := δ) known deterministic (m.entropy.uses + 1) (uses + 1)
  have devices : (m.aged n uses).bus.reset = m.bus.reset.padded n := m.bus.reset_padded n
  unfold Machine.reset
  rw [devices]
  show { (start m.flags (m.entropy.after (uses + 1)) : Machine δ) with
    breakpoints := m.breakpoints, bus := m.bus.reset.padded n } = _
  rw [drawn]
  rfl

end Ageing

end Machine

/-! ### Sessions -/

/- The session with an older machine. -/
def Session.aged (s : Session δ) (n uses : Nat) : Session δ := s.withMachine (s.machine.aged n uses)

/- Both replies answer and tell the same, and leave sessions that differ in nothing but the age of
their machines. -/
structure Reply.Aged (n : Nat) (r r' : Reply δ) : Prop where
  answer : r'.answer = r.answer
  events : r'.events = r.events
  session : ∃ uses, r'.session = r.session.aged n uses

namespace Session

variable {n : Nat}

theorem run_aged (s : Session δ) (uses : Nat) (p : Policy) (w : Watcher) :
    (s.run p w).Aged n ((s.aged n uses).run p w) := by
  have S := Machine.runSimulation_aged (δ := δ) n uses
  cases w with
  | nobody =>
    obtain ⟨outcome, -, events, machine⟩ :=
      S.run (m := s.machine) rfl p HitHandler.ignore () fun _ _ => rfl
    exact ⟨congrArg (Answer.outcome · []) outcome, events, uses,
      congrArg (Session.mk · s.channel) machine⟩
  | host =>
    obtain ⟨outcome, hits, events, machine⟩ :=
      S.run (m := s.machine) rfl p hostHandler [] fun _ same => by
        rw [same]
        rfl
    exact ⟨congrArg₂ Answer.outcome outcome hits, events, uses,
      congrArg (Session.mk · s.channel) machine⟩
  | channel =>
    obtain ⟨outcome, sent, events, machine⟩ :=
      S.run (m := s.machine) rfl p HitChannel.handler s.channel fun _ same => by
        rw [same]
        rfl
    exact ⟨congrArg (Answer.outcome · []) outcome, events, uses,
      congrArg₂ Session.mk machine sent⟩

/- A command that attaches no device, and draws no initial words without a seed, does the same to both
sessions. -/
theorem perform_aged (s : Session δ) (uses : Nat) {c : Command δ}
    (deterministic : s.machine.entropy.Deterministic) (room : s.machine.bus.slots.size < 65533)
    (refused : s.machine.bus.grants c.requests = [])
    (known : c = .reset → s.machine.flags.startup ≠ .unseeded) :
    (s.perform c).Aged n ((s.aged n uses).perform c) := by
  obtain ⟨m, channel⟩ := s
  have same {m' : Machine δ} (k : Machine δ) (alike : m' = k.aged n uses)
      (answer : Answer) (events : Array Event) (channel : HitChannel) :
      Reply.Aged n ⟨⟨k, channel⟩, answer, events⟩ ⟨⟨m', channel⟩, answer, events⟩ :=
    ⟨rfl, rfl, uses, congrArg (Session.mk · channel) alike⟩
  have other {b' : Bus δ} (b : Bus δ) (alike : b' = b.padded n) (answer : Answer)
      (events : Array Event) : Reply.Aged n ⟨withBus ⟨m, channel⟩ b, answer, events⟩
        ⟨withBus (aged ⟨m, channel⟩ n uses) b', answer, events⟩ :=
    same { m with bus := b }
      (congrArg (fun b => { m with bus := b, entropy := m.entropy.after uses }) alike) answer events
      channel
  cases c with
  | load _ _ | loadText _ | loadObject _ =>
    unfold perform
    dsimp only
    split <;> exact same _ rfl _ _ _
  | reset =>
    exact ⟨rfl, rfl, uses + 1,
      congrArg (Session.mk · channel) (m.reset_aged n uses (known rfl) deterministic)⟩
  | readRegister k =>
    unfold perform Machine.readRegister
    dsimp only
    cases Reg.ofNumber k <;> exact same m rfl _ _ _
  | writeRegister k w =>
    unfold perform Machine.writeRegister
    dsimp only
    cases Reg.ofNumber k <;> exact same _ rfl _ _ _
  | readMemory a =>
    have looked := (Machine.unseen_aged n uses).inspect m a
    exact ⟨congrArg (Answer.word ∘ some ∘ Prod.fst) looked, rfl, uses,
      congrArg (fun r => Session.mk r.2 channel) looked⟩
  | writeMemory a w => exact same _ (m.store_aged n uses a w) _ _ _
  | disassemble a k =>
    obtain ⟨texts, looked⟩ :=
      (Machine.unseen_aged n uses).loopSimulation.disassemble (m := m) rfl a k
    exact ⟨congrArg Answer.texts texts, rfl, uses, congrArg (Session.mk · channel) looked⟩
  | step k =>
    obtain ⟨answers, events, stepped⟩ :=
      (Machine.unseen_aged n uses).loopSimulation.steps (m := m) rfl k
    exact ⟨congrArg Answer.steps answers, events, uses, congrArg (Session.mk · channel) stepped⟩
  | run p w => exact run_aged ⟨m, channel⟩ uses p w
  | removeBreakpoint id =>
    have record : ((⟨m, channel⟩ : Session δ).aged n uses).machine.breakpoints = m.breakpoints := rfl
    unfold perform
    dsimp only
    rw [record]
    cases m.breakpoints.get? id <;> exact same _ rfl _ _ _
  | attach device ports =>
    have denied : (m.bus.attach device ports).1 = none :=
      Option.toList_eq_nil_iff.mp (List.append_eq_nil_iff.mp refused).1
    obtain ⟨full, full'⟩ := m.bus.attach_padded n room denied
    have full' : ((⟨m, channel⟩ : Session δ).aged n uses).machine.bus.attach device ports = _ := full'
    unfold perform
    dsimp only
    rw [full, full']
    exact other m.bus rfl _ _
  | attachMany device k =>
    cases k with
    | zero => exact other m.bus rfl _ _
    | succ k =>
      -- as long as slots are left, a device that wants no port is not refused
      have denied : (m.bus.attach device []).1 = none :=
        Option.toList_eq_nil_iff.mp (List.append_eq_nil_iff.mp refused).1
      obtain ⟨-, -, accepted, -⟩ | ⟨full, -⟩ := m.bus.attach_cases device []
      · rw [accepted] at denied
        cases denied
      · exact absurd ⟨room, fun a listed => (List.not_mem_nil listed).elim⟩ full
  | detach id =>
    have removed : ((⟨m, channel⟩ : Session δ).aged n uses).machine.bus.detach id = _ :=
      m.bus.detach_padded n id
    unfold perform
    dsimp only
    rw [removed]
    exact other _ rfl _ _
  | readPort a effects =>
    have read : ((⟨m, channel⟩ : Session δ).aged n uses).machine.bus.read a effects = _ :=
      m.bus.read_padded n a effects
    unfold perform
    dsimp only
    rw [read]
    exact other _ rfl _ _
  | writePort a w =>
    have written : ((⟨m, channel⟩ : Session δ).aged n uses).machine.bus.write a w = _ :=
      m.bus.write_padded n a w
    unfold perform
    dsimp only
    rw [written]
    exact other _ rfl _ _
  | poll =>
    have polled : ((⟨m, channel⟩ : Session δ).aged n uses).machine.bus.poll = _ := m.bus.poll_padded n
    unfold perform
    dsimp only
    rw [polled]
    exact other _ rfl _ _
  | tick k => exact other _ (m.bus.ticks_padded n k) _ _
  | resetDevices => exact other _ (m.bus.reset_padded n) _ _
  | describeDevices =>
    have described : ((⟨m, channel⟩ : Session δ).aged n uses).machine.bus.describe = _ :=
      m.bus.describe_padded n
    unfold perform
    dsimp only
    rw [described]
    exact same m rfl _ _ _
  | _ => exact same _ rfl _ _ _

/-- None of the commands attaches a device, or resets the machine when this draws initial words without
a seed. -/
def Repeatable (s : Session δ) : List (Command δ) → Prop
  | [] => True
  | c :: cs => s.machine.bus.grants c.requests = [] ∧
      (c = .reset → s.machine.flags.startup ≠ .unseeded) ∧ (s.perform c).session.Repeatable cs

theorem perform_size (s : Session δ) {c : Command δ}
    (refused : s.machine.bus.grants c.requests = []) :
    (s.perform c).session.machine.bus.slots.size = s.machine.bus.slots.size := by
  have served := (s.machine.bus.grants_eq c.requests).2
  rw [refused] at served
  exact (s.perform_wiring c).size.trans (Nat.add_right_cancel served)

theorem perform_entropy (s : Session δ) (c : Command δ) :
    ∃ uses, (s.perform c).session.machine.entropy = s.machine.entropy.after uses := by
  have lasting := congrArg Prod.snd (s.perform_lasting c)
  cases c with
  | reset => exact ⟨s.machine.entropy.uses + 1, lasting⟩
  | _ => exact ⟨s.machine.entropy.uses, lasting⟩

/- A host keeps its generators. -/
theorem performAll_entropy (s : Session δ) (cs : List (Command δ)) :
    ∃ uses, (s.performAll cs).machine.entropy = s.machine.entropy.after uses := by
  induction cs generalizing s with
  | nil => exact ⟨s.machine.entropy.uses, rfl⟩
  | cons c cs ih =>
    obtain ⟨uses, first⟩ := s.perform_entropy c
    obtain ⟨uses', later⟩ := ih (s.perform c).session
    rw [first] at later
    exact ⟨uses', later⟩

theorem performAll_aged (s : Session δ) (uses : Nat) {cs : List (Command δ)}
    (deterministic : s.machine.entropy.Deterministic) (room : s.machine.bus.slots.size < 65533)
    (repeatable : s.Repeatable cs) :
    (s.aged n uses).answers cs = s.answers cs ∧ (s.aged n uses).log cs = s.log cs ∧
      ∃ uses', (s.aged n uses).performAll cs = (s.performAll cs).aged n uses' := by
  induction cs generalizing s uses with
  | nil => exact ⟨rfl, rfl, uses, rfl⟩
  | cons c cs ih =>
    obtain ⟨refused, known, rest⟩ := repeatable
    have alike : (s.perform c).Aged n ((s.aged n uses).perform c) :=
      s.perform_aged uses deterministic room refused known
    obtain ⟨answer, events, uses', session⟩ := alike
    obtain ⟨_, kept⟩ := s.perform_entropy c
    have deterministic' : (s.perform c).session.machine.entropy.Deterministic := by
      rw [kept]
      exact deterministic
    have room' : (s.perform c).session.machine.bus.slots.size < 65533 := by
      rw [s.perform_size refused]
      exact room
    obtain ⟨answers, log, last⟩ := ih (s.perform c).session uses' deterministic' room' rest
    rw [← session] at answers log last
    refine ⟨congrArg₂ List.cons answer answers, ?_, last⟩
    unfold Session.log
    rw [events, log]

end Session

/-! ### Resets -/

/- When no device is left, a reset bus is a new one but for the delay of the keyboard and for the slots
of the devices that were there. -/
theorem Bus.Wired.reset_eq {b : Bus δ} (wired : b.Wired) (bare : b.devices = []) :
    b.reset = ({ keyboard := { delay := b.keyboard.delay } } : Bus δ).padded b.slots.size := by
  have empty : b.slots = Array.replicate b.slots.size none :=
    Array.eq_replicate_of_mem fun d? h =>
      List.filterMap_eq_nil_iff.mp bare d? (Array.mem_toList_iff.mpr h)
  have table : b.table = .initial := b.fixed.eq_initial fun a slot led => by
    obtain ⟨d, found⟩ := wired.leads led
    rw [empty, Array.getElem?_replicate] at found
    split at found <;> cases found
  have slots : b.slots.map (Option.map Device.reset) = #[] ++ Array.replicate b.slots.size none := by
    rw [Array.empty_append]
    conv_lhs => rw [empty]
    exact Array.map_replicate
  obtain ⟨keyboard, display, boxes, ports, fixed⟩ := b
  obtain rfl : ports = .initial := table
  unfold reset mapDevices padded
  dsimp only at slots ⊢
  rw [slots]
  rfl

namespace Session

/-- A session with a fresh machine that was given the flags, the breakpoints and the delay of another
one, and with its channel. -/
def renewed (s : Session δ) (entropy : Entropy) : Session δ :=
  s.withMachine {
    (Machine.start s.machine.flags entropy : Machine δ).withKeyboard
      (·.setDelay s.machine.bus.keyboard.delay) with
    breakpoints := s.machine.breakpoints }

/- A session with no further devices, whose generators are those of the host, is renewed. -/
theorem perform_reset (s : Session δ) (wired : s.machine.bus.Wired) (bare : s.machine.bus.devices = [])
    (known : s.machine.flags.startup ≠ .unseeded) {entropy : Entropy}
    (deterministic : entropy.Deterministic) {since : Nat}
    (host : s.machine.entropy = entropy.after since) (uses : Nat) :
    (s.perform .reset).session =
      (s.renewed (entropy.after uses)).aged s.machine.bus.slots.size (since + 1) := by
  have drawn := Machine.start_after (δ := δ) known deterministic uses (since + 1)
  have delay : ({} : Keyboard).setDelay s.machine.bus.keyboard.delay =
      { delay := s.machine.bus.keyboard.delay } := by
    unfold Keyboard.setDelay
    rw [Nat.zero_min]
  show s.withMachine { (Machine.start s.machine.flags s.machine.entropy.next : Machine δ) with
    breakpoints := s.machine.breakpoints, bus := s.machine.bus.reset } = _
  rw [host, wired.reset_eq bare, ← delay]
  show s.withMachine { (Machine.start s.machine.flags (entropy.after (since + 1)) : Machine δ) with
    breakpoints := s.machine.breakpoints, bus := _ } = _
  rw [drawn]
  rfl

/-- A reset forgets all but what it keeps. If the words that a generator with a seed draws depend on the
seed only, then whatever a host did before, as long as it removed the devices that it attached and the
initial words are not drawn without a seed, the reset session is a session with a fresh machine that was
given the same flags, breakpoints and keyboard delay, but for the slots of the removed devices, which
set the id of the next one, and for the count of the generators. So all commands that attach no device
are answered as on that one, tell the same, and lead to the same session but for these two. -/
theorem reset_renews (flags : Flags) (entropy : Entropy) (deterministic : entropy.Deterministic)
    (capacity : Option Nat) (history : List (Command δ)) :
    let s := (Session.start flags entropy capacity : Session δ).performAll history
    s.machine.bus.devices = [] → s.machine.flags.startup ≠ .unseeded → ∀ uses : Nat,
      let spent := s.machine.bus.slots.size
      let reset := (s.perform .reset).session
      let new := s.renewed (entropy.after uses)
      reset = new.aged spent reset.machine.entropy.uses ∧
      reset.machine.bus.nextId = s.machine.bus.nextId ∧
      ∀ cs : List (Command δ), new.Repeatable cs →
        reset.answers cs = new.answers cs ∧ reset.log cs = new.log cs ∧
        ∃ uses', reset.performAll cs = (new.performAll cs).aged spent uses' := by
  intro s bare known uses spent reset new
  have wired : s.machine.bus.Wired := performAll_wired Bus.wired_empty history
  obtain ⟨since, host⟩ : ∃ since, s.machine.entropy = entropy.after since :=
    performAll_entropy (Session.start flags entropy capacity) history
  have renews : reset = new.aged spent (since + 1) :=
    s.perform_reset wired bare known deterministic host uses
  refine ⟨?_, ?_, fun cs repeatable => ?_⟩
  · rw [renews]
    rfl
  · exact congrArg (· + firstCustomId) s.machine.bus.reset_wiredAlike.size
  · rw [renews]
    have room : new.machine.bus.slots.size < 65533 := by
      show 0 < 65533
      decide
    exact new.performAll_aged (since + 1) deterministic room repeatable

/- A host that attached and removed a register, and ran a program up to a breakpoint in between. -/
def visit : List (Command Peripheral) :=
  [.setDelay 3, .attach (.register 5) [0xFE10], .setBreakpoint 0x3001, .setInput [0x61],
    .writeMemory 0x3000 0x1021, .run (.toHalt none) .host, .detach 3]

theorem reset_renews_visit :
    let s := (Session.start {} (.constant 0) none).performAll visit
    let reset := (s.perform .reset).session
    let new := s.renewed ((Entropy.constant 0).after 7)
    let cs : List (Command Peripheral) := [.pushInput [0x62], .writeMemory 0x3000 0x1021,
      .run (.steps 9) .channel, .readMemory kbdr, .describeDevices]
    s.machine.retired = 1 ∧ reset.machine.bus.nextId = 4 ∧
      reset.answers cs = new.answers cs ∧ reset.log cs = new.log cs := by
  intro s reset new cs
  have deterministic : (Entropy.constant 0).Deterministic := fun _ _ _ => rfl
  have bare : s.machine.bus.devices = [] := by decide +kernel
  have known : s.machine.flags.startup ≠ .unseeded := by decide +kernel
  obtain ⟨-, next, same⟩ := reset_renews {} (.constant 0) deterministic none visit bare known 7
  have repeatable : new.Repeatable cs :=
    ⟨rfl, nofun, rfl, nofun, rfl, nofun, rfl, nofun, rfl, nofun, trivial⟩
  obtain ⟨answers, log, -⟩ := same cs repeatable
  exact ⟨by decide +kernel, next.trans (by decide +kernel), answers, log⟩

end Session

end Lc3
