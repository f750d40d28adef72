import Lc3.Device.PortTable
import Lc3.Event

/-!
# The bus

The bus connects the machine to its devices. The keyboard and the display are always present at
their fixed ports. Further devices are attached to free ports. Each gets a slot of its own, which
gives it its id; when it is removed, its ports are free again and its slot stays empty, so that no id
is used twice. An access at a port looks up the id of the port in the port table, and reaches the
device with this id, if there is one.
-/

namespace Lc3

/-- The devices of a machine. -/
structure Bus (δ : Type) where
  keyboard : Keyboard := {}
  display : Display := {}
  /-- The devices that were ever attached, in their order. The slot of a removed one is empty. -/
  slots : Array (Option δ) := #[]
  /-- The id of the device at each port. -/
  table : PortTable := .initial
  /-- The keyboard and the display have their ports for good. -/
  fixed : table.Fixed := by exact PortTable.fixed_initial

/-- Who answers at a port. -/
inductive PortOwner (δ : Type) where
  | keyboard
  | display
  /-- The attached device in a slot. -/
  | attached (slot : Nat) (device : δ)

/-- What a read at a port gives. -/
structure PortRead (δ : Type) where
  /-- The word that the device answered, if it did. -/
  word : Option Word
  bus : Bus δ
  events : List Event

namespace Bus

variable {δ : Type}

/-! ### Lookup -/

/-- The device with an id, if there is one. An attached device has the id that its slot gives it. -/
def device? (b : Bus δ) : Nat → Option (PortOwner δ)
  | noDevice => none
  | keyboardId => some .keyboard
  | displayId => some .display
  | slot + 3 => b.slots[slot]?.join.map (.attached slot)

/-- The owner of a port, if there is one. -/
def owner? (b : Bus δ) (a : Word) : Option (PortOwner δ) := (b.table.id? a).bind b.device?

/-- Whether a device can be attached to an address. -/
def isFree (b : Bus δ) (a : Word) : Bool := b.table.id? a == some noDevice

/-! ### Attaching -/

/-- The id of the next device. -/
def nextId (b : Bus δ) : Nat := b.slots.size + firstCustomId

/-- Whether there is an id left. The number of slots has to be in the range of ids as well. -/
def hasRoom (b : Bus δ) : Bool := b.slots.size ≤ lastId && b.nextId ≤ lastId

/-- Attach a device, unless the ids are used up or one of the ports is not free: the id that it
gets, and the bus. -/
def attach (b : Bus δ) (device : δ) (ports : List Word) : Option Nat × Bus δ :=
  if b.hasRoom && ports.all b.isFree then
    (some b.nextId,
      { b with
        slots := b.slots.push (some device)
        table := b.table.assignAll ports b.nextId
        fixed := b.fixed.assignAll ports (Nat.le_add_left firstCustomId b.slots.size) })
  else (none, b)

/-- Remove the device with an id, and whether there was one. The keyboard and the display cannot be
removed. -/
def detach (b : Bus δ) (id : Nat) : Bool × Bus δ :=
  if custom : firstCustomId ≤ id then
    match b.slots[id - firstCustomId]? with
    | some (some _) =>
      (true,
        { b with
          slots := b.slots.setIfInBounds (id - firstCustomId) none
          table := b.table.release id
          fixed := b.fixed.release custom })
    | _ => (false, b)
  else (false, b)

/-! ### Changes of devices -/

/-- The bus with another device in a slot. -/
def setDevice (b : Bus δ) (slot : Nat) (device : δ) : Bus δ :=
  { b with slots := b.slots.setIfInBounds slot (some device) }

/-- The bus with a function applied to every attached device. -/
def mapDevices (b : Bus δ) (f : δ → δ) : Bus δ := { b with slots := b.slots.map (Option.map f) }

/-! ### Text -/

/-- The state of the bus, as shown to a person debugging a device. -/
def describe (b : Bus δ) : String :=
  "DeviceHandler \x7b keyboard: " ++ b.keyboard.describe ++ ", display: " ++ b.display.describe
    ++ ", custom: " ++ toString (b.slots.countP Option.isSome) ++ ", .. \x7d"

/-! ### Accesses -/

variable [Device δ]

/-- Read at a port. -/
def read (b : Bus δ) (a : Word) (effects : Bool) : PortRead δ :=
  match b.owner? a with
  | none => ⟨none, b, []⟩
  | some .keyboard =>
    let r := b.keyboard.read a effects
    let consumed := match effects && a == kbdr, b.keyboard.consume? with
      | true, some (byte, rest) => [.consumed byte rest.queue.length]
      | _, _ => []
    ⟨r.1, { b with keyboard := r.2 }, consumed⟩
  | some .display => ⟨b.display.read a, b, []⟩
  | some (.attached slot d) =>
    let r := Device.read d a effects
    ⟨r.1, b.setDevice slot r.2, []⟩

/-- Write at a port, and whether a device took the word. -/
def write (b : Bus δ) (a w : Word) : Bool × Bus δ :=
  match b.owner? a with
  | none => (false, b)
  | some .keyboard =>
    let r := b.keyboard.write a w
    (r.1, { b with keyboard := r.2 })
  | some .display =>
    let r := b.display.write a w
    (r.1, { b with display := r.2 })
  | some (.attached slot d) =>
    let r := Device.write d a w
    (r.1, b.setDevice slot r.2)

/-! ### All devices -/

/-- The attached devices, in the order of their ids. -/
def devices (b : Bus δ) : List δ := b.slots.toList.filterMap id

/-- The interrupts that the devices ask for, in increasing order of their ids. The display never
asks for one. -/
def offers (b : Bus δ) : List Interrupt :=
  b.keyboard.poll.toList ++ b.devices.filterMap fun d => (Device.poll d).1

/-- Ask all devices for interrupts; the most urgent one wins. -/
def poll (b : Bus δ) : Option Interrupt × Bus δ :=
  (Interrupt.mostUrgent? b.offers, b.mapDevices fun d => (Device.poll d).2)

/-- Tell all devices that an instruction was completed. -/
def tick (b : Bus δ) : Bus δ := { b.mapDevices Device.tick with keyboard := b.keyboard.tick }

/-- Reset all devices. They stay attached. -/
def reset (b : Bus δ) : Bus δ :=
  { b.mapDevices Device.reset with
    keyboard := b.keyboard.reset
    display := b.display.clear }

end Bus

end Lc3
