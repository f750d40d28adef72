import Lc3.Proofs.Attachments
import Mathlib.Data.List.Induction

/-!
# The wiring of the bus

Which ports lead to which device. No entry of the port table leads to an empty slot (`Bus.Wired`), and
whatever the bus is asked for keeps this (`Bus.serveAll_wired`): a request adds the entries of the
device that it attaches, and takes away those of the device that it removes (`Bus.Wired.id?_serve`).
The list of the attached devices follows (`Bus.Wired.attached_attach`, `Bus.attached_detach`). So the
ports lead to those devices that were attached and have not been removed since, and an access calls the
device that its port leads to and leaves all else as it is (`Bus.ports_lead`).
-/

namespace Lc3

variable {δ : Type}

namespace Bus

/-! ### Well-wired buses -/

/-- There is a device in the slot. -/
def Occupied (b : Bus δ) (slot : Nat) : Prop := ∃ d, b.slots[slot]? = some (some d)

theorem Occupied.lt {b : Bus δ} {slot : Nat} (h : b.Occupied slot) : slot < b.slots.size := by
  obtain ⟨d, found⟩ := h
  exact (Array.getElem?_eq_some_iff.mp found).1

/-- Every slot gives an id that there is, and no port leads to the id of an empty slot. -/
structure Wired (b : Bus δ) : Prop where
  size : b.slots.size ≤ 65533
  leads : ∀ {a slot}, b.table.id? a = some (slot + 3) → b.Occupied slot

theorem wired_empty : ({} : Bus δ).Wired where
  size := Nat.zero_le _
  leads {a slot} led := by
    change PortTable.initial.id? a = some (slot + 3) at led
    rw [PortTable.id?_initial] at led
    split at led
    · cases led
    · split at led
      · cases led
      · split at led <;> cases led

/- Nothing has been plugged in or removed on the way from one bus to the other. -/
structure WiredAlike (b b' : Bus δ) : Prop where
  table : b'.table = b.table
  slots : b'.slots.map Option.isSome = b.slots.map Option.isSome

namespace WiredAlike

variable {b b' b'' : Bus δ}

theorem refl (b : Bus δ) : WiredAlike b b := ⟨rfl, rfl⟩

theorem trans (h : WiredAlike b b') (h' : WiredAlike b' b'') : WiredAlike b b'' :=
  ⟨h'.table.trans h.table, h'.slots.trans h.slots⟩

theorem size (h : WiredAlike b b') : b'.slots.size = b.slots.size := by
  have sizes := congrArg Array.size h.slots
  rwa [Array.size_map, Array.size_map] at sizes

theorem occupied_iff (h : WiredAlike b b') {slot : Nat} : b'.Occupied slot ↔ b.Occupied slot := by
  have some_iff (c : Bus δ) :
      c.Occupied slot ↔ (c.slots.map Option.isSome)[slot]? = some true := by
    rw [Array.getElem?_map, Option.map_eq_some_iff]
    constructor
    · rintro ⟨d, found⟩
      exact ⟨some d, found, rfl⟩
    · rintro ⟨d?, found, present⟩
      obtain ⟨d, rfl⟩ := Option.isSome_iff_exists.mp present
      exact ⟨d, found⟩
  rw [some_iff, some_iff, h.slots]

theorem wired (h : WiredAlike b b') (wired : b.Wired) : b'.Wired where
  size := h.size ▸ wired.size
  leads led := h.occupied_iff.mpr (wired.leads (h.table ▸ led))

end WiredAlike

/-! ### Accesses -/

/-- The bus with another device in the slot, and all else as it was. -/
structure Replaced (b : Bus δ) (slot : Nat) (d : δ) (b' : Bus δ) : Prop where
  device : b'.slots[slot]? = some (some d)
  others : ∀ i, i ≠ slot → b'.slots[i]? = b.slots[i]?
  rest : b' = { b with slots := b'.slots }

section Changes

variable {b : Bus δ} {slot : Nat} {d : δ}

theorem replaced_setDevice (found : b.Occupied slot) (d : δ) :
    b.Replaced slot d (b.setDevice slot d) where
  device := by
    unfold setDevice
    rw [Array.getElem?_setIfInBounds, if_pos rfl, if_pos found.lt]
  others i other := by
    unfold setDevice
    rw [Array.getElem?_setIfInBounds, if_neg other.symm]
  rest := rfl

theorem Replaced.wiredAlike {b' : Bus δ} (h : b.Replaced slot d b') (found : b.Occupied slot) :
    WiredAlike b b' where
  table := by rw [h.rest]
  slots := by
    refine Array.ext_getElem? fun i => ?_
    rw [Array.getElem?_map, Array.getElem?_map]
    by_cases here : i = slot
    · obtain ⟨d', before⟩ := found
      rw [here, h.device, before]
      rfl
    · rw [h.others i here]

theorem mapDevices_wiredAlike (b : Bus δ) (f : δ → δ) : WiredAlike b (b.mapDevices f) where
  table := rfl
  slots := by
    unfold mapDevices
    rw [Array.map_map]
    refine Array.map_congr_left fun d? _ => ?_
    exact Option.isSome_map

end Changes

variable [Device δ]

/-- An access at the port calls its owner, and what it leaves behind differs from the bus before it at
most in that device. -/
def Calls (b : Bus δ) (a : Word) : Option (PortOwner δ) → Prop
  | none => (∀ effects, b.read a effects = ⟨none, b, []⟩) ∧ ∀ w, b.write a w = (false, b)
  | some .keyboard =>
    (∀ effects, (b.read a effects).word = (b.keyboard.read a effects).1 ∧
      (b.read a effects).bus = { b with keyboard := (b.keyboard.read a effects).2 }) ∧
    ∀ w, b.write a w =
      ((b.keyboard.write a w).1, { b with keyboard := (b.keyboard.write a w).2 })
  | some .display =>
    (∀ effects, b.read a effects = ⟨b.display.read a, b, []⟩) ∧
    ∀ w, b.write a w = ((b.display.write a w).1, { b with display := (b.display.write a w).2 })
  | some (.attached slot d) =>
    b.slots[slot]? = some (some d) ∧
    (∀ effects, (b.read a effects).word = (Device.read d a effects).1 ∧
      b.Replaced slot (Device.read d a effects).2 (b.read a effects).bus ∧
      (b.read a effects).events = []) ∧
    ∀ w, (b.write a w).1 = (Device.write d a w).1 ∧
      b.Replaced slot (Device.write d a w).2 (b.write a w).2

section Accesses

variable (b : Bus δ) (a : Word)

theorem calls_owner : b.Calls a (b.owner? a) := by
  cases owned : b.owner? a with
  | none =>
    refine ⟨fun effects => ?_, fun w => ?_⟩
    · unfold read
      rw [owned]
    · unfold write
      rw [owned]
  | some o =>
    cases o with
    | keyboard =>
      refine ⟨fun effects => ?_, fun w => ?_⟩
      · unfold read
        rw [owned]
        exact ⟨rfl, rfl⟩
      · unfold write
        rw [owned]
    | display =>
      refine ⟨fun effects => ?_, fun w => ?_⟩
      · unfold read
        rw [owned]
      · unfold write
        rw [owned]
    | attached slot d =>
      have found := (owner?_eq_attached_iff.mp owned).2
      refine ⟨found, fun effects => ?_, fun w => ?_⟩
      · unfold read
        rw [owned]
        exact ⟨rfl, replaced_setDevice ⟨d, found⟩ _, rfl⟩
      · unfold write
        rw [owned]
        exact ⟨rfl, replaced_setDevice ⟨d, found⟩ _⟩

theorem read_wiredAlike (effects : Bool) : WiredAlike b (b.read a effects).bus := by
  unfold read
  split
  · exact .refl b
  · exact ⟨rfl, rfl⟩
  · exact .refl b
  · next slot d owned =>
    have found : b.Occupied slot := ⟨d, (owner?_eq_attached_iff.mp owned).2⟩
    exact (replaced_setDevice found _).wiredAlike found

theorem write_wiredAlike (w : Word) : WiredAlike b (b.write a w).2 := by
  unfold write
  split
  · exact .refl b
  · exact ⟨rfl, rfl⟩
  · exact ⟨rfl, rfl⟩
  · next slot d owned =>
    have found : b.Occupied slot := ⟨d, (owner?_eq_attached_iff.mp owned).2⟩
    exact (replaced_setDevice found _).wiredAlike found

theorem poll_wiredAlike : WiredAlike b b.poll.2 := b.mapDevices_wiredAlike _

theorem tick_wiredAlike : WiredAlike b b.tick := ⟨rfl, (b.mapDevices_wiredAlike Device.tick).slots⟩

theorem reset_wiredAlike : WiredAlike b b.reset := ⟨rfl, (b.mapDevices_wiredAlike Device.reset).slots⟩

end Accesses

/-! ### Attaching and removing -/

section Attaching

omit [Device δ]

variable (b : Bus δ)

/- To attach a device is to put it into a new slot and lead its ports there, or it is refused. -/
theorem attach_cases (device : δ) (ports : List Word) :
    (b.slots.size < 65533 ∧ (∀ a ∈ ports, b.table.id? a = some noDevice) ∧
        (b.attach device ports).1 = some b.nextId ∧
        (b.attach device ports).2.slots = b.slots.push (some device) ∧
        (b.attach device ports).2.table = b.table.assignAll ports b.nextId) ∨
      ¬(b.slots.size < 65533 ∧ ∀ a ∈ ports, b.table.id? a = some noDevice) ∧
        b.attach device ports = (none, b) := by
  have accepted : (b.hasRoom && ports.all b.isFree) = true ↔
      b.slots.size < 65533 ∧ ∀ a ∈ ports, b.table.id? a = some noDevice := by
    unfold hasRoom nextId isFree firstCustomId lastId
    rw [Bool.and_eq_true, Bool.and_eq_true, decide_eq_true_eq, decide_eq_true_eq, List.all_eq_true]
    simp only [beq_iff_eq]
    exact and_congr_left' (by omega)
  rw [← accepted]
  unfold attach
  split
  · next ok => exact Or.inl ⟨(accepted.mp ok).1, (accepted.mp ok).2, rfl, rfl, rfl⟩
  · next refused => exact Or.inr ⟨refused, rfl⟩

/- To remove a device is to empty its slot and free its ports, if there is one. -/
theorem detach_cases (id : Nat) :
    (∃ slot, id = slot + 3 ∧ b.Occupied slot ∧ (b.detach id).1 = true ∧
        (b.detach id).2.slots = b.slots.setIfInBounds slot none ∧
        (b.detach id).2.table = b.table.release id) ∨
      (∀ slot, id = slot + 3 → ¬b.Occupied slot) ∧ b.detach id = (false, b) := by
  unfold detach
  split
  · next custom =>
    obtain ⟨slot, rfl⟩ := Nat.exists_eq_add_of_le' custom
    split
    · next d found => exact Or.inl ⟨slot, rfl, ⟨d, found⟩, rfl, rfl, rfl⟩
    · next missing =>
      refine Or.inr ⟨fun slot' same occupied => ?_, rfl⟩
      obtain rfl : slot = slot' := Nat.add_right_cancel same
      obtain ⟨d, found⟩ := occupied
      exact missing d found
  · next fixed =>
    refine Or.inr ⟨fun slot same => ?_, rfl⟩
    rw [same] at fixed
    exact absurd (Nat.le_add_left 3 slot) fixed

theorem detach_eq_true_iff {id : Nat} :
    (b.detach id).1 = true ↔ ∃ slot, id = slot + 3 ∧ b.Occupied slot := by
  obtain ⟨slot, here, occupied, removed, -⟩ | ⟨missing, refused⟩ := b.detach_cases id
  · exact iff_of_true removed ⟨slot, here, occupied⟩
  · rw [refused]
    exact iff_of_false nofun fun ⟨slot, here, occupied⟩ => missing slot here occupied

theorem detach_of_eq_false {id : Nat} (missing : (b.detach id).1 = false) : (b.detach id).2 = b := by
  obtain ⟨-, -, -, removed, -⟩ | ⟨-, refused⟩ := b.detach_cases id
  · cases removed.symm.trans missing
  · exact congrArg Prod.snd refused

/- The ports of a removed device are free, and all others lead where they did. -/
theorem id?_detach {id : Nat} (removed : (b.detach id).1 = true) (a : Word) :
    (b.detach id).2.table.id? a =
      if b.table.id? a = some id then some noDevice else b.table.id? a := by
  obtain ⟨-, -, -, -, -, table⟩ | ⟨-, refused⟩ := b.detach_cases id
  · rw [table, PortTable.id?_release]
  · cases (congrArg Prod.fst refused).symm.trans removed

end Attaching

/-! ### Requests in a row -/

/-- What a bus can be asked for. -/
inductive Request (δ : Type) where
  | attach (device : δ) (ports : List Word)
  | detach (id : Nat)
  | read (address : Word) (effects : Bool)
  | write (address word : Word)
  | poll
  | tick
  | reset

/-- The bus after a request. -/
def serve (b : Bus δ) : Request δ → Bus δ
  | .attach device ports => (b.attach device ports).2
  | .detach id => (b.detach id).2
  | .read a effects => (b.read a effects).bus
  | .write a w => (b.write a w).2
  | .poll => b.poll.2
  | .tick => b.tick
  | .reset => b.reset

def serveAll (b : Bus δ) (rs : List (Request δ)) : Bus δ := rs.foldl serve b

/-- The id that a request gets a device. -/
def granted? (b : Bus δ) : Request δ → Option Nat
  | .attach device ports => (b.attach device ports).1
  | _ => none

/-- The ids that requests get devices. -/
def grants (b : Bus δ) : List (Request δ) → List Nat
  | [] => []
  | r :: rs => (b.granted? r).toList ++ (b.serve r).grants rs

/-- In the course of the requests, a device with these ports got the id, and it has not been removed
since. -/
def Holds (rs : List (Request δ)) (id : Nat) (ports : List Word) : Prop :=
  ∃ before device after, rs = before ++ .attach device ports :: after ∧
    (serveAll {} before).granted? (.attach device ports) = some id ∧ ∀ r ∈ after, r ≠ .detach id

/-! ### What a request does -/

section Serving

variable {b : Bus δ} {r : Request δ}

/- A request attaches a device, removes one, or leaves the wiring as it is. -/
theorem serve_cases (b : Bus δ) (r : Request δ) :
    (∃ device ports, r = .attach device ports ∧ b.slots.size < 65533 ∧
        (∀ a ∈ ports, b.table.id? a = some noDevice) ∧ b.granted? r = some b.nextId ∧
        (b.serve r).slots = b.slots.push (some device) ∧
        (b.serve r).table = b.table.assignAll ports b.nextId) ∨
      (∃ slot, r = .detach (slot + 3) ∧ b.granted? r = none ∧
        (b.serve r).slots = b.slots.setIfInBounds slot none ∧
        (b.serve r).table = b.table.release (slot + 3)) ∨
      (∀ slot, b.Occupied slot → r ≠ .detach (slot + 3)) ∧ b.granted? r = none ∧
        WiredAlike b (b.serve r) := by
  cases r with
  | attach device ports =>
    obtain ⟨room, free, id, slots, table⟩ | ⟨-, refused⟩ := b.attach_cases device ports
    · exact Or.inl ⟨device, ports, rfl, room, free, id, slots, table⟩
    · have same : b.serve (.attach device ports) = b := congrArg Prod.snd refused
      rw [same]
      exact Or.inr (Or.inr ⟨fun _ _ => nofun, congrArg Prod.fst refused, .refl b⟩)
  | detach id =>
    obtain ⟨slot, rfl, -, -, slots, table⟩ | ⟨missing, refused⟩ := b.detach_cases id
    · exact Or.inr (Or.inl ⟨slot, rfl, rfl, slots, table⟩)
    · have same : b.serve (.detach id) = b := congrArg Prod.snd refused
      rw [same]
      refine Or.inr (Or.inr ⟨fun slot occupied asked => ?_, rfl, .refl b⟩)
      exact missing slot (Request.detach.inj asked) occupied
  | read a effects =>
    exact Or.inr (Or.inr ⟨fun _ _ => nofun, rfl, b.read_wiredAlike a effects⟩)
  | write a w => exact Or.inr (Or.inr ⟨fun _ _ => nofun, rfl, b.write_wiredAlike a w⟩)
  | poll => exact Or.inr (Or.inr ⟨fun _ _ => nofun, rfl, b.poll_wiredAlike⟩)
  | tick => exact Or.inr (Or.inr ⟨fun _ _ => nofun, rfl, b.tick_wiredAlike⟩)
  | reset => exact Or.inr (Or.inr ⟨fun _ _ => nofun, rfl, b.reset_wiredAlike⟩)

theorem nextId_of_granted? {id : Nat} (granted : b.granted? r = some id) : id = b.nextId := by
  obtain ⟨_, _, -, -, -, next, -⟩ | ⟨_, -, none, -⟩ | ⟨-, none, -⟩ := b.serve_cases r
  · exact Option.some.inj (granted.symm.trans next)
  · rw [none] at granted
    cases granted
  · rw [none] at granted
    cases granted

omit [Device δ] in
theorem granted?_isSome_iff {device : δ} {ports : List Word} :
    (b.granted? (.attach device ports)).isSome ↔
      b.slots.size < 65533 ∧ ∀ a ∈ ports, b.table.id? a = some noDevice := by
  change (b.attach device ports).1.isSome ↔ _
  obtain ⟨room, free, granted, -⟩ | ⟨neither, refused⟩ := b.attach_cases device ports
  · rw [granted]
    exact iff_of_true rfl ⟨room, free⟩
  · rw [refused]
    exact iff_of_false nofun neither

theorem serve_of_refused {device : δ} {ports : List Word}
    (refused : b.granted? (.attach device ports) = none) : b.serve (.attach device ports) = b := by
  obtain ⟨-, -, granted, -⟩ | ⟨-, same⟩ := b.attach_cases device ports
  · cases granted.symm.trans refused
  · exact congrArg Prod.snd same

/- The slots that a request fills and empties. -/
theorem occupied_serve {slot : Nat} : (b.serve r).Occupied slot ↔
    (b.Occupied slot ∧ r ≠ .detach (slot + 3)) ∨ b.granted? r = some (slot + 3) := by
  obtain ⟨device, ports, rfl, -, -, granted, slots, -⟩ | ⟨removed, rfl, granted, slots, -⟩ |
    ⟨other, granted, alike⟩ := b.serve_cases r
  · have next : b.granted? (.attach device ports) = some (slot + 3) ↔ slot = b.slots.size := by
      rw [granted, Option.some.injEq, eq_comm]
      exact Nat.add_right_cancel_iff
    rw [next]
    unfold Occupied
    rw [slots, Array.getElem?_push]
    split
    · next here => exact iff_of_true ⟨device, rfl⟩ (Or.inr here)
    · next elsewhere =>
      exact ⟨fun old => Or.inl ⟨old, nofun⟩, fun h => h.elim And.left (absurd · elsewhere)⟩
  · have kept : (Request.detach (δ := δ) (removed + 3) ≠ .detach (slot + 3)) ↔ removed ≠ slot := by
      rw [ne_eq, Request.detach.injEq, Nat.add_right_cancel_iff]
    rw [granted, kept]
    unfold Occupied
    rw [slots, Array.getElem?_setIfInBounds]
    split
    · next here =>
      refine iff_of_false ?_ fun h => h.elim (fun ⟨_, other⟩ => other here) nofun
      rintro ⟨d, found⟩
      split at found <;> cases found
    · next elsewhere => exact ⟨fun old => Or.inl ⟨old, elsewhere⟩, fun h => h.elim And.left nofun⟩
  · rw [alike.occupied_iff, granted]
    exact ⟨fun old => Or.inl ⟨old, other slot old⟩, fun h => h.elim And.left nofun⟩

/- The entries that a request makes and takes away. -/
theorem Wired.id?_serve (h : b.Wired) {a : Word} {slot : Nat} :
    (b.serve r).table.id? a = some (slot + 3) ↔
      (b.table.id? a = some (slot + 3) ∧ r ≠ .detach (slot + 3)) ∨
        ∃ device ports, r = .attach device ports ∧ b.granted? r = some (slot + 3) ∧ a ∈ ports := by
  obtain ⟨device, ports, rfl, -, free, granted, -, table⟩ | ⟨removed, rfl, granted, -, table⟩ |
    ⟨other, granted, alike⟩ := b.serve_cases r
  · rw [table, PortTable.id?_assignAll, granted]
    by_cases listed : a ∈ ports
    · rw [if_pos ⟨listed, free a listed⟩, free a listed]
      constructor
      · exact fun led => Or.inr ⟨device, ports, rfl, led, listed⟩
      · rintro (⟨led, -⟩ | ⟨_, _, -, led, -⟩)
        · cases led
        · exact led
    · rw [if_neg fun led => listed led.1]
      constructor
      · exact fun led => Or.inl ⟨led, nofun⟩
      · rintro (⟨led, -⟩ | ⟨_, _, same, -, listed'⟩)
        · exact led
        · cases same
          exact absurd listed' listed
  · rw [table, PortTable.id?_release, granted]
    split
    · next led =>
      refine iff_of_false nofun ?_
      rw [led]
      rintro (⟨same, kept⟩ | ⟨_, _, -, led, -⟩)
      · rw [Option.some.inj same] at kept
        exact kept rfl
      · cases led
    · next elsewhere =>
      constructor
      · intro led
        refine Or.inl ⟨led, fun same => elsewhere ?_⟩
        rw [Request.detach.inj same]
        exact led
      · exact fun h => h.elim And.left fun ⟨_, _, _, led, _⟩ => nomatch led
  · rw [alike.table, granted]
    constructor
    · exact fun led => Or.inl ⟨led, other slot (h.leads led)⟩
    · exact fun h => h.elim And.left fun ⟨_, _, _, led, _⟩ => nomatch led

theorem size_serve (b : Bus δ) (r : Request δ) :
    (b.serve r).slots.size = b.slots.size + (b.granted? r).toList.length := by
  obtain ⟨device, ports, -, -, -, granted, slots, -⟩ | ⟨slot, -, granted, slots, -⟩ |
    ⟨-, granted, alike⟩ := b.serve_cases r
  · rw [slots, granted, Array.size_push]
    rfl
  · rw [slots, granted, Array.size_setIfInBounds]
    rfl
  · rw [alike.size, granted]
    rfl

theorem Wired.serve (h : b.Wired) (r : Request δ) : (b.serve r).Wired where
  size := by
    rw [b.size_serve]
    obtain ⟨_, _, -, room, -, granted, -⟩ | ⟨_, -, granted, -⟩ | ⟨-, granted, -⟩ := b.serve_cases r
    · rw [granted]
      exact room
    · rw [granted]
      exact h.size
    · rw [granted]
      exact h.size
  leads led := by
    rw [occupied_serve]
    obtain ⟨old, kept⟩ | ⟨_, _, -, granted, -⟩ := h.id?_serve.mp led
    · exact Or.inl ⟨h.leads old, kept⟩
    · exact Or.inr granted

theorem serveAll_wired (h : b.Wired) (rs : List (Request δ)) : (b.serveAll rs).Wired := by
  induction rs generalizing b with
  | nil => exact h
  | cons r rs ih => exact ih (h.serve r)

end Serving

/- What a port leads to is there. -/
omit [Device δ] in
theorem Wired.owner?_of_led {b : Bus δ} (h : b.Wired) {a : Word} {id : Nat}
    (led : b.table.id? a = some id) (used : id ≠ noDevice) :
    ∃ o, b.device? id = some o ∧ b.owner? a = some o := by
  have owner : b.owner? a = b.device? id := congrArg (Option.bind · b.device?) led
  rw [owner]
  match id with
  | 0 => exact absurd rfl used
  | 1 => exact ⟨_, rfl, rfl⟩
  | 2 => exact ⟨_, rfl, rfl⟩
  | slot + 3 =>
    obtain ⟨d, found⟩ := h.leads led
    have here := device?_eq_attached_iff.mpr ⟨rfl, found⟩
    exact ⟨_, here, here⟩

/-! ### The list of the attached devices -/

section Listing

variable {b : Bus δ} {device : δ} {ports : List Word} {id : Nat}

/- A new device comes last, with the ports that were asked for, and the others keep theirs. -/
theorem Wired.attached_attach (h : b.Wired)
    (granted : b.granted? (.attach device ports) = some id) :
    ∃ listed, (∀ a, a ∈ listed ↔ a ∈ ports) ∧
      (b.attach device ports).2.attached = b.attached ++ [⟨id, listed, device⟩] := by
  obtain rfl := nextId_of_granted? granted
  obtain ⟨-, -, -, slots, -⟩ | ⟨-, refused⟩ := b.attach_cases device ports
  · let t := (b.attach device ports).2.table
    refine ⟨t.portsOf b.nextId, fun a => ?_, ?_⟩
    · have led : t.id? a = some (b.slots.size + 3) ↔ _ := h.id?_serve (r := .attach device ports)
      have fresh : ¬b.table.id? a = some (b.slots.size + 3) :=
        fun old => Nat.lt_irrefl _ (h.leads old).lt
      rw [PortTable.mem_portsOf]
      refine led.trans ⟨?_, fun listed => Or.inr ⟨device, ports, rfl, granted, listed⟩⟩
      rintro (⟨old, -⟩ | ⟨_, _, same, -, listed⟩)
      · exact absurd old fresh
      · cases same
        exact listed
    · have others (slot : Nat) (d : δ) (found : b.slots.toList[slot]? = some (some d)) :
          t.portsOf (firstCustomId + slot) = b.table.portsOf (firstCustomId + slot) := by
        have before : slot < b.slots.size := by
          rw [Array.getElem?_toList] at found
          exact Occupied.lt ⟨d, found⟩
        refine PortTable.portsOf_congr fun a => ?_
        rw [Nat.add_comm]
        refine (h.id?_serve (r := .attach device ports)).trans ⟨?_, fun old => Or.inl ⟨old, nofun⟩⟩
        rintro (⟨old, -⟩ | ⟨_, _, -, new, -⟩)
        · exact old
        · have last : slot + 3 = b.slots.size + 3 := nextId_of_granted? new
          omega
      unfold attached
      rw [slots, Array.toList_push, attachments_append, attachments_congr others, attachments_some,
        Nat.add_comm firstCustomId, Array.length_toList]
      rfl
  · have none : b.granted? (.attach device ports) = none := congrArg Prod.fst refused
    rw [none] at granted
    cases granted

omit [Device δ] in
/- A removed device leaves the list, and the others keep their ports. -/
theorem attached_detach (b : Bus δ) (id : Nat) :
    (b.detach id).2.attached = b.attached.filter fun x => x.id ≠ id := by
  obtain ⟨slot, rfl, occupied, -, slots, table⟩ | ⟨missing, refused⟩ := b.detach_cases id
  · refine attachments_filter (slot + 3) (fun i => ?_) fun i other => PortTable.portsOf_congr fun a => ?_
    · have place : firstCustomId + i = slot + 3 ↔ slot = i := by
        unfold firstCustomId
        omega
      rw [slots, Array.getElem?_toList, Array.getElem?_toList, Array.getElem?_setIfInBounds]
      simp only [place]
      split
      · next here =>
        obtain ⟨d, found⟩ := occupied
        rw [if_pos (Occupied.lt ⟨d, found⟩), ← here, found]
        rfl
      · exact Option.map_id'.symm
    · rw [table, PortTable.id?_release]
      split
      · next led =>
        have used : noDevice ≠ firstCustomId + i := by
          unfold noDevice firstCustomId
          omega
        rw [led, Option.some.injEq, Option.some.injEq]
        exact iff_of_false used (Ne.symm other)
      · rfl
  · rw [refused]
    refine (List.filter_eq_self.mpr fun x hx => ?_).symm
    obtain ⟨i, d, found, rfl⟩ := mem_attached.mp hx
    exact decide_eq_true fun same => missing i same.symm ⟨d, found⟩

end Listing

/-! ### Devices that stay -/

/-- The device in a slot has exactly these ports. -/
structure Plugged (b : Bus δ) (slot : Nat) (ports : List Word) : Prop where
  occupied : b.Occupied slot
  entries : ∀ a, b.table.id? a = some (slot + 3) ↔ a ∈ ports

section Staying

variable {b : Bus δ} {slot : Nat} {ports : List Word}

omit [Device δ] in
theorem WiredAlike.plugged {b' : Bus δ} (h : WiredAlike b b') (plugged : b.Plugged slot ports) :
    b'.Plugged slot ports where
  occupied := h.occupied_iff.mpr plugged.occupied
  entries a := h.table ▸ plugged.entries a

/- The slot of a new device is the next one, to which no port leads yet. -/
theorem Wired.plugged_attach (h : b.Wired) {device : δ} {id : Nat}
    (granted : b.granted? (.attach device ports) = some id) :
    ∃ slot, id = slot + 3 ∧ (b.serve (.attach device ports)).Plugged slot ports := by
  obtain rfl := nextId_of_granted? granted
  refine ⟨b.slots.size, rfl, occupied_serve.mpr (Or.inr granted), fun a => h.id?_serve.trans ?_⟩
  constructor
  · rintro (⟨old, -⟩ | ⟨_, _, same, -, listed⟩)
    · exact absurd (h.leads old).lt (Nat.lt_irrefl _)
    · cases same
      exact listed
  · exact fun listed => Or.inr ⟨device, ports, rfl, granted, listed⟩

theorem Wired.plugged_serve (h : b.Wired) (plugged : b.Plugged slot ports) {r : Request δ}
    (kept : r ≠ .detach (slot + 3)) : (b.serve r).Plugged slot ports where
  occupied := occupied_serve.mpr (Or.inl ⟨plugged.occupied, kept⟩)
  entries a := by
    have older : b.granted? r ≠ some (slot + 3) := fun granted => by
      have last : slot + 3 = b.slots.size + 3 := nextId_of_granted? granted
      have before := plugged.occupied.lt
      omega
    rw [h.id?_serve, plugged.entries]
    exact ⟨fun led => led.elim And.left fun ⟨_, _, _, granted, _⟩ => absurd granted older,
      fun listed => Or.inl ⟨listed, kept⟩⟩

theorem Wired.plugged_serveAll (h : b.Wired) (plugged : b.Plugged slot ports)
    {rs : List (Request δ)} (kept : ∀ r ∈ rs, r ≠ .detach (slot + 3)) :
    (b.serveAll rs).Plugged slot ports := by
  induction rs generalizing b with
  | nil => exact plugged
  | cons r rs ih =>
    obtain ⟨first, rest⟩ := List.forall_mem_cons.mp kept
    exact ih (h.serve r) (h.plugged_serve plugged first) rest

end Staying

/-! ### What requests lead to -/

theorem serveAll_snoc (b : Bus δ) (rs : List (Request δ)) (r : Request δ) :
    b.serveAll (rs ++ [r]) = (b.serveAll rs).serve r := List.foldl_append

theorem holds_snoc {rs : List (Request δ)} {r : Request δ} {id : Nat} {ports : List Word} :
    Holds (rs ++ [r]) id ports ↔
      (Holds rs id ports ∧ r ≠ .detach id) ∨
        ∃ device, r = .attach device ports ∧ (serveAll {} rs).granted? r = some id := by
  constructor
  · rintro ⟨before, device, after, split, granted, kept⟩
    obtain rfl | ⟨after, r', rfl⟩ := List.eq_nil_or_concat after
    · obtain ⟨rfl, last⟩ := List.append_inj' split rfl
      cases last
      exact Or.inr ⟨device, rfl, granted⟩
    · rw [List.concat_eq_append] at split kept
      rw [← List.cons_append, ← List.append_assoc] at split
      obtain ⟨rfl, last⟩ := List.append_inj' split rfl
      cases last
      exact Or.inl ⟨⟨before, device, after, rfl, granted, fun r' hr' =>
        kept r' (List.mem_append_left _ hr')⟩, kept r (List.mem_append_right _ List.mem_cons_self)⟩
  · rintro (⟨⟨before, device, after, rfl, granted, kept⟩, last⟩ | ⟨device, rfl, granted⟩)
    · refine ⟨before, device, after ++ [r], by rw [List.append_assoc, List.cons_append], granted, ?_⟩
      intro r' hr'
      obtain earlier | later := List.mem_append.mp hr'
      · exact kept r' earlier
      · rw [List.mem_singleton.mp later]
        exact last
    · exact ⟨rs, device, [], rfl, granted, fun _ h => (List.not_mem_nil h).elim⟩

theorem not_holds_nil {id : Nat} {ports : List Word} : ¬Holds ([] : List (Request δ)) id ports := by
  rintro ⟨before, device, after, split, -⟩
  exact absurd split.symm (List.append_ne_nil_of_right_ne_nil _ (List.cons_ne_nil _ _))

/- A slot is occupied as long as a device holds its id. -/
theorem occupied_iff_holds (rs : List (Request δ)) (slot : Nat) :
    (serveAll ({} : Bus δ) rs).Occupied slot ↔ ∃ ports, Holds rs (slot + 3) ports := by
  induction rs using List.reverseRecOn with
  | nil => exact iff_of_false (fun ⟨d, found⟩ => nomatch found) fun ⟨_, held⟩ => not_holds_nil held
  | append_singleton rs r ih =>
    rw [serveAll_snoc, occupied_serve, ih]
    simp only [holds_snoc]
    constructor
    · rintro (⟨⟨ports, held⟩, kept⟩ | granted)
      · exact ⟨ports, Or.inl ⟨held, kept⟩⟩
      · cases r with
        | attach device ports => exact ⟨ports, Or.inr ⟨device, rfl, granted⟩⟩
        | _ => cases granted
    · rintro ⟨ports, ⟨held, kept⟩ | ⟨device, rfl, granted⟩⟩
      · exact Or.inl ⟨⟨ports, held⟩, kept⟩
      · exact Or.inr granted

/- A port leads to a slot as long as a device that listed the port holds the id. -/
theorem id?_iff_holds (rs : List (Request δ)) (a : Word) (slot : Nat) :
    (serveAll ({} : Bus δ) rs).table.id? a = some (slot + 3) ↔
      ∃ ports, Holds rs (slot + 3) ports ∧ a ∈ ports := by
  induction rs using List.reverseRecOn with
  | nil =>
    refine iff_of_false (fun led => ?_) fun ⟨_, held, _⟩ => not_holds_nil held
    obtain ⟨d, found⟩ := (wired_empty (δ := δ)).leads led
    cases found
  | append_singleton rs r ih =>
    rw [serveAll_snoc, (serveAll_wired wired_empty rs).id?_serve, ih]
    simp only [holds_snoc]
    constructor
    · rintro (⟨⟨ports, held, listed⟩, kept⟩ | ⟨device, ports, rfl, granted, listed⟩)
      · exact ⟨ports, Or.inl ⟨held, kept⟩, listed⟩
      · exact ⟨ports, Or.inr ⟨device, rfl, granted⟩, listed⟩
    · rintro ⟨ports, ⟨held, kept⟩ | ⟨device, rfl, granted⟩, listed⟩
      · exact Or.inl ⟨⟨ports, held, listed⟩, kept⟩
      · exact Or.inr ⟨device, ports, rfl, granted, listed⟩

/- The ids are given one after another. -/
theorem grants_eq (b : Bus δ) (rs : List (Request δ)) :
    b.grants rs = List.range' b.nextId (b.grants rs).length ∧
      (b.serveAll rs).nextId = b.nextId + (b.grants rs).length := by
  induction rs generalizing b with
  | nil => exact ⟨rfl, rfl⟩
  | cons r rs ih =>
    have next : (b.serve r).nextId = b.nextId + (b.granted? r).toList.length := by
      unfold nextId
      rw [b.size_serve, Nat.add_right_comm]
    have first : (b.granted? r).toList = List.range' b.nextId (b.granted? r).toList.length := by
      cases granted : b.granted? r with
      | none => rfl
      | some id =>
        rw [nextId_of_granted? granted]
        rfl
    obtain ⟨rest, last⟩ := ih (b.serve r)
    have length : (b.grants (r :: rs)).length =
        (b.granted? r).toList.length + ((b.serve r).grants rs).length := List.length_append
    constructor
    · calc b.grants (r :: rs)
          = List.range' b.nextId (b.granted? r).toList.length ++
              List.range' (b.serve r).nextId ((b.serve r).grants rs).length := by
            rw [← first, ← rest]
            rfl
        _ = List.range' b.nextId (b.grants (r :: rs)).length := by
            rw [next, List.range'_append_1, length]
    · rw [length, ← Nat.add_assoc, ← next]
      exact last

theorem Holds.custom {rs : List (Request δ)} {id : Nat} {ports : List Word} (h : Holds rs id ports) :
    ∃ slot, id = slot + 3 := by
  obtain ⟨before, device, after, -, granted, -⟩ := h
  exact ⟨_, nextId_of_granted? granted⟩

/- The device with an id can be removed as long as it holds the id. -/
theorem detach_iff_holds (rs : List (Request δ)) (id : Nat) :
    ((serveAll ({} : Bus δ) rs).detach id).1 = true ↔ ∃ ports, Holds rs id ports := by
  rw [detach_eq_true_iff]
  constructor
  · rintro ⟨slot, rfl, occupied⟩
    exact (occupied_iff_holds rs slot).mp occupied
  · rintro ⟨ports, held⟩
    obtain ⟨slot, rfl⟩ := held.custom
    exact ⟨slot, rfl, (occupied_iff_holds rs slot).mpr ⟨ports, held⟩⟩

/- No id is given twice. -/
theorem fresh_of_granted? {rs : List (Request δ)} {device : δ} {ports : List Word} {id : Nat}
    (granted : (serveAll ({} : Bus δ) rs).granted? (.attach device ports) = some id) :
    3 ≤ id ∧ id ≤ 65535 ∧ id ∉ grants ({} : Bus δ) rs := by
  obtain ⟨issued, next⟩ := grants_eq ({} : Bus δ) rs
  have room := (granted?_isSome_iff.mp (Option.isSome_of_eq_some granted)).1
  rw [nextId_of_granted? granted]
  refine ⟨Nat.le_add_left 3 _, Nat.add_le_add_right (Nat.le_of_lt_succ room) 3, fun again => ?_⟩
  rw [issued, List.mem_range'_1, ← next] at again
  exact Nat.lt_irrefl _ again.2

/-- How a bus is wired after any requests. In the port table, the ports of the keyboard and of the
display lead to them, and every other port leads to the device that lists it and holds its id, and to
none if there is no such device. No port dangles: what it leads to is there, and an access at the port
calls it and leaves all else as it is. A device is accepted if and only if fewer than 65533 devices were
accepted before and all its ports are free, and it gets an id that was given to none of them; a device
that is refused changes nothing. And to remove an id is to take the device that holds it from the list
and to free its ports, or nothing if there is none. -/
theorem ports_lead (rs : List (Request δ)) :
    let b : Bus δ := serveAll {} rs
    (∀ a, (b.table.id? a = some keyboardId ↔ a = kbsr ∨ a = kbdr) ∧
      (b.table.id? a = some displayId ↔ a = dsr ∨ a = ddr) ∧
      (∀ slot, b.table.id? a = some (slot + 3) ↔ ∃ ports, Holds rs (slot + 3) ports ∧ a ∈ ports) ∧
      (b.table.id? a).isSome = isPort a ∧
      (∀ id, b.table.id? a = some id → id ≠ noDevice →
        ∃ o, b.device? id = some o ∧ b.owner? a = some o) ∧
      b.Calls a (b.owner? a)) ∧
    (∀ device ports,
      ((b.granted? (.attach device ports)).isSome ↔ (grants ({} : Bus δ) rs).length < 65533 ∧
        ∀ a ∈ ports, b.table.id? a = some noDevice) ∧
      (∀ id, b.granted? (.attach device ports) = some id →
        3 ≤ id ∧ id ≤ 65535 ∧ id ∉ grants ({} : Bus δ) rs ∧
        ∃ listed, (∀ a, a ∈ listed ↔ a ∈ ports) ∧
          (b.serve (.attach device ports)).attached = b.attached ++ [⟨id, listed, device⟩]) ∧
      (b.granted? (.attach device ports) = none → b.serve (.attach device ports) = b)) ∧
    ∀ id, ((b.detach id).1 = true ↔ ∃ ports, Holds rs id ports) ∧
      ((b.detach id).1 = false → (b.detach id).2 = b) ∧
      ((b.detach id).1 = true → ∀ a, (b.detach id).2.table.id? a =
        if b.table.id? a = some id then some noDevice else b.table.id? a) ∧
      (b.detach id).2.attached = b.attached.filter fun x => x.id ≠ id := by
  intro b
  have wired : b.Wired := serveAll_wired wired_empty rs
  have accepted : b.slots.size = (grants ({} : Bus δ) rs).length := by
    have next : b.slots.size + 3 = 3 + _ := (grants_eq ({} : Bus δ) rs).2
    omega
  refine ⟨fun a => ⟨b.fixed.keyboard a, b.fixed.display a, id?_iff_holds rs a, b.table.isSome_id? a,
      fun id => wired.owner?_of_led, b.calls_owner a⟩,
    fun device ports => ⟨accepted ▸ granted?_isSome_iff, fun id granted => ?_, serve_of_refused⟩,
    fun id => ⟨detach_iff_holds rs id, b.detach_of_eq_false, b.id?_detach, b.attached_detach id⟩⟩
  obtain ⟨low, high, fresh⟩ := fresh_of_granted? granted
  exact ⟨low, high, fresh, wired.attached_attach granted⟩

/- A port that was freed is led to the next device, and the id of the last one stays used up. -/
example :
    let b := ((({} : Bus Unit).attach () [0xFE10]).2.detach 3).2.attach () [0xFE10, 0xFE10]
    b.1 = some 4 ∧ b.2.table.id? 0xFE10 = some 4 ∧ (b.2.detach 3).1 = false := by decide +kernel

end Bus

end Lc3
