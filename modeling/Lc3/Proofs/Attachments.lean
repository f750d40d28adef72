import Lc3.Device.Bus

/-!
# The attached devices

The attached devices as a list, each with its id and its ports (`Bus.attached`). The list is read off
the slots and the port table, and says all that matters of them: which device an access at a port calls
(`Bus.owner?_eq_attached_iff_mem`), and what becomes of the devices when one of them is called
(`Bus.attached_setDevice`) and when all are (`Bus.attached_mapDevices`).
-/

namespace Lc3

variable {δ : Type}

/-- A device on the bus, with its id and its ports. -/
structure Attachment (δ : Type) where
  id : Nat
  ports : List Word
  device : δ

/- The device changed, with its id and its ports. -/
def Attachment.changed (f : δ → δ) (x : Attachment δ) : Attachment δ := { x with device := f x.device }

/-- The ports that lead to a device, in order of address. -/
def PortTable.portsOf (t : PortTable) (id : Nat) : List Word :=
  ((List.range 512).map fun i => ioStart + BitVec.ofNat 16 i).filter fun a => t.id? a = some id

theorem PortTable.portsOf_congr {t t' : PortTable} {id : Nat}
    (h : ∀ a, t'.id? a = some id ↔ t.id? a = some id) : t'.portsOf id = t.portsOf id := by
  unfold portsOf
  simp only [h]

theorem PortTable.mem_portsOf {t : PortTable} {id : Nat} {a : Word} :
    a ∈ t.portsOf id ↔ t.id? a = some id := by
  unfold portsOf
  rw [List.mem_filter, decide_eq_true_eq, and_iff_right_iff_imp]
  intro led
  have port := PortTable.isPort_of_id? led
  unfold isPort ioStart at port
  rw [decide_eq_true_eq] at port
  refine List.mem_map.mpr ⟨a.toNat - 0xFE00, List.mem_range.mpr (by bv_omega), ?_⟩
  unfold ioStart
  apply BitVec.eq_of_toNat_eq
  bv_omega

namespace Bus

/-- The devices in consecutive slots, of which the first gives an id. -/
def attachments (t : PortTable) : (id : Nat) → List (Option δ) → List (Attachment δ)
  | _, [] => []
  | id, none :: slots => attachments t (id + 1) slots
  | id, some d :: slots => ⟨id, t.portsOf id, d⟩ :: attachments t (id + 1) slots

/-- The attached devices, in the order of their ids. -/
def attached (b : Bus δ) : List (Attachment δ) := attachments b.table firstCustomId b.slots.toList

/-! ### The list -/

section Attachments

variable {t : PortTable} {id : Nat} {slots : List (Option δ)}

theorem attachments_none : attachments t id (none :: slots) = attachments t (id + 1) slots := rfl

theorem attachments_some {d : δ} : attachments t id (some d :: slots) =
    ⟨id, t.portsOf id, d⟩ :: attachments t (id + 1) slots := rfl

theorem mem_attachments {x : Attachment δ} : x ∈ attachments t id slots ↔
    ∃ i d, slots[i]? = some (some d) ∧ x = ⟨id + i, t.portsOf (id + i), d⟩ := by
  induction slots generalizing id with
  | nil =>
    refine ⟨fun h => (List.not_mem_nil h).elim, ?_⟩
    rintro ⟨i, d, h, -⟩
    rw [List.getElem?_nil] at h
    cases h
  | cons slot slots ih =>
    have later : (∃ i d, (slot :: slots)[i + 1]? = some (some d) ∧
        x = ⟨id + (i + 1), t.portsOf (id + (i + 1)), d⟩) ↔ x ∈ attachments t (id + 1) slots := by
      rw [ih]
      simp only [List.getElem?_cons_succ, Nat.add_assoc, Nat.add_comm 1]
    constructor
    · intro h
      cases slot with
      | none =>
        obtain ⟨i, d, hi, rfl⟩ := later.mpr h
        exact ⟨i + 1, d, hi, rfl⟩
      | some d =>
        obtain rfl | h := List.mem_cons.mp h
        · exact ⟨0, d, rfl, rfl⟩
        · obtain ⟨i, d', hi, rfl⟩ := later.mpr h
          exact ⟨i + 1, d', hi, rfl⟩
    · rintro ⟨i, d, hi, rfl⟩
      cases i with
      | zero =>
        cases Option.some.inj hi
        exact List.mem_cons_self
      | succ i =>
        have h := later.mp ⟨i, d, hi, rfl⟩
        cases slot with
        | none => exact h
        | some _ => exact List.mem_cons_of_mem _ h

theorem pairwise_attachments (t : PortTable) (id : Nat) (slots : List (Option δ)) :
    (attachments t id slots).Pairwise fun x y => x.id < y.id := by
  induction slots generalizing id with
  | nil => exact .nil
  | cons slot slots ih =>
    cases slot with
    | none => exact ih (id + 1)
    | some d =>
      refine .cons (fun y hy => ?_) (ih (id + 1))
      obtain ⟨i, d', -, rfl⟩ := mem_attachments.mp hy
      change id < id + 1 + i
      omega

theorem map_device_attachments (t : PortTable) (id : Nat) (slots : List (Option δ)) :
    (attachments t id slots).map Attachment.device = slots.filterMap fun slot => slot := by
  induction slots generalizing id with
  | nil => rfl
  | cons slot slots ih =>
    cases slot with
    | none => exact ih (id + 1)
    | some d => exact congrArg (d :: ·) (ih (id + 1))

/- Devices that change in their slots or leave them. -/
theorem attachments_filterMap {t' : PortTable} {slots' : List (Option δ)} (f : Nat → δ → Option δ)
    (changed : ∀ i, slots'[i]? = slots[i]?.map fun slot => Option.bind slot (f (id + i)))
    (ports : ∀ i d d', slots[i]? = some (some d) → f (id + i) d = some d' →
      t'.portsOf (id + i) = t.portsOf (id + i)) :
    attachments t' id slots' = (attachments t id slots).filterMap fun x =>
      (f x.id x.device).map fun d => x.changed fun _ => d := by
  induction slots generalizing id slots' with
  | nil =>
    cases slots' with
    | nil => rfl
    | cons slot' slots' => cases changed 0
  | cons slot slots ih =>
    cases slots' with
    | nil => cases changed 0
    | cons slot' slots' =>
      have place (i : Nat) : id + (i + 1) = id + 1 + i := by omega
      have first : slot' = slot.bind (f id) := Option.some.inj (changed 0)
      have rest : attachments t' (id + 1) slots' = (attachments t (id + 1) slots).filterMap fun x =>
          (f x.id x.device).map fun d => x.changed fun _ => d := ih
        (fun i => by
          have next := changed (i + 1)
          rwa [List.getElem?_cons_succ, List.getElem?_cons_succ, place] at next)
        (fun i d d' found stays => by
          have next := ports (i + 1) d d' found
          rw [place] at next
          exact next stays)
      rw [first]
      cases slot with
      | none => rw [Option.bind_none, attachments_none, attachments_none, rest]
      | some d =>
        rw [Option.bind_some, attachments_some, List.filterMap_cons]
        cases stays : f id d with
        | none =>
          rw [attachments_none, rest]
          rfl
        | some d' =>
          have same : t'.portsOf id = t.portsOf id := ports 0 d d' rfl stays
          rw [attachments_some, rest, same, Option.map_some, Attachment.changed]

theorem attachments_changed {slots' : List (Option δ)} (f : Nat → δ → δ)
    (changed : ∀ i, slots'[i]? = slots[i]?.map (Option.map (f (id + i)))) :
    attachments t id slots' = (attachments t id slots).map fun x => x.changed (f x.id) := by
  have bound (i : Nat) : slots'[i]? = slots[i]?.map fun slot =>
      Option.bind slot fun d => some (f (id + i) d) := by
    rw [changed]
    exact congrArg (Option.map · slots[i]?) (funext fun slot => Option.map_eq_bind)
  rw [attachments_filterMap (fun i d => some (f i d)) bound fun _ _ _ _ _ => rfl,
    ← List.filterMap_eq_map]
  rfl

/- The slot of one device is emptied, and the others keep their ports. -/
theorem attachments_filter {t' : PortTable} {slots' : List (Option δ)} (removed : Nat)
    (emptied : ∀ i, slots'[i]? = slots[i]?.map fun slot => if id + i = removed then none else slot)
    (ports : ∀ i, id + i ≠ removed → t'.portsOf (id + i) = t.portsOf (id + i)) :
    attachments t' id slots' = (attachments t id slots).filter fun x => x.id ≠ removed := by
  let kept (id : Nat) (d : δ) : Option δ := if id = removed then none else some d
  have bound (i : Nat) : slots'[i]? = slots[i]?.map fun slot => Option.bind slot (kept (id + i)) := by
    rw [emptied]
    refine congrArg (Option.map · slots[i]?) (funext fun slot => ?_)
    unfold kept
    by_cases here : id + i = removed
    · simp only [if_pos here, Option.bind_fun_none]
    · simp only [if_neg here, Option.bind_fun_some]
  rw [attachments_filterMap kept bound fun i d d' _ stays => ports i fun here => ?_,
    ← List.filterMap_eq_filter]
  · congr 1
    funext x
    unfold kept Option.guard
    by_cases here : x.id = removed <;> simp [here, Attachment.changed]
  · unfold kept at stays
    rw [if_pos here] at stays
    cases stays

/- Neither table leads a port to one of the devices that the other does not. -/
theorem attachments_congr {t' : PortTable}
    (ports : ∀ i d, slots[i]? = some (some d) → t'.portsOf (id + i) = t.portsOf (id + i)) :
    attachments t' id slots = attachments t id slots := by
  have bound (i : Nat) : slots[i]? = slots[i]?.map fun slot => Option.bind slot some := by
    have kept : (fun slot : Option δ => slot.bind some) = fun slot => slot :=
      funext Option.bind_fun_some
    rw [kept]
    exact Option.map_id'.symm
  rw [attachments_filterMap (fun _ d => some d) bound fun i d _ found _ => ports i d found]
  exact List.filterMap_some

theorem attachments_append (t : PortTable) (id : Nat) (slots slots' : List (Option δ)) :
    attachments t id (slots ++ slots') =
      attachments t id slots ++ attachments t (id + slots.length) slots' := by
  induction slots generalizing id with
  | nil => rfl
  | cons slot slots ih =>
    have place : id + (slot :: slots).length = id + 1 + slots.length := by
      rw [List.length_cons, Nat.add_assoc, Nat.add_comm 1]
    cases slot with
    | none => rw [place, List.cons_append, attachments_none, attachments_none, ih]
    | some d => rw [place, List.cons_append, attachments_some, attachments_some, ih, List.cons_append]

end Attachments

variable {b : Bus δ}

theorem mem_attached {x : Attachment δ} : x ∈ b.attached ↔
    ∃ i d, b.slots[i]? = some (some d) ∧ x = ⟨i + 3, b.table.portsOf (i + 3), d⟩ := by
  unfold attached firstCustomId
  rw [mem_attachments]
  refine exists_congr fun i => ?_
  rw [Array.getElem?_toList, Nat.add_comm 3]

theorem mem_ports_iff {x : Attachment δ} (h : x ∈ b.attached) {a : Word} :
    a ∈ x.ports ↔ b.table.id? a = some x.id := by
  obtain ⟨i, d, -, rfl⟩ := mem_attached.mp h
  rw [PortTable.mem_portsOf]

/-- The ids increase. -/
theorem pairwise_attached (b : Bus δ) : b.attached.Pairwise fun x y => x.id < y.id :=
  pairwise_attachments b.table firstCustomId b.slots.toList

theorem map_device_attached (b : Bus δ) : b.attached.map Attachment.device = b.devices :=
  map_device_attachments b.table firstCustomId b.slots.toList

theorem attached_eq_nil_iff : b.attached = [] ↔ ∀ (i : Nat) (d : δ), b.slots[i]? ≠ some (some d) := by
  rw [List.eq_nil_iff_forall_not_mem]
  constructor
  · exact fun h i d found => h _ (mem_attached.mpr ⟨i, d, found, rfl⟩)
  · intro h x hx
    obtain ⟨i, d, found, -⟩ := mem_attached.mp hx
    exact h i d found

/-! ### Owners -/

section Owners

variable {a : Word}

theorem owner?_eq_keyboard_iff : b.owner? a = some .keyboard ↔ a = kbsr ∨ a = kbdr := by
  refine ⟨fun h => ?_, fun h => Option.bind_eq_some_iff.mpr ⟨_, (b.fixed.keyboard a).mpr h, rfl⟩⟩
  obtain ⟨id, led, found⟩ := Option.bind_eq_some_iff.mp h
  match id with
  | 0 | 2 => cases found
  | 1 => exact (b.fixed.keyboard a).mp led
  | j + 3 =>
    obtain ⟨d, -, same⟩ := Option.map_eq_some_iff.mp found
    cases same

theorem owner?_eq_display_iff : b.owner? a = some .display ↔ a = dsr ∨ a = ddr := by
  refine ⟨fun h => ?_, fun h => Option.bind_eq_some_iff.mpr ⟨_, (b.fixed.display a).mpr h, rfl⟩⟩
  obtain ⟨id, led, found⟩ := Option.bind_eq_some_iff.mp h
  match id with
  | 0 | 1 => cases found
  | 2 => exact (b.fixed.display a).mp led
  | j + 3 =>
    obtain ⟨d, -, same⟩ := Option.map_eq_some_iff.mp found
    cases same

theorem device?_eq_attached_iff {id i : Nat} {d : δ} :
    b.device? id = some (.attached i d) ↔ id = i + 3 ∧ b.slots[i]? = some (some d) := by
  match id with
  | 0 | 1 | 2 =>
    refine iff_of_false (fun h => ?_) (by omega)
    cases h
  | j + 3 =>
    change b.slots[j]?.join.map (PortOwner.attached j) = _ ↔ _
    rw [Option.map_eq_some_iff, Nat.add_right_cancel_iff]
    constructor
    · rintro ⟨d', found, same⟩
      cases same
      exact ⟨rfl, Option.join_eq_some_iff.mp found⟩
    · rintro ⟨rfl, found⟩
      exact ⟨d, Option.join_eq_some_iff.mpr found, rfl⟩

theorem owner?_eq_attached_iff {i : Nat} {d : δ} : b.owner? a = some (.attached i d) ↔
    b.table.id? a = some (i + 3) ∧ b.slots[i]? = some (some d) := by
  unfold owner?
  rw [Option.bind_eq_some_iff]
  constructor
  · rintro ⟨id, led, found⟩
    obtain ⟨rfl, slot⟩ := device?_eq_attached_iff.mp found
    exact ⟨led, slot⟩
  · rintro ⟨led, found⟩
    exact ⟨i + 3, led, device?_eq_attached_iff.mpr ⟨rfl, found⟩⟩

/-- An access at a port calls the attached device that has the port. -/
theorem owner?_eq_attached_iff_mem {i : Nat} {d : δ} : b.owner? a = some (.attached i d) ↔
    ∃ x ∈ b.attached, x.id = i + 3 ∧ x.device = d ∧ a ∈ x.ports := by
  rw [owner?_eq_attached_iff]
  constructor
  · rintro ⟨led, found⟩
    have hx := mem_attached.mpr ⟨i, d, found, rfl⟩
    exact ⟨_, hx, rfl, rfl, (mem_ports_iff hx).mpr led⟩
  · rintro ⟨x, hx, id, rfl, has⟩
    have led := (mem_ports_iff hx).mp has
    obtain ⟨j, d, found, rfl⟩ := mem_attached.mp hx
    obtain rfl : j = i := Nat.add_right_cancel id
    exact ⟨led, found⟩

theorem owner?_ne_attached (bare : b.attached = []) {i : Nat} {d : δ} :
    b.owner? a ≠ some (.attached i d) := fun h =>
  attached_eq_nil_iff.mp bare i d (owner?_eq_attached_iff.mp h).2

end Owners

/-! ### Changes of the list -/

/- The device in a slot is the only one that changes. -/
theorem attached_setDevice {i : Nat} {d : δ} (found : b.slots[i]? = some (some d)) (f : δ → δ) :
    (b.setDevice i (f d)).attached =
      b.attached.map fun x => if x.id = i + 3 then x.changed f else x := by
  have slots (j : Nat) : (b.setDevice i (f d)).slots.toList[j]? =
      b.slots.toList[j]?.map (Option.map fun d => if firstCustomId + j = i + 3 then f d else d) := by
    unfold setDevice firstCustomId
    rw [Array.getElem?_toList, Array.getElem?_toList, Array.getElem?_setIfInBounds]
    by_cases here : i = j
    · subst here
      have inside : i < b.slots.size := (Array.getElem?_eq_some_iff.mp found).1
      rw [if_pos rfl, if_pos inside, found, Option.map_some, Option.map_some, Nat.add_comm,
        if_pos rfl]
    · rw [if_neg here]
      have other : 3 + j ≠ i + 3 := by omega
      have same : (Option.map fun d : δ => if 3 + j = i + 3 then f d else d) = id := by
        funext slot
        cases slot with
        | none => rfl
        | some d => exact congrArg some (if_neg other)
      rw [same, Option.map_id_fun, id]
  refine (attachments_changed (fun id d => if id = i + 3 then f d else d) slots).trans ?_
  refine List.map_congr_left fun x _ => ?_
  unfold Attachment.changed
  split <;> rfl

theorem attached_mapDevices (b : Bus δ) (f : δ → δ) :
    (b.mapDevices f).attached = b.attached.map (·.changed f) :=
  attachments_changed (fun _ => f) fun i => by
    rw [Array.getElem?_toList, Array.getElem?_toList]
    exact Array.getElem?_map ..

theorem mapDevices_eq_self {f : δ → δ} (same : ∀ x ∈ b.attached, f x.device = x.device) :
    b.mapDevices f = b := by
  have slots : b.slots.map (Option.map f) = b.slots := by
    refine Array.ext_getElem? fun i => ?_
    rw [Array.getElem?_map]
    cases found : b.slots[i]? with
    | none => rfl
    | some slot =>
      cases slot with
      | none => rfl
      | some d =>
        have unmoved : f d = d := same _ (mem_attached.mpr ⟨i, d, found, rfl⟩)
        rw [Option.map_some, Option.map_some, unmoved]
  unfold mapDevices
  rw [slots]

end Bus

end Lc3
