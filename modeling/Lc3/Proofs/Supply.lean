import Lc3.Proofs.Attachments
import Lc3.Proofs.Log

/-!
# What a step takes from the keyboard

A read of the keyboard's data register consumes the byte in front of the queue, if the keyboard is
ready. A step can reach this register with its fetch, with a pointer, with an operand and from the
stack, but a byte that it gets is below all that it could read with it next: as an instruction it is a
branch that is never taken, and as a pointer it leads to plain memory. So an instruction consumes one
byte at most, and does not fault any more when it has (`draws_execute`), and the same holds of a whole
step (`step_supply`).
-/

namespace Lc3

variable {δ α β : Type}

/-! ### Bytes in a log -/

/- The byte that an event tells of. -/
def Event.byte? : Event → Option Byte
  | .consumed b _ => some b
  | _ => none

/-- The bytes that were consumed according to a log, the first one first. -/
def consumption (events : Array Event) : List Byte := events.toList.filterMap Event.byte?

theorem consumption_eq_nil {events : Array Event} (h : ∀ e ∈ events, e.byte? = none) :
    consumption events = [] :=
  List.filterMap_eq_nil_iff.mpr fun e he => h e (Array.mem_toList_iff.mp he)

theorem consumption_append (events events' : Array Event) :
    consumption (events ++ events') = consumption events ++ consumption events' := by
  unfold consumption
  rw [Array.toList_append, List.filterMap_append]

theorem consumption_appendList (events : Array Event) (es : List Event) :
    consumption (events ++ es) = consumption events ++ es.filterMap Event.byte? := by
  unfold consumption
  rw [Array.toList_appendList, List.filterMap_append]

theorem consumption_push (events : Array Event) {e : Event} (h : e.byte? = none) :
    consumption (events.push e) = consumption events := by
  unfold consumption
  rw [Array.toList_push, List.filterMap_append, List.filterMap_cons_none h, List.filterMap_nil,
    List.append_nil]

/-! ### The keyboard -/

namespace Keyboard

/- What the keyboard has for the program and when, whether it may interrupt or not. -/
def supply (k : Keyboard) : Keyboard := { k with interrupts := false }

theorem queue_of_supply {k k' : Keyboard} (h : k'.supply = k.supply) : k'.queue = k.queue := by
  have queue := congrArg Keyboard.queue h
  exact queue

theorem ready_iff {k : Keyboard} : k.ready = true ↔ k.queue ≠ [] ∧ k.cooldown = 0 := by
  unfold ready
  cases k.queue <;> simp

theorem ready_of_supply {k k' : Keyboard} (h : k'.supply = k.supply) : k'.ready = k.ready := by
  have ready := congrArg Keyboard.ready h
  exact ready

theorem supply_write (k : Keyboard) (a w : Word) : (k.write a w).2.supply = k.supply := by
  unfold write
  split <;> rfl

theorem read_of_ne (k : Keyboard) {a : Word} (h : a ≠ kbdr) (effects : Bool) :
    (k.read a effects).2 = k := by
  unfold read
  rw [if_neg h]
  split <;> rfl

theorem write_of_ne (k : Keyboard) {a : Word} (h : a ≠ kbsr) (w : Word) : (k.write a w).2 = k := by
  unfold write
  rw [if_neg h]

theorem queue_tick (k : Keyboard) : k.tick.queue = k.queue := by
  unfold tick
  split <;> rfl

theorem ready_of_consume? {k rest : Keyboard} {b : Byte} (h : k.consume? = some (b, rest)) :
    k.ready = true ∧ k.queue = b :: rest.queue := by
  refine ⟨by rw [ready_iff_consume?, h]; rfl, ?_⟩
  unfold consume? at h
  split at h
  · cases h
  · next queue =>
    split at h
    · cases h
      exact queue
    · cases h

theorem interrupts_of_consume? {k rest : Keyboard} {b : Byte} (h : k.consume? = some (b, rest)) :
    rest.interrupts = k.interrupts := by
  unfold consume? at h
  split at h
  · cases h
  · split at h
    · cases h
      rfl
    · cases h

end Keyboard

variable [Device δ]

namespace Bus

variable (b : Bus δ)

theorem read_keyboard_of_ne {a : Word} (h : a ≠ kbdr) (effects : Bool) :
    (b.read a effects).bus.keyboard = b.keyboard ∧ (b.read a effects).events = [] := by
  have other : (a == kbdr) = false := beq_eq_false_iff_ne.mpr h
  unfold read
  split
  · exact ⟨rfl, rfl⟩
  · dsimp only
    rw [other, Bool.and_false]
    exact ⟨b.keyboard.read_of_ne h effects, rfl⟩
  · exact ⟨rfl, rfl⟩
  · exact ⟨rfl, rfl⟩

theorem read_inspection (a : Word) : (b.read a false).bus.keyboard = b.keyboard := by
  unfold read
  split
  · rfl
  · exact b.keyboard.read_inspection a
  · rfl
  · rfl

/- Only a read of the data register with effects takes a byte. -/
theorem read_untaken {a : Word} {effects : Bool} (h : (a == kbdr && effects) = false) :
    (b.read a effects).bus.keyboard = b.keyboard ∧ (b.read a effects).events = [] := by
  rcases Bool.and_eq_false_iff.mp h with elsewhere | inspects
  · exact b.read_keyboard_of_ne (beq_eq_false_iff_ne.mp elsewhere) effects
  · rw [inspects]
    refine ⟨b.read_inspection a, ?_⟩
    unfold read
    split <;> rfl

theorem read_kbdr_of_none (h : b.keyboard.consume? = none) : b.read kbdr true = ⟨none, b, []⟩ := by
  have read : b.keyboard.read kbdr true = (none, b.keyboard) := by
    unfold Keyboard.read
    rw [if_neg (by decide), if_pos rfl, h]
  unfold Bus.read
  rw [owner?_eq_keyboard_iff.mpr (Or.inr rfl)]
  dsimp only
  rw [read, h]
  rfl

theorem read_kbdr_of_some {x : Byte} {rest : Keyboard} (h : b.keyboard.consume? = some (x, rest)) :
    b.read kbdr true =
      ⟨some (x.setWidth 16), { b with keyboard := rest }, [.consumed x rest.queue.length]⟩ := by
  have read : b.keyboard.read kbdr true = (some (x.setWidth 16), rest) := by
    unfold Keyboard.read
    rw [if_neg (by decide), if_pos rfl, h]
    rfl
  unfold Bus.read
  rw [owner?_eq_keyboard_iff.mpr (Or.inr rfl)]
  dsimp only
  rw [read, h]
  rfl

/- The keyboard has its ports for itself. -/
theorem read_keyboard (a : Word) (effects : Bool) :
    (b.read a effects).bus.keyboard = (b.keyboard.read a effects).2 := by
  by_cases here : a = kbdr
  · subst here
    unfold read
    rw [owner?_eq_keyboard_iff.mpr (Or.inr rfl)]
  · rw [(b.read_keyboard_of_ne here effects).1, b.keyboard.read_of_ne here effects]

theorem write_keyboard (a w : Word) : (b.write a w).2.keyboard = (b.keyboard.write a w).2 := by
  have elsewhere (h : b.owner? a ≠ some .keyboard) : b.keyboard = (b.keyboard.write a w).2 := by
    have apart : a ≠ kbsr := by
      rintro rfl
      exact h (owner?_eq_keyboard_iff.mpr (Or.inl rfl))
    exact (b.keyboard.write_of_ne apart w).symm
  unfold write
  split
  · next none => exact elsewhere (by rw [none]; exact nofun)
  · rfl
  · next display => exact elsewhere (by rw [display]; exact nofun)
  · next other => exact elsewhere (by rw [other]; exact nofun)

theorem supply_write (a w : Word) : (b.write a w).2.keyboard.supply = b.keyboard.supply := by
  rw [write_keyboard]
  exact b.keyboard.supply_write a w

end Bus

namespace Machine

variable (m : Machine δ)

theorem load_keyboard_of_ne {a : Word} (h : a ≠ kbdr) (effects : Bool) :
    (m.load a effects).machine.bus.keyboard = m.bus.keyboard ∧ (m.load a effects).events = [] := by
  have read := m.bus.read_keyboard_of_ne h effects
  unfold load
  split
  · exact ⟨rfl, rfl⟩
  · split
    · exact ⟨rfl, rfl⟩
    · split
      · dsimp only
        split
        · exact read
        · exact read
      · exact ⟨rfl, rfl⟩

theorem store_supply (a w : Word) :
    (m.store a w).bus.keyboard.supply = m.bus.keyboard.supply := by
  rw [store_bus]
  split
  · exact m.bus.supply_write a w
  · rfl

/- The program reads what is stored, or consumes a byte. -/
theorem load_kbdr :
    (m.load kbdr true).machine.bus.keyboard = m.bus.keyboard ∧ (m.load kbdr true).events = [] ∨
      ∃ b rest, m.bus.keyboard.consume? = some (b, rest) ∧
        m.load kbdr true = ⟨b.setWidth 16,
          { m with bus := { m.bus with keyboard := rest } }.stored kbdr (b.setWidth 16),
          [.consumed b rest.queue.length]⟩ := by
  unfold load
  rw [if_neg (by decide), if_neg (by decide), if_pos (by decide)]
  cases h : m.bus.keyboard.consume? with
  | none =>
    rw [m.bus.read_kbdr_of_none h]
    exact Or.inl ⟨rfl, rfl⟩
  | some x =>
    obtain ⟨b, rest⟩ := x
    rw [m.bus.read_kbdr_of_some h]
    exact Or.inr ⟨b, rest, rfl, rfl⟩

end Machine

/-! ### Parts that consume nothing, and parts that consume a byte -/

/- The keyboard has as much as before, and nothing was consumed. -/
structure Still (p q : Progress δ) : Prop where
  supply : q.machine.bus.keyboard.supply = p.machine.bus.keyboard.supply
  told : consumption q.events = consumption p.events

/- The byte in front was consumed, and the cell of the data register shows it. -/
structure Took (b : Byte) (p q : Progress δ) : Prop where
  ready : p.machine.bus.keyboard.ready = true
  front : p.machine.bus.keyboard.queue = b :: q.machine.bus.keyboard.queue
  shown : q.machine.memory.get kbdr = b.setWidth 16
  told : consumption q.events = consumption p.events ++ [b]

/- The end of a part that consumes one byte at most, and none if it faults. -/
def Drawn (p : Progress δ) : EStateM.Result Fault (Progress δ) α → Prop
  | .ok _ q => Still p q ∨ ∃ b, Took b p q
  | .error _ q => Still p q

section Ends

omit [Device δ]

variable {p q r : Progress δ} {b : Byte}

theorem closed_still : Cycle.Closed (Still (δ := δ)) where
  refl _ := ⟨rfl, rfl⟩
  trans h h' := ⟨h'.supply.trans h.supply, h'.told.trans h.told⟩

theorem Still.took (h : Still p q) (h' : Took b q r) : Took b p r where
  ready := (Keyboard.ready_of_supply h.supply).symm.trans h'.ready
  front := (Keyboard.queue_of_supply h.supply).symm.trans h'.front
  shown := h'.shown
  told := by rw [h'.told, h.told]

theorem Took.still (h : Took b p q) (h' : Still q r)
    (cell : r.machine.memory.get kbdr = q.machine.memory.get kbdr) : Took b p r where
  ready := h.ready
  front := by rw [Keyboard.queue_of_supply h'.supply, h.front]
  shown := cell.trans h.shown
  told := by rw [h'.told, h.told]

theorem Still.drawn (h : Still p q) {e : EStateM.Result Fault (Progress δ) α} (h' : Drawn q e) :
    Drawn p e := by
  cases e with
  | ok a r => exact h'.imp (closed_still.trans h) fun ⟨b, took⟩ => ⟨b, h.took took⟩
  | error f r => exact closed_still.trans h h'

end Ends

/-! ### Accesses -/

section Accesses

variable (p : Progress δ)

theorem still_loaded {a : Word} (h : a ≠ kbdr) : Still p (p.loaded a) := by
  obtain ⟨keyboard, silent⟩ := p.machine.load_keyboard_of_ne h true
  refine ⟨congrArg Keyboard.supply keyboard, ?_⟩
  unfold Progress.loaded
  rw [silent, consumption_appendList, consumption_push _ rfl]
  exact List.append_nil _

theorem still_stored (a w : Word) : Still p (p.stored a w) :=
  ⟨p.machine.store_supply a w, consumption_push _ rfl⟩

/- A read consumes nothing, or it is a read of the data register and gets the byte. -/
theorem loaded_cases (a : Word) :
    Still p (p.loaded a) ∨
      a = kbdr ∧ ∃ b, Took b p (p.loaded a) ∧ (p.machine.load a true).word = b.setWidth 16 := by
  by_cases here : a = kbdr
  · subst here
    obtain ⟨keyboard, silent⟩ | ⟨b, rest, consumed, load⟩ := p.machine.load_kbdr
    · refine Or.inl ⟨congrArg Keyboard.supply keyboard, ?_⟩
      unfold Progress.loaded
      rw [silent, consumption_appendList, consumption_push _ rfl]
      exact List.append_nil _
    · obtain ⟨ready, front⟩ := Keyboard.ready_of_consume? consumed
      unfold Progress.loaded
      rw [load]
      refine Or.inr ⟨rfl, b, ⟨ready, front, Bank.get_set_self _ _ _, ?_⟩, rfl⟩
      rw [consumption_appendList, consumption_push _ rfl]
      rfl
  · exact Or.inl (still_loaded p here)

theorem still_entered {vector : Word} (h : vector ≠ kbdr) (priority : Option (BitVec 3)) :
    Still p (p.entered vector priority) := by
  let c := p.machine.core.supervisor
  have start : Still p ⟨p.machine.withCore (c.descend c.sp), p.events⟩ := ⟨rfl, rfl⟩
  have pushed := closed_still.trans start (closed_still.trans
    (still_stored _ (c.sp - 1) p.machine.psr.word) (still_stored _ (c.sp - 2) p.machine.pc))
  have poised : Still p ⟨p.machine.poised priority, _⟩ := ⟨pushed.supply, pushed.told⟩
  have loaded := closed_still.trans poised (still_loaded _ h)
  exact ⟨loaded.supply, loaded.told⟩

theorem still_accepted : Still p p.accepted := by
  unfold Progress.accepted
  split
  · exact ⟨rfl, rfl⟩
  · next i _ =>
    let q := ({ p with machine := p.machine.polled } : Progress δ).noted (.interrupted i)
    have noted : Still p q := ⟨rfl, consumption_push _ rfl⟩
    exact closed_still.trans noted (still_entered q (kbdr_ne_interruptVector i.vector).symm _)

/- A return pops from two addresses, and one of them at most is the data register. -/
theorem returned_drawn (halts : Bool) : Drawn p (.ok halts p.returned) := by
  let first := p.loaded p.machine.core.sp
  let second := first.loaded (p.machine.core.sp + 1)
  have ends : Still second p.returned ∧
      p.returned.machine.memory.get kbdr = second.machine.memory.get kbdr := by
    unfold Progress.returned Machine.returned
    dsimp only
    split <;> exact ⟨⟨rfl, rfl⟩, rfl⟩
  obtain still | ⟨here, b, took, -⟩ := loaded_cases p p.machine.core.sp
  · obtain still' | ⟨-, b, took, -⟩ := loaded_cases first (p.machine.core.sp + 1)
    · exact Or.inl (closed_still.trans still (closed_still.trans still' ends.1))
    · exact Or.inr ⟨b, still.took (took.still ends.1 ends.2)⟩
  · have beside : p.machine.core.sp + 1 ≠ kbdr := by
      rw [here]
      decide
    have cell : second.machine.memory.get kbdr = first.machine.memory.get kbdr := by
      have memory := first.machine.load_memory (p.machine.core.sp + 1) kbdr true
      rw [if_neg beside] at memory
      exact memory
    exact Or.inr ⟨b, (took.still (still_loaded first beside) cell).still ends.1 ends.2⟩

end Accesses

/-! ### Instructions -/

namespace Cycle

/-- The part consumes one byte at most, and none if it faults. -/
def Draws (c : Cycle δ α) : Prop := ∀ p, Drawn p (c.run p)

/- Where the program may access everything, the part completes, consumes nothing, and leaves the cell
of the data register alone. -/
def Settles (c : Cycle δ α) : Prop :=
  ∀ p, p.machine.access.privileged = true → ∃ a q, c.run p = .ok a q ∧ Still p q ∧
    q.machine.memory.get kbdr = p.machine.memory.get kbdr

omit [Device δ] in
theorem Keeps.draws {c : Cycle δ α} (h : Keeps Still c) : Draws c := by
  intro p
  have hp := h p
  cases hc : c.run p with
  | ok a q =>
    rw [hc] at hp
    exact Or.inl hp
  | error f q =>
    rw [hc] at hp
    exact hp

omit [Device δ] in
theorem draws_bind {c : Cycle δ α} {k : α → Cycle δ β} (hc : Keeps Still c)
    (hk : ∀ a, Draws (k a)) : Draws (c >>= k) := by
  intro p
  cases h : c.run p with
  | ok a q =>
    rw [run_bind_of_ok h]
    exact (hc.of_ok h).drawn (hk a q)
  | error f q =>
    rw [run_bind_of_error h]
    exact hc.of_error h

/- A read that consumes a byte gets that byte, and what follows it must settle then. -/
theorem draws_read (pc a : Word) {k : Word → Cycle δ β} (hk : ∀ w, Draws (k w))
    (hb : ∀ b : Byte, Settles (k (unsignedField b))) : Draws (loadPermitted pc a >>= k) := by
  intro p
  have run := run_loadPermitted pc a p
  by_cases permitted : p.machine.access.permits a = true
  · rw [if_pos permitted] at run
    rw [run_bind_of_ok run]
    obtain still | ⟨here, b, took, word⟩ := loaded_cases p a
    · exact still.drawn (hk _ _)
    · have privileged : (p.loaded a).machine.access.privileged = true := by
        have access := p.machine.load_access a true
        rw [here, permits_kbdr] at permitted
        exact (congrArg Access.privileged access).trans permitted
      obtain ⟨x, q, settled, still, cell⟩ := hb b (p.loaded a) privileged
      rw [word]
      change Drawn p ((k (unsignedField b)).run (p.loaded a))
      rw [settled]
      exact Or.inr ⟨b, took.still still cell⟩
  · rw [if_neg permitted] at run
    rw [run_bind_of_error run]
    exact closed_still.refl p

omit [Device δ] in
theorem settles_deliver (r : Reg) (w : Word) : Settles (δ := δ) (do deliver r w; return false) :=
  fun _ _ => ⟨false, _, rfl, ⟨rfl, rfl⟩, rfl⟩

theorem settles_branch (pc : Word) (codes : BitVec 3) (offset : BitVec 9) :
    Settles (δ := δ) (execute pc (.br codes offset)) := by
  intro p _
  refine ⟨false, _, rfl, ⟨?_, rfl⟩, ?_⟩
  · dsimp only
    split <;> rfl
  · dsimp only
    split <;> rfl

/- A byte is the address of a cell below the data register. -/
theorem settles_datum (pc : Word) (b : Byte) (r : Reg) :
    Settles (δ := δ) (do
      let w ← loadPermitted pc (unsignedField b)
      deliver r w
      return false) := by
  intro p privileged
  have low := unsignedField_lt_ioStart b
  have run := run_loadPermitted pc (unsignedField b) p
  rw [if_pos (permits_of_privileged privileged _)] at run
  rw [run_bind_of_ok run]
  have loaded := still_loaded p (kbdr_ne_unsignedField b).symm
  refine ⟨false, _, rfl, ⟨loaded.supply, loaded.told⟩, ?_⟩
  change (p.machine.load (unsignedField b) true).machine.memory.get kbdr = _
  rw [Machine.load_of_lt _ _ low]

theorem settles_target (pc : Word) (b : Byte) (r : Reg) :
    Settles (δ := δ) (do
      let w ← look (·.reg r)
      storePermitted pc (unsignedField b) w
      return false) := by
  intro p privileged
  have run := run_storePermitted pc (unsignedField b) (p.machine.reg r) p
  rw [if_pos (permits_of_privileged privileged _)] at run
  rw [run_bind_of_ok (run_look _ _), run_bind_of_ok run]
  exact ⟨false, _, rfl, still_stored p _ _,
    p.machine.store_memory_of_ne _ (kbdr_ne_unsignedField b).symm⟩

/-- An instruction consumes one byte at most, and none if it faults. -/
theorem draws_execute (pc : Word) (i : Instruction) : Draws (δ := δ) (execute pc i) := by
  have changed (g : Machine δ → Machine δ) (h : ∀ m, (g m).bus = m.bus) : Keeps Still (update g) :=
    keeps_update fun p => ⟨by rw [h], rfl⟩
  have looked {γ : Type} (g : Machine δ → γ) : Keeps Still (look g) := keeps_look closed_still g
  have done : Keeps Still (pure false : Cycle δ Bool) := keeps_pure closed_still false
  have given (r : Reg) (w : Word) : Keeps Still (do deliver r w; return false : Cycle δ Bool) :=
    keeps_bind closed_still (changed _ fun _ => rfl) fun _ => done
  have value (x : Operand 5) : Keeps Still (value x : Cycle δ Word) := by
    cases x with
    | imm v => exact keeps_pure closed_still _
    | reg r => exact looked (·.reg r)
  have stored (a w : Word) : Keeps Still (do storePermitted pc a w; return false : Cycle δ Bool) :=
    keeps_bind closed_still (keeps_guarded closed_still (run_storePermitted pc a w) fun p _ =>
      still_stored p a w) fun _ => done
  cases i with
  | br codes o =>
    have branch (a : Word) : Keeps Still (update fun m : Machine δ =>
        if codes &&& m.psr.codes ≠ 0 then { m with pc := a } else m) :=
      changed _ fun m => by split <;> rfl
    exact draws_bind (looked _) fun a => (keeps_bind closed_still (branch a) fun _ => done).draws
  | add d s x =>
    exact draws_bind (looked _) fun _ => draws_bind (value x) fun _ => (given d _).draws
  | and d s x =>
    exact draws_bind (looked _) fun _ => draws_bind (value x) fun _ => (given d _).draws
  | not d s => exact draws_bind (looked _) fun _ => (given d _).draws
  | lea d o => exact draws_bind (looked _) fun _ => (given d _).draws
  | ld d o =>
    exact draws_bind (looked _) fun a =>
      draws_read pc a (fun w => (given d w).draws) fun b => settles_deliver d _
  | ldr d b o =>
    exact draws_bind (looked _) fun _ =>
      draws_read pc _ (fun w => (given d w).draws) fun b => settles_deliver d _
  | ldi d o =>
    exact draws_bind (looked _) fun a =>
      draws_read pc a (fun pointer => draws_read pc pointer (fun w => (given d w).draws) fun b =>
        settles_deliver d _) fun b => settles_datum pc b d
  | st s o =>
    exact draws_bind (looked _) fun a => draws_bind (looked _) fun w => (stored a w).draws
  | str s b o =>
    exact draws_bind (looked _) fun _ => draws_bind (looked _) fun w => (stored _ w).draws
  | sti s o =>
    exact draws_bind (looked _) fun a =>
      draws_read pc a (fun pointer => draws_bind (looked _) fun w => (stored pointer w).draws) fun b =>
        settles_target pc b s
  | jsr t =>
    have linked (a : Word) : Keeps Still
        (do update fun m => { m.setReg linkReg m.pc with pc := a }; return false : Cycle δ Bool) :=
      keeps_bind closed_still (changed _ fun _ => rfl) fun _ => done
    cases t with
    | imm o => exact draws_bind (looked _) fun a => (linked a).draws
    | reg r => exact draws_bind (looked _) fun a => (linked a).draws
  | jmp r =>
    have jump : Keeps Still (update fun m : Machine δ => { m with pc := m.reg r }) :=
      changed _ fun _ => rfl
    exact (keeps_bind closed_still jump fun _ => done).draws
  | rti =>
    intro p
    rw [run_execute_rti]
    split
    · exact returned_drawn p false
    · exact closed_still.refl p
  | trap v =>
    intro p
    rw [run_execute_trap]
    split
    · exact Or.inl (closed_still.refl p)
    · exact Or.inl (still_entered p (kbdr_ne_unsignedField v).symm none)
  | reserved w => exact (keeps_throw closed_still _).draws

end Cycle

/-! ### Steps -/

/- A byte as an instruction is a branch that is never taken. -/
theorem decode_byte : ∀ b : Byte, Instruction.decode (b.setWidth 16) = .br 0 (b.setWidth 9) := by
  decide +kernel

theorem perform_drawn (p : Progress δ) : Drawn p ((Cycle.perform p.machine.pc).run p) := by
  have fetched : Still (p.loaded p.machine.pc) p.fetched := ⟨rfl, consumption_push _ rfl⟩
  rw [Cycle.run_perform]
  split
  · next permitted =>
    obtain still | ⟨here, b, took, word⟩ := loaded_cases p p.machine.pc
    · split
      · exact (closed_still.trans still fetched).drawn (Cycle.draws_execute _ _ _)
      · rw [p.loaded_marked]
        exact closed_still.trans still ⟨rfl, rfl⟩
    · have upcoming : p.machine.upcoming = .br 0 (b.setWidth 9) := by
        unfold Machine.upcoming
        rw [word]
        exact decode_byte b
      have privileged : p.fetched.machine.access.privileged = true := by
        rw [here, permits_kbdr] at permitted
        exact (congrArg Access.privileged p.machine.fetched_access).trans permitted
      obtain ⟨halts, q, run, still, cell⟩ :=
        Cycle.settles_branch p.machine.pc 0 (b.setWidth 9) p.fetched privileged
      rw [upcoming, run]
      exact Or.inr ⟨b, (took.still fetched rfl).still still cell⟩
  · exact ⟨rfl, rfl⟩

namespace Machine

theorem BreaksOff.supply {m after : Machine δ} {f : Fault} (h : m.BreaksOff f after) :
    after.bus.keyboard.supply = m.bus.keyboard.supply := by
  obtain ⟨events, run⟩ := h
  have drawn := perform_drawn (Progress.accepted ⟨m, #[]⟩)
  rw [Progress.accepted_machine, run] at drawn
  exact drawn.supply.trans (still_accepted ⟨m, #[]⟩).supply

/-- The next step completes with an instruction that consumes a byte, and leaves the byte in the cell of
the data register. -/
structure Consumes (m : Machine δ) (b : Byte) : Prop where
  ready : m.bus.keyboard.ready = true
  front : m.bus.keyboard.queue = b :: m.step.machine.bus.keyboard.queue
  told : consumption m.step.events = [b]
  shown : m.step.machine.memory.get kbdr = b.setWidth 16
  completes : ∀ f, m.step.result ≠ .faulted f
  retired : m.step.machine.retired = m.retired + 1

/-- A step leaves the queue of the keyboard as it is, or it consumes the byte in front. -/
theorem step_supply (m : Machine δ) :
    m.step.machine.bus.keyboard.queue = m.bus.keyboard.queue ∧ consumption m.step.events = [] ∨
      ∃ b, m.Consumes b := by
  by_cases ready : m.condition = .ready
  · have accepted := still_accepted (⟨m, #[]⟩ : Progress δ)
    have drawn := accepted.drawn (perform_drawn (Progress.accepted ⟨m, #[]⟩))
    have step := m.step_of_ready ready
    rw [Progress.accepted_machine] at drawn
    cases run : (Cycle.perform m.accepted.pc).run (Progress.accepted ⟨m, #[]⟩) with
    | error f q =>
      rw [run] at drawn step
      rw [step]
      exact Or.inl ⟨Keyboard.queue_of_supply drawn.supply,
        (consumption_push _ rfl).trans drawn.told⟩
    | ok halts q =>
      rw [run] at drawn step
      have queue : (q.concluded m.accepted.pc halts).machine.bus.keyboard.queue =
          q.machine.bus.keyboard.queue := q.machine.bus.keyboard.queue_tick
      have told : consumption (q.concluded m.accepted.pc halts).events = consumption q.events := by
        unfold Progress.concluded Progress.finished
        dsimp only
        split
        · exact consumption_push _ rfl
        · rfl
      obtain still | ⟨b, took⟩ := drawn
      · rw [step, queue, told]
        exact Or.inl ⟨Keyboard.queue_of_supply still.supply, still.told⟩
      · have unfaulted (f : Fault) : m.step.result ≠ .faulted f := by
          rw [step]
          exact q.concluded_completes _ _ f
        refine Or.inr ⟨b, took.ready, ?_, ?_, ?_, unfaulted, ?_⟩
        · rw [step, queue]
          exact took.front
        · rw [step, told]
          exact took.told
        · rw [step]
          exact took.shown
        · obtain ⟨f, faulted, -⟩ | ⟨c, -, -, host⟩ := step_host ready
          · exact absurd faulted (unfaulted f)
          · exact congrArg Host.retired host
  · rw [step_of_not_ready ready, step_events_of_not_ready ready]
    exact Or.inl ⟨rfl, rfl⟩

end Machine

end Lc3
