import Lc3.Proofs.Composition
import Lc3.Proofs.Handlers

/-!
# What instructions keep

A relation between the machine before a part of a step and the one after it is kept by the part if
it holds however the part ends (`Keeps`). A reflexive and transitive relation that is kept by what
instructions are made of (`Frame`) is kept by every instruction but a trap
(`Frame.compositional`), by a trap if its handler's entry keeps it (`Frame.execute_trap`), and then by
the whole of what a step performs (`Frame.perform`).
-/

namespace Lc3.Cycle

variable {δ α β : Type} {R : Progress δ → Progress δ → Prop}

/-! ### Relations kept by a part -/

/-- The relation holds between the start of the part and its end, also if it faults. -/
def Keeps (R : Progress δ → Progress δ → Prop) (c : Cycle δ α) : Prop :=
  ∀ p, match c.run p with
    | .ok _ q => R p q
    | .error _ q => R p q

/- What relates the ends of sequences of parts, the empty one included. -/
structure Closed (R : Progress δ → Progress δ → Prop) : Prop where
  refl : ∀ p, R p p
  trans : ∀ {p q r}, R p q → R q r → R p r

theorem Keeps.of_ok {c : Cycle δ α} (h : Keeps R c) {p q : Progress δ} {a : α}
    (hc : c.run p = .ok a q) : R p q := by
  have hp := h p
  rw [hc] at hp
  exact hp

theorem Keeps.of_error {c : Cycle δ α} (h : Keeps R c) {p q : Progress δ} {f : Fault}
    (hc : c.run p = .error f q) : R p q := by
  have hp := h p
  rw [hc] at hp
  exact hp

theorem keeps_pure (C : Closed R) (a : α) : Keeps R (pure a) := fun p => C.refl p

theorem keeps_throw (C : Closed R) (f : Fault) : Keeps R (throw f : Cycle δ α) := fun p => C.refl p

theorem keeps_look (C : Closed R) (g : Machine δ → α) : Keeps R (look g) := fun p => C.refl p

theorem keeps_update {g : Machine δ → Machine δ}
    (h : ∀ p : Progress δ, R p { p with machine := g p.machine }) : Keeps R (update g) :=
  fun p => h p

theorem keeps_guarded (C : Closed R) {c : Cycle δ α} {test : Progress δ → Bool}
    {value : Progress δ → α} {after : Progress δ → Progress δ} {fault : Fault}
    (hc : Guarded c test value after fault) (h : ∀ p, test p = true → R p (after p)) :
    Keeps R c := by
  intro p
  rw [hc p]
  by_cases ht : test p = true
  · rw [if_pos ht]
    exact h p ht
  · rw [if_neg ht]
    exact C.refl p

theorem keeps_bind (C : Closed R) {c : Cycle δ α} {k : α → Cycle δ β} (hc : Keeps R c)
    (hk : ∀ a, Keeps R (k a)) : Keeps R (c >>= k) := by
  intro p
  cases h : c.run p with
  | error e q =>
    rw [run_bind_of_error h]
    exact hc.of_error h
  | ok a q =>
    rw [run_bind_of_ok h]
    cases h' : (k a).run q with
    | error e r => exact C.trans (hc.of_ok h) ((hk a).of_error h')
    | ok b r => exact C.trans (hc.of_ok h) ((hk a).of_ok h')

variable [Device δ]

/-! ### Relations kept by instructions -/

/-- The relation is kept by all that instructions are made of. -/
structure Frame (R : Progress δ → Progress δ → Prop) : Prop extends Closed R where
  mark : ∀ p : Progress δ, R p p.marked
  move : ∀ p rs pc, R p { p with machine := { p.machine with registers := rs, pc := pc } }
  record : ∀ p w, R p { p with machine := { p.machine with psr := p.machine.psr.record w } }
  read : ∀ p a, p.machine.access.permits a = true → R p (p.loaded a)
  write : ∀ p a w, p.machine.access.permits a = true → R p (p.stored a w)
  leave : ∀ p, p.machine.access.privileged = true → R p p.returned

namespace Frame

theorem compositional (F : Frame R) : Compositional fun (_ : Type) c => Keeps R c where
  pure a := keeps_pure F.toClosed a
  throw f := keeps_throw F.toClosed f
  bind hc hk := keeps_bind F.toClosed hc hk
  look g := keeps_look F.toClosed fun m => g m.core.front
  move _ _ := keeps_update fun p => F.move p _ _
  deliver r w := keeps_update fun p =>
    F.trans (F.move p (p.machine.registers.set r w) p.machine.pc) (F.record _ w)
  read pc a := keeps_guarded F.toClosed (run_loadPermitted pc a) fun p h => F.read p a h
  write pc a w := keeps_guarded F.toClosed (run_storePermitted pc a w) fun p h => F.write p a w h
  leave pc := keeps_guarded F.toClosed (run_leave pc) fun p h => F.leave p h

/- A trap enters its handler or halts the machine at once. -/
theorem execute_trap (F : Frame R) (pc : Word) (v : BitVec 8)
    (enter : ∀ p vector, R p (p.entered vector none)) : Keeps R (Cycle.execute pc (.trap v)) := by
  intro p
  rw [run_execute_trap]
  by_cases h : v = haltVector ∧ (!p.machine.flags.realHalt) = true
  · rw [if_pos h]
    exact F.refl p
  · rw [if_neg h]
    exact enter p _

/-- What is also kept by the entry of a handler and does not depend on the log is kept by the
instruction of a step, its fetch included. -/
theorem perform (F : Frame R) (note : ∀ p e, R p (p.noted e))
    (enter : ∀ p vector, R p (p.entered vector none)) (pc : Word) : Keeps R (perform pc) := by
  have fetch : Keeps R (fetch pc) := keeps_bind F.toClosed (F.compositional.read pc pc) fun w => by
    dsimp only
    cases Instruction.decode w with
    | reserved w => exact keeps_throw F.toClosed _
    | _ => exact keeps_bind F.toClosed (fun p => note p _) fun _ => keeps_pure F.toClosed _
  refine keeps_bind F.toClosed (keeps_update F.mark) fun _ => ?_
  refine keeps_bind F.toClosed fetch fun i => keeps_bind F.toClosed
    (F.compositional.move (·.registers) fun c => c.pc + 1) fun _ => ?_
  refine F.compositional.execute pc i fun v hv => ?_
  rw [hv]
  exact F.execute_trap pc v enter

end Frame

/-! ### What the machine holds for its host -/

theorem frame_host : Frame fun p q : Progress δ => q.machine.host = p.machine.host where
  refl _ := rfl
  trans h h' := h'.trans h
  mark _ := rfl
  move _ _ _ := rfl
  record _ _ := rfl
  read p a _ := p.machine.load_host a true
  write p a w _ := p.machine.store_host a w
  leave p _ := p.machine.returned_host

theorem execute_host (pc : Word) (i : Instruction) :
    Keeps (fun p q : Progress δ => q.machine.host = p.machine.host) (execute pc i) :=
  frame_host.compositional.execute pc i fun v hv => by
    rw [hv]
    exact frame_host.execute_trap pc v fun p vector => p.machine.entered_host vector none

end Lc3.Cycle
