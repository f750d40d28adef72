import Lc3.Proofs.Parts

/-!
# What instructions are made of

Every instruction but a trap is put together from looks at the registers, moves of registers and
program counter, deliveries of results, permitted accesses, and the return from a handler. A
predicate on parts of a step that holds of these and of their sequences holds of the instructions
(`Compositional.execute`). Invariants and simulations are such predicates. Few instructions store or
return, so a predicate need hold of neither to hold of all others (`Reading.execute`).
-/

namespace Lc3

/- The registers that a program computes with: the stack pointer of the other mode is not among
them. -/
structure Front where
  registers : RegFile
  pc : Word
  psr : Psr

def Core.front (c : Core) : Front := ⟨c.registers, c.pc, c.psr⟩

/- Whether the instruction writes to memory. -/
def Instruction.stores : Instruction → Bool
  | .st _ _ => true
  | .str _ _ _ => true
  | .sti _ _ => true
  | _ => false

namespace Cycle

variable {δ : Type} [Device δ]

/-- The predicate holds of all that instructions are made of but stores and returns. -/
structure Reading (P : (α : Type) → Cycle δ α → Prop) : Prop where
  pure {α : Type} (a : α) : P α (pure a)
  throw {α : Type} (f : Fault) : P α (throw f)
  bind {α β : Type} {c : Cycle δ α} {k : α → Cycle δ β} : P α c → (∀ a, P β (k a)) → P β (c >>= k)
  look {α : Type} (g : Front → α) : P α (look fun m => g m.core.front)
  move (registers : Front → RegFile) (pc : Front → Word) :
    P Unit (update fun m => { m with
      registers := registers m.core.front
      pc := pc m.core.front })
  deliver (r : Reg) (w : Word) : P Unit (deliver r w)
  read (pc a : Word) : P Word (loadPermitted pc a)

/-- The predicate holds of all that instructions are made of. -/
structure Compositional (P : (α : Type) → Cycle δ α → Prop) : Prop extends Reading P where
  write (pc a w : Word) : P Unit (storePermitted pc a w)
  leave (pc : Word) : P Unit (leave pc)

variable {P : (α : Type) → Cycle δ α → Prop}

namespace Reading

theorem reg (C : Reading P) (r : Reg) : P Word (Cycle.look (·.reg r)) :=
  C.look fun c => c.registers.get r

theorem relative (C : Reading P) {n : Nat} (offset : BitVec n) : P Word (relative offset) :=
  C.look fun c => c.pc + signedField offset

theorem value (C : Reading P) (x : Operand 5) : P Word (value x) := by
  cases x with
  | imm v => exact C.pure _
  | reg r => exact C.reg r

theorem execute (C : Reading P) (pc : Word) (i : Instruction)
    (store : i.stores = true → P Bool (execute pc i)) (rti : i = .rti → P Bool (execute pc i))
    (trap : ∀ v, i = .trap v → P Bool (execute pc i)) : P Bool (execute pc i) := by
  have done : P Bool (Pure.pure false) := C.pure false
  have given (r : Reg) (w : Word) : P Bool (do Cycle.deliver r w; return false) :=
    C.bind (C.deliver r w) fun _ => done
  have linked (a : Word) :
      P Bool (do Cycle.update fun m => { m.setReg linkReg m.pc with pc := a }; return false) :=
    C.bind (C.move (fun c => c.registers.set linkReg c.pc) fun _ => a) fun _ => done
  cases i with
  | br codes o =>
    have branch (target : Word) : P Unit (Cycle.update fun m =>
        if codes &&& m.psr.codes ≠ 0 then { m with pc := target } else m) := by
      have h := C.move (·.registers) fun c => if codes &&& c.psr.codes ≠ 0 then target else c.pc
      have e : (fun m : Machine δ => if codes &&& m.psr.codes ≠ 0 then { m with pc := target } else m)
          = fun m => { m with pc := if codes &&& m.psr.codes ≠ 0 then target else m.pc } := by
        funext m
        split <;> rfl
      rw [e]
      exact h
    exact C.bind (C.relative o) fun target => C.bind (branch target) fun _ => done
  | add d s x => exact C.bind (C.reg s) fun _ => C.bind (C.value x) fun _ => given d _
  | and d s x => exact C.bind (C.reg s) fun _ => C.bind (C.value x) fun _ => given d _
  | not d s => exact C.bind (C.reg s) fun _ => given d _
  | lea d o => exact C.bind (C.relative o) fun a => given d a
  | ld d o => exact C.bind (C.relative o) fun a => C.bind (C.read pc a) fun w => given d w
  | ldr d b o => exact C.bind (C.reg b) fun _ => C.bind (C.read pc _) fun w => given d w
  | ldi d o =>
    exact C.bind (C.relative o) fun a => C.bind (C.read pc a) fun pointer =>
      C.bind (C.read pc pointer) fun w => given d w
  | st s o => exact store rfl
  | str s b o => exact store rfl
  | sti s o => exact store rfl
  | jsr t =>
    cases t with
    | imm o => exact C.bind (C.relative o) linked
    | reg r => exact C.bind (C.reg r) linked
  | jmp b => exact C.bind (C.move (·.registers) fun c => c.registers.get b) fun _ => done
  | rti => exact rti rfl
  | trap v => exact trap v rfl
  | reserved w => exact C.throw _

theorem execute_store (C : Reading P) (write : ∀ pc a w, P Unit (storePermitted pc a w)) (pc : Word)
    {i : Instruction} (stores : i.stores = true) : P Bool (Cycle.execute pc i) := by
  have given (a w : Word) : P Bool (do storePermitted pc a w; return false) :=
    C.bind (write pc a w) fun _ => C.pure false
  cases i with
  | st s o => exact C.bind (C.relative o) fun a => C.bind (C.reg s) fun w => given a w
  | str s b o => exact C.bind (C.reg b) fun _ => C.bind (C.reg s) fun w => given _ w
  | sti s o =>
    exact C.bind (C.relative o) fun a => C.bind (C.read pc a) fun pointer =>
      C.bind (C.reg s) fun w => given pointer w
  | _ => cases stores

end Reading

theorem Compositional.execute (C : Compositional P) (pc : Word) (i : Instruction)
    (trap : ∀ v, i = .trap v → P Bool (execute pc i)) : P Bool (execute pc i) := by
  refine C.toReading.execute pc i (C.execute_store C.write pc) (fun hi => ?_) trap
  rw [hi]
  exact C.bind (C.leave pc) fun _ => C.pure false

end Cycle

end Lc3
