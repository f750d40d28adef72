import Lc3.Device.Peripheral
import Lc3.Proofs.Confinement
import Lc3.Proofs.Faults
import Lc3.Proofs.Log

/-!
# When a step faults

Parts of a step that look, move and enter handlers never fault, so what an instruction faults with can
be read off before it runs: a return outside of supervisor mode, a word that is no instruction, and the
first of the operands that may not be accessed (`refusal?`). With the fetch in front this says which
fault ends a step (`step_faulted_iff`). Where privilege is ignored a step faults on illegal words only;
in user mode it faults on the first address outside of user space (`step_faults`).
-/

namespace Lc3

variable {δ α β : Type}

/-! ### Operands in memory -/

/-- The addresses that an instruction accesses, in their order, with the program counter behind it. The
last one is where its datum lies; an indirect instruction finds it in the word at the first one. -/
def Instruction.operands (pc : Word) (reg : Reg → Word) (word : Word → Word) :
    Instruction → List Word
  | .ld _ offset | .st _ offset => [pc + signedField offset]
  | .ldr _ base offset | .str _ base offset => [reg base + signedField offset]
  | .ldi _ offset | .sti _ offset => [pc + signedField offset, word (pc + signedField offset)]
  | _ => []

namespace Access

/-- The first of the addresses that may not be accessed. -/
def refused? (c : Access) (as : List Word) : Option Word := as.find? fun a => !c.permits a

theorem refused?_nil (c : Access) : c.refused? [] = none := rfl

theorem refused?_cons (c : Access) (a : Word) (as : List Word) :
    c.refused? (a :: as) = if c.permits a then c.refused? as else some a := by
  unfold refused?
  cases h : c.permits a <;> simp [h]

theorem refused?_of_privileged {c : Access} (h : c.privileged = true) (as : List Word) :
    c.refused? as = none := by
  simp [refused?, permits_of_privileged h]

/- Only the word at a pointer that may be accessed is looked at. -/
theorem refused?_operands {c : Access} {word word' : Word → Word}
    (h : ∀ a, c.permits a = true → word a = word' a) (pc : Word) (reg : Reg → Word)
    (i : Instruction) :
    c.refused? (i.operands pc reg word) = c.refused? (i.operands pc reg word') := by
  have pointer (a : Word) : c.refused? [a, word a] = c.refused? [a, word' a] := by
    rw [refused?_cons c a [word a], refused?_cons c a [word' a]]
    split
    · next permitted => rw [h a permitted]
    · rfl
  cases i with
  | ldi d o => exact pointer _
  | sti s o => exact pointer _
  | _ => rfl

end Access

/-! ### Faults of parts -/

namespace Cycle

/- The fault that a part of a step ends with. -/
def fault? (c : Cycle δ α) (p : Progress δ) : Option Fault :=
  match c.run p with
  | .ok _ _ => none
  | .error f _ => some f

theorem fault?_of_error {c : Cycle δ α} {p q : Progress δ} {f : Fault} (h : c.run p = .error f q) :
    c.fault? p = some f := by
  unfold fault?
  rw [h]

theorem Completes.fault? {c : Cycle δ α} (h : Completes c) (p : Progress δ) : c.fault? p = none := by
  unfold Cycle.fault?
  cases run : c.run p with
  | ok a q => rfl
  | error f q => exact absurd run (h p f q)

theorem Completes.ok {c : Cycle δ α} (h : Completes c) (p : Progress δ) :
    ∃ a q, c.run p = .ok a q := by
  cases run : c.run p with
  | ok a q => exact ⟨a, q, rfl⟩
  | error f q => exact absurd run (h p f q)

theorem fault?_bind_of_ok {c : Cycle δ α} {k : α → Cycle δ β} {p q : Progress δ} {a : α}
    (h : c.run p = .ok a q) : (c >>= k).fault? p = (k a).fault? q := by
  unfold fault?
  rw [run_bind_of_ok h]

theorem fault?_bind_of_guarded {c : Cycle δ α} {k : α → Cycle δ β} {test : Progress δ → Bool}
    {value : Progress δ → α} {after : Progress δ → Progress δ} {fault : Fault}
    (h : Guarded c test value after fault) (p : Progress δ) :
    (c >>= k).fault? p = if test p then (k (value p)).fault? (after p) else some fault := by
  have hp := h p
  split at hp
  · next passed => rw [if_pos passed, fault?_bind_of_ok hp]
  · next passed => rw [if_neg passed, fault?_of_error (run_bind_of_error hp)]

/- Nothing behind the guard faults. -/
theorem fault?_guarded {c : Cycle δ α} {k : α → Cycle δ β} {test : Progress δ → Bool}
    {value : Progress δ → α} {after : Progress δ → Progress δ} {fault : Fault}
    (h : Guarded c test value after fault) (hk : ∀ a, Completes (k a)) (p : Progress δ) :
    (c >>= k).fault? p = if test p then none else some fault := by
  rw [fault?_bind_of_guarded h, (hk _).fault?]

end Cycle

variable [Device δ]

/-! ### Faults of instructions -/

namespace Machine

/- The word that the program reads at an address. -/
def word (m : Machine δ) (a : Word) : Word := (m.load a true).word

/-- The fault that the execution of an instruction ends with, with the program counter behind it. -/
def refusal? (m : Machine δ) (pc : Word) : Instruction → Option Fault
  | .rti => if m.access.privileged then none else some (.privilegeViolation pc)
  | .reserved w => some (.illegalInstruction pc w)
  | i => (m.access.refused? (i.operands m.pc m.reg m.word)).map (.accessViolation pc)

/-- The fault that the instruction at the program counter ends with, its fetch included. -/
def fault? (m : Machine δ) : Option Fault :=
  if m.access.permits m.pc then m.fetched.refusal? m.pc m.upcoming
  else some (.accessViolation m.pc m.pc)

end Machine

namespace Cycle

/- One access of the program, and nothing behind it that faults. -/
theorem fault?_loadPermitted {k : Word → Cycle δ β} (hk : ∀ w, Completes (k w)) (pc a : Word)
    (p : Progress δ) :
    (loadPermitted pc a >>= k).fault? p =
      (p.machine.access.refused? [a]).map (.accessViolation pc) := by
  rw [fault?_guarded (run_loadPermitted pc a) hk, Access.refused?_cons, Access.refused?_nil]
  split <;> rfl

theorem fault?_storePermitted {k : Unit → Cycle δ β} (hk : ∀ u, Completes (k u)) (pc a w : Word)
    (p : Progress δ) :
    (storePermitted pc a w >>= k).fault? p =
      (p.machine.access.refused? [a]).map (.accessViolation pc) := by
  rw [fault?_guarded (run_storePermitted pc a w) hk, Access.refused?_cons, Access.refused?_nil]
  split <;> rfl

/- A pointer, and an access through it. -/
theorem fault?_pointer {k : Word → Cycle δ β} {pc : Word}
    (hk : ∀ b q, (k b).fault? q = (q.machine.access.refused? [b]).map (.accessViolation pc))
    (a : Word) (p : Progress δ) :
    (loadPermitted pc a >>= k).fault? p =
      (p.machine.access.refused? [a, p.machine.word a]).map (.accessViolation pc) := by
  have access := p.machine.load_access a true
  rw [fault?_bind_of_guarded (run_loadPermitted pc a), Access.refused?_cons, hk]
  split
  · change ((p.machine.load a true).machine.access.refused? _).map _ = _
    rw [access]
    rfl
  · rfl

theorem completes_execute_trap (pc : Word) (v : BitVec 8) :
    Completes (execute (δ := δ) pc (.trap v)) := by
  intro p f q h
  rw [run_execute_trap] at h
  split at h <;> cases h

theorem execute_fault? (pc : Word) (i : Instruction) (p : Progress δ) :
    (execute pc i).fault? p = p.machine.refusal? pc i := by
  have done (b : Bool) : Completes (pure b : Cycle δ Bool) := completes_pure b
  have given (r : Reg) (w : Word) : Completes (do deliver r w; return false : Cycle δ Bool) :=
    completes_bind (completes_deliver r w) fun _ => done false
  cases i with
  | br codes o =>
    exact (completes_bind (completes_look _) fun _ => completes_bind (completes_update _) fun _ =>
      done false).fault? p
  | add d s x =>
    exact (completes_bind (completes_look _) fun _ => completes_bind (completes_value x) fun _ =>
      given d _).fault? p
  | and d s x =>
    exact (completes_bind (completes_look _) fun _ => completes_bind (completes_value x) fun _ =>
      given d _).fault? p
  | not d s => exact (completes_bind (completes_look _) fun _ => given d _).fault? p
  | lea d o => exact (completes_bind (completes_look _) fun _ => given d _).fault? p
  | jsr t =>
    cases t with
    | imm o =>
      exact (completes_bind (completes_look _) fun _ => completes_bind (completes_update _) fun _ =>
        done false).fault? p
    | reg r =>
      exact (completes_bind (completes_look _) fun _ => completes_bind (completes_update _) fun _ =>
        done false).fault? p
  | jmp b => exact (completes_bind (completes_update _) fun _ => done false).fault? p
  | trap v => exact (completes_execute_trap pc v).fault? p
  | reserved w => rfl
  | rti => exact fault?_guarded (run_leave pc) (fun _ => done false) p
  | ld d o =>
    unfold execute relative
    rw [fault?_bind_of_ok (run_look _ _)]
    exact fault?_loadPermitted (given d) pc _ p
  | ldr d b o =>
    unfold execute
    rw [fault?_bind_of_ok (run_look _ _)]
    exact fault?_loadPermitted (given d) pc _ p
  | st s o =>
    unfold execute relative
    rw [fault?_bind_of_ok (run_look _ _), fault?_bind_of_ok (run_look _ _)]
    exact fault?_storePermitted (fun _ => done false) pc _ _ p
  | str s b o =>
    unfold execute
    rw [fault?_bind_of_ok (run_look _ _), fault?_bind_of_ok (run_look _ _)]
    exact fault?_storePermitted (fun _ => done false) pc _ _ p
  | ldi d o =>
    unfold execute relative
    rw [fault?_bind_of_ok (run_look _ _)]
    exact fault?_pointer (fun b q => fault?_loadPermitted (given d) pc b q) _ p
  | sti s o =>
    unfold execute relative
    rw [fault?_bind_of_ok (run_look _ _)]
    refine fault?_pointer (fun b q => ?_) _ p
    rw [fault?_bind_of_ok (run_look _ _)]
    exact fault?_storePermitted (fun _ => done false) pc b _ q

theorem perform_fault? (p : Progress δ) :
    (perform p.machine.pc).fault? p = p.machine.fault? := by
  unfold fault? Machine.fault?
  rw [run_perform]
  by_cases permitted : p.machine.access.permits p.machine.pc = true
  · rw [if_pos permitted, if_pos permitted]
    by_cases legal : p.machine.upcoming.isLegal = true
    · rw [if_pos legal]
      exact execute_fault? p.machine.pc p.machine.upcoming p.fetched
    · rw [if_neg legal]
      cases hi : p.machine.upcoming with
      | reserved w =>
        rw [eq_of_decode_reserved hi]
        rfl
      | _ => exact absurd (by rw [hi]; rfl) legal
  · rw [if_neg permitted, if_neg permitted]

end Cycle

namespace Machine

/-- A step ends with the fault of the instruction that it comes to. -/
theorem step_faulted_iff {m : Machine δ} (ready : m.condition = .ready) (f : Fault) :
    m.step.result = .faulted f ↔ m.accepted.fault? = some f := by
  have ha : (Progress.accepted ⟨m, #[]⟩).machine = m.accepted := Progress.accepted_machine _
  rw [m.step_of_ready ready, ← ha, ← Cycle.perform_fault?]
  unfold Cycle.fault?
  cases (Cycle.perform _).run (Progress.accepted ⟨m, #[]⟩) with
  | ok halts q => exact ⟨fun h => absurd h (q.concluded_completes _ _ f), fun h => nomatch h⟩
  | error e q =>
    dsimp only [Progress.undone]
    rw [StepResult.faulted.injEq, Option.some.injEq]

/-! ### The kinds of faults -/

section Kinds

variable (m : Machine δ) (pc pc' : Word) (i : Instruction)

theorem refusal?_access (a : Word) :
    m.refusal? pc i = some (.accessViolation pc' a) ↔
      pc' = pc ∧ m.access.refused? (i.operands m.pc m.reg m.word) = some a := by
  have refused (o : Option Word) : o.map (Fault.accessViolation pc) = some (.accessViolation pc' a) ↔
      pc' = pc ∧ o = some a := by
    cases o <;> simp [eq_comm]
  cases i with
  | rti =>
    cases h : m.access.privileged <;> simp [refusal?, h, Instruction.operands, Access.refused?_nil]
  | reserved w => simp [refusal?, Instruction.operands, Access.refused?_nil]
  | _ => simpa only [refusal?] using refused _

theorem refusal?_privilege :
    m.refusal? pc i = some (.privilegeViolation pc') ↔
      pc' = pc ∧ i = .rti ∧ m.access.privileged = false := by
  cases i with
  | rti => cases h : m.access.privileged <;> simp [refusal?, h, eq_comm]
  | _ => simp [refusal?]

theorem refusal?_illegal (w : Word) :
    m.refusal? pc i = some (.illegalInstruction pc' w) ↔ pc' = pc ∧ i = .reserved w := by
  cases i with
  | rti => cases h : m.access.privileged <;> simp [refusal?, h]
  | reserved w' => simp [refusal?, eq_comm]
  | _ => simp [refusal?]

/- With access to everything. -/
theorem refusal?_of_privileged {m : Machine δ} (h : m.access.privileged = true) (f : Fault) :
    m.refusal? pc i = some f ↔ ∃ w, i = .reserved w ∧ f = .illegalInstruction pc w := by
  cases i <;> simp [refusal?, Access.refused?_of_privileged h, h, eq_comm]

end Kinds

theorem fault?_of_privileged {m : Machine δ} (h : m.access.privileged = true) (f : Fault) :
    m.fault? = some f ↔
      Instruction.decode (m.word m.pc) = .reserved (m.word m.pc) ∧
        f = .illegalInstruction m.pc (m.word m.pc) := by
  have after : m.fetched.access.privileged = true := by
    rw [fetched_access]
    exact h
  unfold fault?
  rw [if_pos (permits_of_privileged h m.pc), refusal?_of_privileged _ _ after]
  constructor
  · rintro ⟨w, hi, rfl⟩
    have hw : w = m.word m.pc := Cycle.eq_of_decode_reserved hi
    rw [hw] at hi
    exact ⟨hi, by rw [hw]⟩
  · rintro ⟨hi, rfl⟩
    exact ⟨_, hi, rfl⟩

/-! ### Steps in user mode -/

section User

variable {m : Machine δ} (r : m.Restricted)

include r

omit [Device δ] in
theorem Restricted.permits_eq : m.access.permits = inUserSpace := by
  funext a
  unfold access Access.permits
  rw [r.user, r.strict]
  rfl

/- The fetch is the first access, and what follows it reads user space only. -/
theorem Restricted.refused?_fetched (inside : inUserSpace m.pc = true) (i : Instruction) :
    m.fetched.access.refused? (i.operands m.fetched.pc m.fetched.reg m.fetched.word) =
      (i.operands (m.pc + 1) m.reg m.memory.get).find? fun a => !inUserSpace a := by
  have fetched : m.fetched = { m with pc := m.pc + 1, fetchPc := m.pc } :=
    fetched_of_lt (lt_ioStart_of_inUserSpace inside)
  have permits : m.fetched.access.permits = inUserSpace := by rw [fetched_access, r.permits_eq]
  have plain (a : Word) (h : m.fetched.access.permits a = true) : m.fetched.word a = m.memory.get a := by
    rw [permits] at h
    have ha := lt_ioStart_of_inUserSpace h
    unfold word
    rw [load_of_lt _ _ ha]
    exact m.fetched_memory_of_lt ha
  rw [Access.refused?_operands plain]
  unfold Access.refused?
  rw [permits, fetched]
  rfl

theorem Restricted.fault?_eq :
    m.fault? = if inUserSpace m.pc then
        m.fetched.refusal? m.pc (Instruction.decode (m.memory.get m.pc))
      else some (.accessViolation m.pc m.pc) := by
  unfold fault?
  rw [r.permits_eq]
  split
  · next inside => rw [upcoming_of_lt (lt_ioStart_of_inUserSpace inside)]
  · rfl

theorem Restricted.fault?_access (pc a : Word) :
    m.fault? = some (.accessViolation pc a) ↔ pc = m.pc ∧
      (m.pc :: (Instruction.decode (m.memory.get m.pc)).operands (m.pc + 1) m.reg m.memory.get).find?
        (fun a => !inUserSpace a) = some a := by
  rw [r.fault?_eq]
  by_cases inside : inUserSpace m.pc = true
  · rw [if_pos inside, refusal?_access, r.refused?_fetched inside]
    simp [inside]
  · rw [if_neg inside]
    simp [inside, eq_comm]

theorem Restricted.fault?_privilege (pc : Word) :
    m.fault? = some (.privilegeViolation pc) ↔
      pc = m.pc ∧ inUserSpace m.pc = true ∧ Instruction.decode (m.memory.get m.pc) = .rti := by
  have user : m.fetched.access.privileged = false := by
    rw [fetched_access]
    simp [access, r.user, r.strict]
  rw [r.fault?_eq]
  by_cases inside : inUserSpace m.pc = true
  · rw [if_pos inside, refusal?_privilege, and_iff_left user, and_iff_right inside]
  · rw [if_neg inside]
    simp [inside]

theorem Restricted.fault?_illegal (pc w : Word) :
    m.fault? = some (.illegalInstruction pc w) ↔ pc = m.pc ∧ inUserSpace m.pc = true ∧
      w = m.memory.get m.pc ∧ Instruction.decode w = .reserved w := by
  rw [r.fault?_eq]
  by_cases inside : inUserSpace m.pc = true
  · rw [if_pos inside, refusal?_illegal, and_iff_right inside]
    refine and_congr_right fun _ => ⟨fun h => ?_, fun ⟨hw, h⟩ => hw ▸ h⟩
    have hw : w = m.memory.get m.pc := Cycle.eq_of_decode_reserved h
    exact ⟨hw, hw ▸ h⟩
  · rw [if_neg inside]
    simp [inside]

end User

/-! ### Steps -/

/- Where a step fetches its instruction. -/
theorem accepted_pc {m : Machine δ} (ready : m.condition = .ready) :
    ((∀ i, .interrupted i ∉ m.step.events) → m.accepted = m.polled) ∧
    ∀ i, .interrupted i ∈ m.step.events → m.accepted.pc =
      ((m.polled.poised (some i.priority)).load (interruptTable + unsignedField i.vector) true).word := by
  constructor
  · intro uninterrupted
    apply accepted_of_none
    cases h : m.urgent? with
    | none => rfl
    | some i => exact absurd ((interrupted_mem_step ready).mpr h) (uninterrupted i)
  · intro i interrupted
    unfold accepted
    rw [(interrupted_mem_step ready).mp interrupted]
    rfl

/-- The entry of a handler never faults: each of its accesses is checked, but with what the supervisor
may access, which stays what it was when a push overwrites the status. Where privilege is ignored, a
step faults exactly if the word that it fetches, from the handler if it entered one, is no instruction.
In user mode without an interrupt, the first address outside of user space ends the step, and else a
return or an illegal word does; the program counter stays where it was, and a step without a fault
counts. -/
theorem step_faults (m : Machine δ) (ready : m.condition = .ready) :
    (∀ (p : Progress δ) (vector : Word) (priority : Option (BitVec 3)),
      ∃ q, (Cycle.enter vector priority).run p = .ok () q) ∧
    (∀ (p : Progress δ), ∃ q, Cycle.acceptInterrupt.run p = .ok () q) ∧
    (∀ (p : Progress δ) (pc : Word) (v : BitVec 8),
      ∃ halts q, (Cycle.execute pc (.trap v)).run p = .ok halts q) ∧
    ((∀ i, .interrupted i ∉ m.step.events) → m.accepted.pc = m.pc) ∧
    (∀ i, .interrupted i ∈ m.step.events → m.accepted.pc =
      ((m.polled.poised (some i.priority)).load (interruptTable + unsignedField i.vector) true).word) ∧
    (m.flags.ignorePrivilege = true → ∀ f, m.step.result = .faulted f ↔
      ∃ w, w = (m.accepted.load m.accepted.pc true).word ∧ Instruction.decode w = .reserved w ∧
        f = .illegalInstruction m.accepted.pc w) ∧
    (m.flags.ignorePrivilege = false → m.psr.privileged = false →
      (∀ i, .interrupted i ∉ m.step.events) →
      let i := Instruction.decode (m.memory.get m.pc)
      (∀ pc a, m.step.result = .faulted (.accessViolation pc a) ↔ pc = m.pc ∧
        (m.pc :: i.operands (m.pc + 1) m.reg m.memory.get).find? (fun a => !inUserSpace a) = some a) ∧
      (∀ pc, m.step.result = .faulted (.privilegeViolation pc) ↔
        pc = m.pc ∧ inUserSpace m.pc = true ∧ i = .rti) ∧
      (∀ pc w, m.step.result = .faulted (.illegalInstruction pc w) ↔
        pc = m.pc ∧ inUserSpace m.pc = true ∧ w = m.memory.get m.pc ∧ i = .reserved w) ∧
      ((∃ f, m.step.result = .faulted f ∧ f.pc = m.pc ∧ m.step.machine.pc = m.pc) ∨
        (∀ f, m.step.result ≠ .faulted f) ∧ m.step.machine.retired = m.retired + 1)) := by
  refine ⟨fun p vector priority => ⟨_, Cycle.run_enter vector priority p⟩,
    fun p => ⟨_, Cycle.run_acceptInterrupt p⟩,
    fun p pc v => (Cycle.completes_execute_trap pc v).ok p,
    fun uninterrupted => by rw [(accepted_pc ready).1 uninterrupted]; rfl, (accepted_pc ready).2,
    fun lenient f => ?_, fun strict user uninterrupted => ?_⟩
  · have flags : m.accepted.flags = m.flags := congrArg Host.flags m.accepted_host
    have privileged : m.accepted.access.privileged = true := by simp [access, flags, lenient]
    rw [step_faulted_iff ready, fault?_of_privileged privileged]
    constructor
    · exact fun h => ⟨_, rfl, h⟩
    · rintro ⟨w, rfl, h⟩
      exact h
  · have r : m.polled.Restricted := ⟨user, strict⟩
    have faulted (f : Fault) : m.step.result = .faulted f ↔ m.polled.fault? = some f := by
      rw [step_faulted_iff ready, (accepted_pc ready).1 uninterrupted]
    refine ⟨fun pc a => (faulted _).trans (r.fault?_access pc a),
      fun pc => (faulted _).trans (r.fault?_privilege pc), fun pc w => ?_, ?_⟩
    · rw [faulted, r.fault?_illegal]
      exact and_congr_right fun _ => and_congr_right fun _ => and_congr_right fun hw => by rw [hw]; rfl
    · obtain ⟨f, hf, pc, -⟩ | ⟨c, completes, -, host⟩ := step_host ready
      · have here : f.pc = m.pc := by
          have h := (faulted f).mp hf
          cases f with
          | illegalInstruction pc w => exact ((r.fault?_illegal pc w).mp h).1
          | privilegeViolation pc => exact ((r.fault?_privilege pc).mp h).1
          | accessViolation pc a => exact ((r.fault?_access pc a).mp h).1
        exact Or.inl ⟨f, hf, here, pc⟩
      · exact Or.inr ⟨completes, congrArg Host.retired host⟩

/- A machine with one instruction, and the address of the display's data register behind it. -/
def single (w : Word) (flags : Flags) : Machine Peripheral where
  memory := ((Bank.fill 16 0).set 0x3000 w).set 0x3001 ddr
  registers := Bank.fill 3 0
  flags := flags

/- A store through the pointer to the display in user mode, and an illegal word. -/
theorem step_faults_single :
    (single 0xB000 { ignorePrivilege := false }).step.result =
        .faulted (.accessViolation 0x3000 ddr) ∧
      (single 0xD000 {}).step.result = .faulted (.illegalInstruction 0x3000 0xD000) := by
  have uninterrupted (i : Interrupt) :
      .interrupted i ∉ (single 0xB000 { ignorePrivilege := false }).step.events := by
    rw [interrupted_mem_step rfl]
    exact fun h => nomatch h
  obtain ⟨-, -, -, -, -, -, strict⟩ := step_faults (single 0xB000 { ignorePrivilege := false }) rfl
  obtain ⟨-, -, -, -, -, lenient, -⟩ := step_faults (single 0xD000 {}) rfl
  exact ⟨((strict rfl rfl uninterrupted).1 0x3000 ddr).mpr ⟨rfl, by decide +kernel⟩,
    (lenient rfl _).mpr ⟨0xD000, by decide +kernel, by decide +kernel, rfl⟩⟩

end Machine

end Lc3
