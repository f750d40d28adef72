import Lc3.Proofs.Parts

/-!
# Where a step can fault

A faulting part has done little before it faults. Most parts that can fault have done nothing at all
(`Bare`), and an instruction has read one pointer at most (`execute_error`). What the instruction of
a step left behind when it faults is one of four states (`perform_error`), none of which wrote
anything.
-/

namespace Lc3.Cycle

variable {δ α β : Type}

/-! ### Parts that cannot fault, and parts that fault first -/

/-- The part never faults. -/
def Completes (c : Cycle δ α) : Prop := ∀ p f q, c.run p ≠ .error f q

/-- If the part faults, it has changed nothing before. -/
def Bare (c : Cycle δ α) : Prop := ∀ p f q, c.run p = .error f q → q = p

theorem completes_pure (a : α) : Completes (pure a : Cycle δ α) := by
  intro p f q h
  cases h

theorem completes_look (g : Machine δ → α) : Completes (look g) := by
  intro p f q h
  cases h

theorem completes_update (g : Machine δ → Machine δ) : Completes (update g) := by
  intro p f q h
  cases h

theorem completes_bind {c : Cycle δ α} {k : α → Cycle δ β} (hc : Completes c)
    (hk : ∀ a, Completes (k a)) : Completes (c >>= k) := by
  intro p f q h
  obtain h | ⟨a, r, -, h⟩ := bind_error h
  · exact hc p f q h
  · exact hk a r f q h

theorem completes_deliver (r : Reg) (w : Word) : Completes (deliver (δ := δ) r w) :=
  completes_update _

theorem completes_value (x : Operand 5) : Completes (value (δ := δ) x) := by
  cases x with
  | imm v => exact completes_pure _
  | reg r => exact completes_look (·.reg r)

theorem Completes.bare {c : Cycle δ α} (hc : Completes c) : Bare c :=
  fun p f q h => absurd h (hc p f q)

theorem bare_throw (e : Fault) : Bare (throw e : Cycle δ α) := by
  intro p f q h
  cases h
  rfl

theorem bare_of_guarded {c : Cycle δ α} {test : Progress δ → Bool} {value : Progress δ → α}
    {after : Progress δ → Progress δ} {fault : Fault} (h : Guarded c test value after fault) :
    Bare c := by
  intro p f q hq
  rw [h p] at hq
  split at hq
  · cases hq
  · cases hq
    rfl

/- Nothing that follows faults. -/
theorem Bare.bind {c : Cycle δ α} {k : α → Cycle δ β} (hc : Bare c)
    (hk : ∀ a, Completes (k a)) : Bare (c >>= k) := by
  intro p f q h
  obtain h | ⟨a, r, -, h⟩ := bind_error h
  · exact hc p f q h
  · exact absurd h (hk a r f q)

/- Nothing was changed before. -/
theorem bare_look_bind (g : Machine δ → α) {k : α → Cycle δ β} (hk : ∀ a, Bare (k a)) :
    Bare (look g >>= k) := by
  intro p f q h
  rw [run_bind_of_ok (run_look _ _)] at h
  exact hk _ p f q h

variable [Device δ]

theorem completes_enter (vector : Word) (priority : Option (BitVec 3)) :
    Completes (enter (δ := δ) vector priority) := by
  intro p f q h
  rw [run_enter] at h
  cases h

theorem bare_loadPermitted (pc a : Word) : Bare (loadPermitted (δ := δ) pc a) :=
  bare_of_guarded (run_loadPermitted pc a)

theorem bare_storePermitted (pc a w : Word) : Bare (storePermitted (δ := δ) pc a w) :=
  bare_of_guarded (run_storePermitted pc a w)

theorem bare_leave (pc : Word) : Bare (leave (δ := δ) pc) :=
  bare_of_guarded (run_leave pc)

/-! ### Instructions -/

/- The two instructions that go through a pointer. -/
theorem pointer_error {n : Nat} {pc : Word} {offset : BitVec n} {k : Word → Cycle δ β}
    (hk : ∀ w, Bare (k w)) {p q : Progress δ} {f : Fault}
    (h : (relative offset >>= fun a => loadPermitted pc a >>= k).run p = .error f q) :
    q = p ∨ ∃ a, p.machine.access.permits a = true ∧ q = p.loaded a := by
  unfold relative at h
  rw [run_bind_of_ok (run_look _ _)] at h
  obtain h | ⟨w, r, hr, h⟩ := bind_error h
  · exact Or.inl (bare_loadPermitted _ _ p f q h)
  · rw [run_loadPermitted] at hr
    split at hr
    · next ha =>
      cases hr
      exact Or.inr ⟨_, ha, hk _ _ f q h⟩
    · cases hr

theorem execute_error {pc : Word} {i : Instruction} {p q : Progress δ} {f : Fault}
    (h : (execute pc i).run p = .error f q) :
    q = p ∨ ∃ a, p.machine.access.permits a = true ∧ q = p.loaded a := by
  have done : Completes (pure false : Cycle δ Bool) := completes_pure false
  have given (r : Reg) (w : Word) : Completes (do deliver r w; return false : Cycle δ Bool) :=
    completes_bind (completes_deliver r w) fun _ => done
  -- only a pointer can be read before a fault, so all other instructions are bare
  suffices hb : (∃ d o, i = .ldi d o) ∨ (∃ s o, i = .sti s o) ∨ Bare (execute (δ := δ) pc i) by
    rcases hb with ⟨d, o, rfl⟩ | ⟨s, o, rfl⟩ | hb
    · exact pointer_error (fun w => (bare_loadPermitted pc w).bind (given d)) h
    · exact pointer_error (fun w => bare_look_bind _ fun v =>
        (bare_storePermitted pc w v).bind fun _ => done) h
    · exact Or.inl (hb p f q h)
  cases i with
  | ldi d o => exact Or.inl ⟨d, o, rfl⟩
  | sti s o => exact Or.inr (Or.inl ⟨s, o, rfl⟩)
  | br codes o =>
    exact Or.inr (Or.inr (bare_look_bind _ fun t => (completes_update _).bare.bind fun _ => done))
  | add d s x =>
    exact Or.inr (Or.inr (bare_look_bind _ fun v => (completes_value x).bare.bind fun w => given d _))
  | and d s x =>
    exact Or.inr (Or.inr (bare_look_bind _ fun v => (completes_value x).bare.bind fun w => given d _))
  | ld d o =>
    exact Or.inr (Or.inr (bare_look_bind _ fun a => (bare_loadPermitted pc a).bind (given d)))
  | st s o =>
    exact Or.inr (Or.inr (bare_look_bind _ fun a => bare_look_bind _ fun v =>
      (bare_storePermitted pc a v).bind fun _ => done))
  | jsr t =>
    cases t with
    | imm o =>
      exact Or.inr (Or.inr (bare_look_bind _ fun a => (completes_update _).bare.bind fun _ => done))
    | reg r =>
      exact Or.inr (Or.inr (bare_look_bind _ fun a => (completes_update _).bare.bind fun _ => done))
  | ldr d b o =>
    exact Or.inr (Or.inr (bare_look_bind _ fun v => (bare_loadPermitted pc _).bind (given d)))
  | str s b o =>
    exact Or.inr (Or.inr (bare_look_bind _ fun a => bare_look_bind _ fun v =>
      (bare_storePermitted pc _ v).bind fun _ => done))
  | rti => exact Or.inr (Or.inr ((bare_leave pc).bind fun _ => done))
  | not d s => exact Or.inr (Or.inr (bare_look_bind _ fun v => (given d _).bare))
  | jmp b => exact Or.inr (Or.inr ((completes_update _).bare.bind fun _ => done))
  | lea d o => exact Or.inr (Or.inr (bare_look_bind _ fun a => (given d a).bare))
  | trap v =>
    refine Or.inr (Or.inr (bare_look_bind _ fun flags => ?_))
    split
    · exact (completes_pure true).bare
    · exact (completes_enter _ _).bare.bind fun _ => done
  | reserved w => exact Or.inr (Or.inr (bare_throw _))

/-! ### The instruction of a step -/

theorem perform_error {p q : Progress δ} {f : Fault}
    (h : (perform p.machine.pc).run p = .error f q) :
    q = p.marked ∨ q = p.marked.loaded p.machine.pc ∨ q = p.fetched ∨
      ∃ a, p.fetched.machine.access.permits a = true ∧ q = p.fetched.loaded a := by
  rw [run_perform] at h
  split at h
  · split at h
    · exact Or.inr (Or.inr (execute_error h))
    · cases h
      exact Or.inr (Or.inl rfl)
  · cases h
    exact Or.inl rfl

end Lc3.Cycle
