import Lc3.Device.Peripheral
import Lc3.Proofs.Parking

/-!
# The record of breakpoints

Breakpoints are kept in the order of their ids, all below the next one (`Breakpoints.Ordered`), and no
command of a host but those that edit them changes them (`Session.perform_breakpoints`). So they are
those that the host set and has neither removed nor cleared since (`Session.mem_breakpoints_iff`), an id
counts the breakpoints that were set before, and a look-up by address finds the oldest of those that
stand there (`Session.breakpoints_recorded`).
-/

namespace Lc3

variable {δ : Type}

namespace Breakpoints

/-! ### Look-ups -/

/- The ids increase and are in use. -/
structure Ordered (bs : Breakpoints) : Prop where
  increasing : bs.list.Pairwise (·.id < ·.id)
  issued : ∀ b ∈ bs.list, b.id < bs.nextId

theorem mem_set {bs : Breakpoints} {a : Word} {b : Breakpoint} :
    b ∈ (bs.set a).list ↔ b ∈ bs.list ∨ b = bs.fresh a := by
  unfold set
  rw [List.mem_append, List.mem_singleton]

theorem mem_remove {bs : Breakpoints} {id : Nat} {b : Breakpoint} :
    b ∈ (bs.remove id).list ↔ b ∈ bs.list ∧ b.id ≠ id := by
  unfold remove
  rw [List.mem_filter, bne_iff_ne]

theorem get?_eq_none_iff {bs : Breakpoints} {id : Nat} :
    bs.get? id = none ↔ ∀ b ∈ bs.list, b.id ≠ id := by
  unfold get?
  simp only [List.find?_eq_none, beq_iff_eq, ne_eq]

theorem at?_eq_none_iff {bs : Breakpoints} {a : Word} :
    bs.at? a = none ↔ ∀ b ∈ bs.list, b.address ≠ a := by
  unfold at?
  simp only [List.find?_eq_none, beq_iff_eq, ne_eq]

/- An id without a breakpoint is removed in vain. -/
theorem remove_of_get?_none {bs : Breakpoints} {id : Nat} (h : bs.get? id = none) :
    bs.remove id = bs := by
  have all : bs.list.filter (·.id != id) = bs.list :=
    List.filter_eq_self.mpr fun b hb => bne_iff_ne.mpr (get?_eq_none_iff.mp h b hb)
  unfold remove
  rw [all]

namespace Ordered

variable {bs : Breakpoints}

theorem set (h : bs.Ordered) (a : Word) : (bs.set a).Ordered := by
  constructor
  · unfold Breakpoints.set
    rw [List.pairwise_append]
    refine ⟨h.increasing, List.pairwise_singleton _ _, ?_⟩
    intro b hb c hc
    rw [List.mem_singleton.mp hc]
    exact h.issued b hb
  · intro b hb
    show b.id < bs.nextId + 1
    obtain old | rfl := mem_set.mp hb
    · exact Nat.lt_succ_of_lt (h.issued b old)
    · exact Nat.lt_succ_self _

theorem remove (h : bs.Ordered) (id : Nat) : (bs.remove id).Ordered := by
  constructor
  · exact h.increasing.sublist List.filter_sublist
  · intro b hb
    exact h.issued b (mem_remove.mp hb).1

theorem cleared (bs : Breakpoints) : bs.clear.Ordered := by
  constructor
  · exact .nil
  · intro b hb
    exact (List.not_mem_nil hb).elim

/- Where the ids increase, a search finds what has the lowest id of all that it looks for. -/
theorem find?_eq_some_iff (h : bs.Ordered) {p : Breakpoint → Bool} {b : Breakpoint} :
    bs.list.find? p = some b ↔
      b ∈ bs.list ∧ p b = true ∧ ∀ c ∈ bs.list, p c = true → b.id ≤ c.id := by
  have increasing := h.increasing
  clear h
  generalize bs.list = xs at increasing ⊢
  induction xs with
  | nil => simp
  | cons x xs ih =>
    obtain ⟨first, rest⟩ := List.pairwise_cons.mp increasing
    cases hx : p x with
    | true =>
      rw [List.find?_cons_of_pos hx]
      constructor
      · intro found
        obtain rfl := Option.some.inj found
        refine ⟨List.mem_cons_self, hx, ?_⟩
        intro c hc _
        obtain rfl | later := List.mem_cons.mp hc
        · exact Nat.le_refl _
        · exact Nat.le_of_lt (first c later)
      · intro lowest
        obtain ⟨among, -, least⟩ := lowest
        obtain rfl | later := List.mem_cons.mp among
        · rfl
        · have low := first b later
          have high := least x List.mem_cons_self hx
          omega
    | false =>
      have skips : ¬p x = true := by simp [hx]
      rw [List.find?_cons_of_neg skips]
      refine (ih rest).trans ?_
      constructor
      · intro lowest
        obtain ⟨among, hb, least⟩ := lowest
        refine ⟨List.mem_cons_of_mem x among, hb, ?_⟩
        intro c hc hp
        obtain rfl | later := List.mem_cons.mp hc
        · exact absurd hp skips
        · exact least c later hp
      · intro lowest
        obtain ⟨among, hb, least⟩ := lowest
        refine ⟨?_, hb, fun c hc => least c (List.mem_cons_of_mem x hc)⟩
        obtain rfl | later := List.mem_cons.mp among
        · exact absurd hb skips
        · exact later

theorem at?_eq_some_iff (h : bs.Ordered) {a : Word} {b : Breakpoint} :
    bs.at? a = some b ↔
      b ∈ bs.list ∧ b.address = a ∧ ∀ c ∈ bs.list, c.address = a → b.id ≤ c.id := by
  unfold at?
  rw [h.find?_eq_some_iff]
  simp only [beq_iff_eq]

theorem get?_eq_some_iff (h : bs.Ordered) {id : Nat} {b : Breakpoint} :
    bs.get? id = some b ↔ b ∈ bs.list ∧ b.id = id := by
  unfold get?
  rw [h.find?_eq_some_iff]
  simp only [beq_iff_eq]
  constructor
  · intro lowest
    exact ⟨lowest.1, lowest.2.1⟩
  · intro named
    refine ⟨named.1, named.2, ?_⟩
    intro c _ same
    omega

end Ordered

end Breakpoints

variable [Device δ]

/-! ### Machines -/

/- What a machine holds for its host that no step changes. -/
def Host.lasting (h : Host) : Breakpoints × Entropy := (h.breakpoints, h.entropy)

namespace Machine

theorem step_lasting (m : Machine δ) : m.step.machine.host.lasting = m.host.lasting := by
  by_cases ready : m.condition = .ready
  · obtain ⟨f, -, -, host⟩ | ⟨c, -, -, host⟩ := step_host ready
    · rw [host]
      rfl
    · rw [host]
      rfl
  · rw [step_of_not_ready ready]

theorem inspect_lasting (m : Machine δ) (a : Word) : (m.inspect a).2.host.lasting = m.host.lasting :=
  congrArg Host.lasting (m.load_host a false)

theorem run_lasting {η : Type} (m : Machine δ) (p : Policy) (handler : HitHandler δ η) (h : η) :
    (m.run p handler h).machine.host.lasting = m.host.lasting :=
  run_keeps (R := fun m m' => m'.host.lasting = m.host.lasting) (fun _ => rfl)
    (fun h h' => h'.trans h) step_lasting inspect_lasting (fun _ _ => rfl) (fun _ _ _ => rfl) m p
    handler h

end Machine

/-! ### Commands -/

/-- Whether the command sets a breakpoint. -/
def Command.setsBreakpoint : Command δ → Bool
  | .setBreakpoint _ => true
  | _ => false

namespace Session

/- Only the commands that edit the breakpoints change them, and only a reset makes a generator. -/
theorem perform_lasting (s : Session δ) (c : Command δ) :
    (s.perform c).session.machine.host.lasting = match c with
      | .setBreakpoint a => (s.machine.breakpoints.set a, s.machine.entropy)
      | .removeBreakpoint id => (s.machine.breakpoints.remove id, s.machine.entropy)
      | .clearBreakpoints => (s.machine.breakpoints.clear, s.machine.entropy)
      | .reset => (s.machine.breakpoints, s.machine.entropy.next)
      | _ => s.machine.host.lasting := by
  cases c with
  | removeBreakpoint id =>
    unfold perform
    dsimp only
    cases found : s.machine.breakpoints.get? id with
    | some b => rfl
    | none => exact congrArg (·, s.machine.entropy) (Breakpoints.remove_of_get?_none found).symm
  | load _ _ | loadText _ | loadObject _ | readRegister _ =>
    unfold perform
    dsimp only
    split <;> rfl
  | writeRegister n w =>
    unfold perform Machine.writeRegister
    dsimp only
    cases Reg.ofNumber n <;> rfl
  | readMemory a => exact s.machine.inspect_lasting a
  | writeMemory a w => exact congrArg Host.lasting (s.machine.store_host a w)
  | disassemble a n =>
    exact Machine.disassemble_keeps (R := fun m m' => m'.host.lasting = m.host.lasting)
      (fun _ => rfl) (fun h h' => h'.trans h) Machine.inspect_lasting s.machine a n
  | step n =>
    exact Machine.steps_keeps (R := fun m m' => m'.host.lasting = m.host.lasting) (fun _ => rfl)
      (fun h h' => h'.trans h) Machine.step_lasting s.machine n
  | run p w =>
    exact s.run_keeps (R := fun m m' => m'.host.lasting = m.host.lasting) p w
      (s.machine.run_lasting p)
  | _ => rfl

/- What a command makes of the breakpoints. -/
theorem perform_breakpoints (s : Session δ) (c : Command δ) :
    (s.perform c).session.machine.breakpoints = match c with
      | .setBreakpoint a => s.machine.breakpoints.set a
      | .removeBreakpoint id => s.machine.breakpoints.remove id
      | .clearBreakpoints => s.machine.breakpoints.clear
      | _ => s.machine.breakpoints := by
  have lasting := congrArg Prod.fst (s.perform_lasting c)
  cases c <;> exact lasting

/- A command keeps the breakpoints that it does not remove, and adds the one that it answers with. -/
theorem mem_perform {s : Session δ} {c : Command δ} {b : Breakpoint} :
    b ∈ (s.perform c).session.machine.breakpoints.list ↔
      b ∈ s.machine.breakpoints.list ∧ c ≠ .removeBreakpoint b.id ∧ c ≠ .clearBreakpoints ∨
        c = .setBreakpoint b.address ∧ (s.perform c).answer = .breakpoint (some b) := by
  rw [perform_breakpoints]
  cases c with
  | setBreakpoint a =>
    have answered : (s.perform (.setBreakpoint a)).answer =
        .breakpoint (some (s.machine.breakpoints.fresh a)) := rfl
    rw [answered]
    dsimp only
    rw [Breakpoints.mem_set]
    constructor
    · intro kept
      obtain old | rfl := kept
      · exact Or.inl ⟨old, nofun, nofun⟩
      · exact Or.inr ⟨rfl, rfl⟩
    · intro kept
      obtain ⟨old, -, -⟩ | ⟨-, same⟩ := kept
      · exact Or.inl old
      · cases same
        exact Or.inr rfl
  | removeBreakpoint id =>
    dsimp only
    rw [Breakpoints.mem_remove]
    simp [eq_comm]
  | clearBreakpoints => simp [Breakpoints.clear]
  | _ => simp

/-- The breakpoint was set along the commands, and since then neither removed nor cleared. -/
def Stands (s : Session δ) (cs : List (Command δ)) (b : Breakpoint) : Prop :=
  ∃ before after, cs = before ++ .setBreakpoint b.address :: after ∧
    ((s.performAll before).perform (.setBreakpoint b.address)).answer = .breakpoint (some b) ∧
    .removeBreakpoint b.id ∉ after ∧ .clearBreakpoints ∉ after

theorem stands_cons {s : Session δ} {c : Command δ} {cs : List (Command δ)} {b : Breakpoint} :
    s.Stands (c :: cs) b ↔
      (c = .setBreakpoint b.address ∧ (s.perform c).answer = .breakpoint (some b) ∧
        .removeBreakpoint b.id ∉ cs ∧ .clearBreakpoints ∉ cs) ∨
      (s.perform c).session.Stands cs b := by
  constructor
  · intro stands
    obtain ⟨before, after, split, answered, kept⟩ := stands
    cases before with
    | nil =>
      obtain ⟨rfl, rfl⟩ := List.cons.inj split
      exact Or.inl ⟨rfl, answered, kept⟩
    | cons d before =>
      obtain ⟨rfl, rfl⟩ := List.cons.inj split
      exact Or.inr ⟨before, after, rfl, answered, kept⟩
  · intro stands
    obtain ⟨rfl, answered, kept⟩ | ⟨before, after, rfl, answered, kept⟩ := stands
    · exact ⟨[], cs, rfl, answered, kept⟩
    · exact ⟨c :: before, after, rfl, answered, kept⟩

/- The induction takes the first command off, so that it is over any session. -/
theorem mem_performAll (s : Session δ) (cs : List (Command δ)) (b : Breakpoint) :
    b ∈ (s.performAll cs).machine.breakpoints.list ↔
      b ∈ s.machine.breakpoints.list ∧ .removeBreakpoint b.id ∉ cs ∧ .clearBreakpoints ∉ cs ∨
        s.Stands cs b := by
  induction cs generalizing s with
  | nil => simp [performAll, Stands]
  | cons c cs ih =>
    have first := ih (s.perform c).session
    rw [mem_perform] at first
    rw [stands_cons, List.mem_cons, List.mem_cons, not_or, not_or]
    refine first.trans ?_
    constructor
    · intro listed
      obtain ⟨⟨old, keeps, keeps'⟩ | ⟨rfl, answered⟩, removed, cleared⟩ | later := listed
      · exact Or.inl ⟨old, ⟨Ne.symm keeps, removed⟩, Ne.symm keeps', cleared⟩
      · exact Or.inr (Or.inl ⟨rfl, answered, removed, cleared⟩)
      · exact Or.inr (Or.inr later)
    · intro listed
      obtain ⟨old, ⟨keeps, removed⟩, keeps', cleared⟩ | ⟨rfl, answered, removed, cleared⟩ | later :=
        listed
      · exact Or.inl ⟨Or.inl ⟨old, Ne.symm keeps, Ne.symm keeps'⟩, removed, cleared⟩
      · exact Or.inl ⟨Or.inr ⟨rfl, answered⟩, removed, cleared⟩
      · exact Or.inr later

theorem mem_breakpoints_iff (flags : Flags) (entropy : Entropy) (capacity : Option Nat)
    (history : List (Command δ)) (b : Breakpoint) :
    let fresh : Session δ := Session.start flags entropy capacity
    b ∈ (fresh.performAll history).machine.breakpoints.list ↔ fresh.Stands history b := by
  intro fresh
  rw [mem_performAll]
  constructor
  · intro listed
    obtain ⟨old, -⟩ | stands := listed
    · exact (List.not_mem_nil old).elim
    · exact stands
  · exact Or.inr

theorem performAll_ordered {s : Session δ} (h : s.machine.breakpoints.Ordered)
    (cs : List (Command δ)) : (s.performAll cs).machine.breakpoints.Ordered := by
  refine performAll_keeps (R := fun m m' => m.breakpoints.Ordered → m'.breakpoints.Ordered)
    (P := fun _ => True) (fun _ h => h) (fun h h' start => h' (h start)) ?_ s (fun _ _ => trivial) h
  intro s c _ ordered
  rw [perform_breakpoints]
  split
  · exact ordered.set _
  · exact ordered.remove _
  · exact .cleared _
  · exact ordered

/- The next id counts the breakpoints that were set. -/
theorem performAll_nextId (s : Session δ) (cs : List (Command δ)) :
    (s.performAll cs).machine.breakpoints.nextId =
      s.machine.breakpoints.nextId + cs.countP Command.setsBreakpoint := by
  induction cs generalizing s with
  | nil => rfl
  | cons c cs ih =>
    have first : (s.perform c).session.machine.breakpoints.nextId =
        s.machine.breakpoints.nextId + if c.setsBreakpoint then 1 else 0 := by
      rw [perform_breakpoints]
      cases c <;> rfl
    have later := ih (s.perform c).session
    rw [first] at later
    rw [List.countP_cons]
    change ((s.perform c).session.performAll cs).machine.breakpoints.nextId = _
    omega

/- The answer to a command that sets a breakpoint. -/
theorem setBreakpoint_answer (flags : Flags) (entropy : Entropy) (capacity : Option Nat)
    (history : List (Command δ)) (a : Word) :
    let s : Session δ := (Session.start flags entropy capacity).performAll history
    (s.perform (.setBreakpoint a)).answer =
      .breakpoint (some ⟨history.countP Command.setsBreakpoint, a⟩) := by
  intro s
  have counted : s.machine.breakpoints.nextId = 0 + history.countP Command.setsBreakpoint :=
    performAll_nextId _ history
  change Answer.breakpoint (some ⟨s.machine.breakpoints.nextId, a⟩) = _
  rw [counted, Nat.zero_add]

theorem removeBreakpoint_answer (s : Session δ) (id : Nat) :
    ∃ known, (s.perform (.removeBreakpoint id)).answer = .flag known ∧
      (known = true ↔ ∃ b ∈ s.machine.breakpoints.list, b.id = id) := by
  unfold perform
  dsimp only
  cases found : s.machine.breakpoints.get? id with
  | some b =>
    change s.machine.breakpoints.list.find? (·.id == id) = some b at found
    have same := List.find?_some found
    exact ⟨true, rfl, fun _ => ⟨b, List.mem_of_find?_eq_some found, eq_of_beq same⟩, fun _ => rfl⟩
  | none =>
    refine ⟨false, rfl, nofun, ?_⟩
    intro known
    obtain ⟨b, listed, same⟩ := known
    exact absurd same (Breakpoints.get?_eq_none_iff.mp found b listed)

/-- The record of breakpoints agrees with its history, whatever else a host does. A breakpoint that is
set gets an id above those of all that were set before, removed or not. The breakpoints are listed in
the order of their ids, and those listed were set and have neither been removed nor cleared since. An
id finds the breakpoint that has it, if it is listed, and an address the one with the lowest id of those
listed there. A removal says whether the id was listed, and takes only that breakpoint away. -/
theorem breakpoints_recorded (flags : Flags) (entropy : Entropy) (capacity : Option Nat)
    (history : List (Command δ)) :
    let fresh : Session δ := Session.start flags entropy capacity
    let s := fresh.performAll history
    (∀ (a a' : Word) (between : List (Command δ)),
      let first := s.perform (.setBreakpoint a)
      let second := (first.session.performAll between).perform (.setBreakpoint a')
      ∃ id id', first.answer = .breakpoint (some ⟨id, a⟩) ∧
        second.answer = .breakpoint (some ⟨id', a'⟩) ∧ id < id') ∧
    (∃ bs, (s.perform .listBreakpoints).answer = .breakpoints bs ∧
      bs.list.Pairwise (·.id < ·.id) ∧ ∀ b, b ∈ bs.list ↔ fresh.Stands history b) ∧
    (∀ id, ∃ found, (s.perform (.getBreakpoint id)).answer = .breakpoint found ∧
      ∀ b, found = some b ↔ fresh.Stands history b ∧ b.id = id) ∧
    (∀ a, ∃ found, (s.perform (.breakpointAt a)).answer = .breakpoint found ∧
      (found = none ↔ ∀ b, fresh.Stands history b → b.address ≠ a) ∧
      ∀ b, found = some b ↔ fresh.Stands history b ∧ b.address = a ∧
        ∀ c, fresh.Stands history c → c.address = a → b.id ≤ c.id) ∧
    ∀ id, ∃ known, (s.perform (.removeBreakpoint id)).answer = .flag known ∧
      (known = true ↔ ∃ b, fresh.Stands history b ∧ b.id = id) ∧
      (s.perform (.removeBreakpoint id)).session.machine.breakpoints.list =
        s.machine.breakpoints.list.filter (·.id != id) := by
  intro fresh s
  have listed (b : Breakpoint) : b ∈ s.machine.breakpoints.list ↔ fresh.Stands history b :=
    mem_breakpoints_iff flags entropy capacity history b
  have ordered : s.machine.breakpoints.Ordered := performAll_ordered (.cleared {}) history
  refine ⟨?_, ?_, ?_, ?_, ?_⟩
  · intro a a' between first second
    have earlier := setBreakpoint_answer (δ := δ) flags entropy capacity history a
    have later := setBreakpoint_answer (δ := δ) flags entropy capacity
      (history ++ .setBreakpoint a :: between) a'
    dsimp only at later
    rw [performAll, List.foldl_append, List.countP_append, List.countP_cons] at later
    exact ⟨_, _, earlier, later, by simp [Command.setsBreakpoint]⟩
  · exact ⟨_, rfl, ordered.increasing, listed⟩
  · intro id
    refine ⟨_, rfl, fun b => ?_⟩
    rw [ordered.get?_eq_some_iff, listed]
  · intro a
    refine ⟨_, rfl, ?_, fun b => ?_⟩
    · rw [Breakpoints.at?_eq_none_iff]
      simp only [listed]
    · rw [ordered.at?_eq_some_iff]
      simp only [listed]
  · intro id
    obtain ⟨known, answered, knows⟩ := s.removeBreakpoint_answer id
    simp only [listed] at knows
    refine ⟨known, answered, knows, ?_⟩
    rw [perform_breakpoints]
    rfl

/- Of two breakpoints at an address, the older one is removed. -/
example : (((Session.start {} (.constant 0) none : Session Peripheral).performAll [.setBreakpoint 0x3001,
    .setBreakpoint 0x3001, .removeBreakpoint 0]).perform (.breakpointAt 0x3001)).answer =
      .breakpoint (some ⟨1, 0x3001⟩) := rfl

end Session

end Lc3
