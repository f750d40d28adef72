import Lc3.Proofs.Log
import Lc3.Proofs.Ports

/-!
# Which interrupt a step accepts

Before its instruction a step asks the devices for interrupts. They offer them in the order of their
ids (`Bus.pairwise_attached`), and the last of those with the highest priority is put forward
(`mostUrgent?_eq_some_iff`). If its priority exceeds the one of the machine, the step enters its
handler (`Machine.handling`) and goes on with the first instruction there; otherwise it goes on as if
nothing had been offered (`step_arbitrates`).
-/

namespace Lc3

variable {δ : Type}

/-! ### The most urgent request -/

namespace Interrupt

/-- The request is the last one of those with the highest priority. -/
def LastHighest (i : Interrupt) (is : List Interrupt) : Prop :=
  ∃ front back, is = front ++ i :: back ∧ (∀ j ∈ front, j.priority ≤ i.priority) ∧
    ∀ j ∈ back, j.priority < i.priority

theorem LastHighest.le {i : Interrupt} {is : List Interrupt} (h : i.LastHighest is) :
    ∀ j ∈ is, j.priority ≤ i.priority := by
  obtain ⟨front, back, split, before, behind⟩ := h
  intro j hj
  rw [split, List.mem_append, List.mem_cons] at hj
  obtain hj | hj | hj := hj
  · exact before j hj
  · rw [hj]
    exact BitVec.le_refl _
  · exact BitVec.le_of_lt (behind j hj)

theorem LastHighest.mem {i : Interrupt} {is : List Interrupt} (h : i.LastHighest is) : i ∈ is := by
  obtain ⟨front, back, split, -, -⟩ := h
  rw [split]
  simp

/- The last request wins unless an earlier one has a higher priority. -/
theorem lastHighest_snoc {i j : Interrupt} {is : List Interrupt} :
    i.LastHighest (is ++ [j]) ↔
      (i = j ∧ ∀ k ∈ is, k.priority ≤ j.priority) ∨ (i.LastHighest is ∧ j.priority < i.priority) := by
  constructor
  · rintro ⟨front, back, split, before, behind⟩
    obtain rfl | ⟨back, k, rfl⟩ := List.eq_nil_or_concat back
    · obtain ⟨rfl, last⟩ := List.append_inj' split rfl
      obtain rfl : j = i := by simpa using last
      exact Or.inl ⟨rfl, before⟩
    · rw [List.concat_eq_append] at split behind
      rw [← List.cons_append, ← List.append_assoc] at split
      obtain ⟨rfl, last⟩ := List.append_inj' split rfl
      obtain rfl : j = k := by simpa using last
      exact Or.inr ⟨⟨front, back, rfl, before, fun l hl => behind l (by simp [hl])⟩,
        behind j (by simp)⟩
  · rintro (⟨rfl, before⟩ | ⟨⟨front, back, rfl, before, behind⟩, lower⟩)
    · exact ⟨is, [], rfl, before, by simp⟩
    · refine ⟨front, back ++ [j], by simp, before, fun k hk => ?_⟩
      obtain hk | rfl : k ∈ back ∨ k = j := by simpa using hk
      · exact behind k hk
      · exact lower

theorem mostUrgent?_snoc (is : List Interrupt) (j : Interrupt) :
    mostUrgent? (is ++ [j]) = some ((mostUrgent? is).elim j fun i => i.later j) := by
  cases is with
  | nil => rfl
  | cons i is => simp [mostUrgent?]

theorem mostUrgent?_eq_some_iff {i : Interrupt} {is : List Interrupt} :
    mostUrgent? is = some i ↔ i.LastHighest is := by
  induction is using List.reverseRecOn generalizing i with
  | nil =>
    refine ⟨fun h => (nomatch h), fun h => ?_⟩
    exact absurd h.mem List.not_mem_nil
  | append_singleton is j ih =>
    rw [mostUrgent?_snoc, lastHighest_snoc, ← ih]
    cases first : mostUrgent? is with
    | none =>
      obtain rfl : is = [] := by
        cases is with
        | nil => rfl
        | cons k ks => cases first
      simp [@eq_comm _ i j]
    | some k =>
      have top := (ih.mp first).le
      have below : (∀ l ∈ is, l.priority ≤ j.priority) ↔ k.priority ≤ j.priority :=
        ⟨fun h => h k (ih.mp first).mem, fun h l hl => BitVec.le_trans (top l hl) h⟩
      rw [below]
      simp only [Option.elim_some, Option.some.injEq, later]
      by_cases h : k.priority ≤ j.priority
      · rw [if_pos h]
        constructor
        · rintro rfl
          exact Or.inl ⟨rfl, h⟩
        · rintro (⟨rfl, -⟩ | ⟨rfl, lower⟩)
          · rfl
          · exact absurd lower (BitVec.not_lt.mpr h)
      · rw [if_neg h]
        constructor
        · rintro rfl
          exact Or.inr ⟨rfl, BitVec.not_le.mp h⟩
        · rintro (⟨-, h'⟩ | ⟨rfl, -⟩)
          · exact absurd h' h
          · rfl

end Interrupt

/-! ### The handler of an interrupt -/

/-- The status in which the handler of an interrupt starts: in supervisor mode, with the priority of the
interrupt and condition code z. All other bits are kept. -/
def Psr.interrupted (s : Psr) (priority : BitVec 3) : Psr :=
  ⟨0#1 ++ s.word.extractLsb' 11 4 ++ priority ++ s.word.extractLsb' 3 5 ++ Psr.zero⟩

theorem Psr.entered_some (s : Psr) (p : BitVec 3) :
    (s.withPrivileged true).entered (some p) = s.interrupted p := by
  show Psr.mk ((((0#1 ++ s.word.extractLsb' 0 15).extractLsb' 3 13 ++ zero).extractLsb' 11 5 ++ p) ++
    ((0#1 ++ s.word.extractLsb' 0 15).extractLsb' 3 13 ++ zero).extractLsb' 0 8) = _
  unfold interrupted
  congr 1
  apply BitVec.eq_of_getLsbD_eq
  intro i hi
  simp only [BitVec.getLsbD_append, BitVec.getLsbD_extractLsb']
  -- the condition code, bits 3 to 7, the priority, bits 11 to 14, and the mode
  obtain h | ⟨l, h⟩ | ⟨l, h⟩ | ⟨l, h⟩ | h : i < 3 ∨ (3 ≤ i ∧ i < 8) ∨ (8 ≤ i ∧ i < 11) ∨
      (11 ≤ i ∧ i < 15) ∨ i = 15 := by omega
  · simp (disch := omega) only [if_pos, decide_eq_true, Bool.true_and, Nat.zero_add]
  · simp (disch := omega) only [if_pos, if_neg, decide_eq_true, Bool.true_and, Nat.zero_add]
  · simp (disch := omega) only [if_pos, if_neg, decide_eq_true, Bool.true_and, Nat.zero_add,
      Nat.sub_sub]
  · simp (disch := omega) only [if_pos, if_neg, decide_eq_true, Bool.true_and, Nat.zero_add,
      Nat.sub_sub, Nat.add_sub_cancel']
  · subst h
    simp

namespace Machine

/- The entry of the interrupt table for an interrupt. -/
def vectorOf (i : Interrupt) : Word := interruptTable + unsignedField i.vector

theorem vectorOf_lt (i : Interrupt) : vectorOf i < ioStart := by
  unfold vectorOf interruptTable unsignedField ioStart
  bv_omega

/-- The machine at the start of the handler of an interrupt: the status and the program counter are
pushed onto the stack of the supervisor, whose pointer moves down by two words, and the program counter
is what the interrupt table holds then. -/
def handling (m : Machine δ) (i : Interrupt) : Machine δ :=
  let sp := m.supervisorSp
  let memory := (m.memory.set (sp - 1) m.psr.word).set (sp - 2) m.pc
  { m with
    memory := memory
    registers := m.registers.set stackReg (sp - 2)
    savedSp := if m.psr.privileged then m.savedSp else m.reg stackReg
    psr := m.psr.interrupted i.priority
    pc := memory.get (vectorOf i) }

variable [Device δ]

omit [Device δ] in
theorem descend_supervisor (m : Machine δ) (sp : Word) :
    m.core.supervisor.descend sp =
      { registers := m.registers.set stackReg (sp - 2)
        pc := m.pc
        psr := m.psr.withPrivileged true
        savedSp := if m.psr.privileged then m.savedSp else m.reg stackReg } := by
  have twice (w : Word) : (m.registers.set stackReg w).set stackReg (sp - 2) =
      m.registers.set stackReg (sp - 2) := by
    apply Bank.ext
    intro r
    rw [Bank.get_set, Bank.get_set, Bank.get_set]
    split <;> rfl
  unfold Core.supervisor
  cases h : m.core.psr.privileged with
  | true =>
    have privileged : m.psr.privileged = true := h
    rw [privileged]
    rfl
  | false =>
    have user : m.psr.privileged = false := h
    rw [user, ← twice m.savedSp]
    rfl

theorem poised_of_below {m : Machine δ} (below : m.PushesBelow) (i : Interrupt) :
    m.poised (some i.priority) = { m.handling i with pc := m.pc } := by
  unfold poised
  rw [pushed_psr below.apart, Psr.entered_some, pushed_of_below below, descend_supervisor]
  rfl

theorem entered_of_below {m : Machine δ} (below : m.PushesBelow) (i : Interrupt) :
    m.entered (vectorOf i) (some i.priority) = m.handling i := by
  unfold entered
  rw [poised_of_below below, load_of_lt _ _ (vectorOf_lt i)]
  rfl

/-! ### Steps -/

/-- A step without the question for interrupts: the instruction at the program counter, taken back to
the machine before the step if it faults. -/
def rest (m : Machine δ) (p : Progress δ) : Step δ :=
  match (Cycle.perform p.machine.pc).run p with
  | .ok halts q => q.concluded p.machine.pc halts
  | .error f q => q.undone m f

/-- To be asked for an interrupt leaves no device changed. -/
def Steady (m : Machine δ) : Prop := ∀ x ∈ m.bus.attached, (Device.poll x.device).2 = x.device

variable {m : Machine δ}

theorem Steady.polled (steady : m.Steady) : m.polled = m := by
  have same : m.bus.mapDevices (fun d => (Device.poll d).2) = m.bus := Bus.mapDevices_eq_self steady
  unfold Machine.polled Bus.poll
  rw [same]

theorem step_eq_rest (ready : m.condition = .ready) :
    m.step = m.rest (Progress.accepted ⟨m, #[]⟩) := by
  rw [m.step_of_ready ready, ← Progress.accepted_machine ⟨m, #[]⟩]
  rfl

theorem urgent?_eq_some_iff {i : Interrupt} :
    m.urgent? = some i ↔ i.LastHighest m.bus.offers ∧ m.psr.priority < i.priority := by
  unfold urgent?
  rw [Option.filter_eq_some_iff, decide_eq_true_eq, ← Interrupt.mostUrgent?_eq_some_iff]
  rfl

theorem exists_urgent_iff :
    (∃ i, m.urgent? = some i) ↔ ∃ i ∈ m.bus.offers, m.psr.priority < i.priority := by
  simp only [urgent?_eq_some_iff]
  constructor
  · rintro ⟨i, highest, above⟩
    exact ⟨i, highest.mem, above⟩
  · rintro ⟨j, offered, above⟩
    cases top : Interrupt.mostUrgent? m.bus.offers with
    | none =>
      cases h : m.bus.offers with
      | nil => simp [h] at offered
      | cons k ks => simp [h, Interrupt.mostUrgent?] at top
    | some i =>
      have highest := Interrupt.mostUrgent?_eq_some_iff.mp top
      have top := highest.le j offered
      exact ⟨i, highest, by bv_omega⟩

theorem accepted_of_urgent (steady : m.Steady) (below : m.PushesBelow) {i : Interrupt}
    (urgent : m.urgent? = some i) :
    Progress.accepted ⟨m, #[]⟩ = ⟨m.handling i, #[.interrupted i,
      .wrote (m.supervisorSp - 1) m.psr.word, .wrote (m.supervisorSp - 2) m.pc,
      .read (vectorOf i)]⟩ := by
  unfold Progress.accepted
  dsimp only
  rw [urgent, steady.polled]
  change Progress.entered _ (vectorOf i) _ = _
  unfold Progress.entered Progress.noted
  dsimp only
  rw [sp_supervisor, poised_of_below below, load_of_lt _ _ (vectorOf_lt i)]
  congr 1
  exact entered_of_below below i

end Machine

/-- How a step deals with interrupts, whatever devices a host attached and removed before. The devices
offer theirs in the order of their ids, the keyboard first; the display offers none. A step accepts the
last offer of the highest priority if that priority exceeds the one of the machine, and then goes on
from its handler, if the pushed words land in plain memory. If no offer has a priority that exceeds
the one of the machine, the step is what it is without the question. Either way the step counts one
instruction unless it faults. -/
theorem Session.step_arbitrates [Device δ] (flags : Flags) (entropy : Entropy) (capacity : Option Nat)
    (history : List (Command δ)) :
    let s := (Session.start flags entropy capacity).performAll history
    ∀ m : Machine δ, Bus.WiredAlike s.machine.bus m.bus → m.condition = .ready → m.Steady →
      (∃ live : List (Attachment δ), (∀ x, x ∈ live ↔ x ∈ m.bus.attached) ∧
        live.Pairwise (fun x y => x.id < y.id) ∧
        m.bus.offers = m.bus.keyboard.poll.toList ++
          live.filterMap fun x => (Device.poll x.device).1) ∧
      (∀ i, .interrupted i ∈ m.step.events ↔
        i.LastHighest m.bus.offers ∧ m.psr.priority < i.priority) ∧
      ((∃ i, .interrupted i ∈ m.step.events) ↔ ∃ i ∈ m.bus.offers, m.psr.priority < i.priority) ∧
      (∀ i, .interrupted i ∈ m.step.events → m.PushesBelow → m.step = m.rest ⟨m.handling i,
        #[.interrupted i, .wrote (m.supervisorSp - 1) m.psr.word, .wrote (m.supervisorSp - 2) m.pc,
          .read (Machine.vectorOf i)]⟩) ∧
      ((¬∃ i ∈ m.bus.offers, m.psr.priority < i.priority) → m.step = m.rest ⟨m, #[]⟩) ∧
      ((∃ f, m.step.result = .faulted f ∧ m.step.machine.retired = m.retired) ∨
        (∀ f, m.step.result ≠ .faulted f) ∧ m.step.machine.retired = m.retired + 1) := by
  intro s m _ ready steady
  have offers : m.bus.offers = m.bus.keyboard.poll.toList ++
      m.bus.attached.filterMap fun x => (Device.poll x.device).1 := by
    unfold Bus.offers
    rw [← m.bus.map_device_attached, List.filterMap_map]
    rfl
  have told (i : Interrupt) : .interrupted i ∈ m.step.events ↔ m.urgent? = some i :=
    Machine.interrupted_mem_step ready
  have rest := Machine.step_eq_rest ready
  refine ⟨⟨m.bus.attached, fun _ => Iff.rfl, m.bus.pairwise_attached, offers⟩,
    fun i => (told i).trans Machine.urgent?_eq_some_iff, ?_, fun i interrupted below => ?_,
    fun quiet => ?_, ?_⟩
  · simp only [told]
    exact Machine.exists_urgent_iff
  · rw [rest, Machine.accepted_of_urgent steady below ((told i).mp interrupted)]
  · have calm : m.urgent? = none := by
      cases h : m.urgent? with
      | none => rfl
      | some i => exact absurd (Machine.exists_urgent_iff.mp ⟨i, h⟩) quiet
    have polled : Progress.accepted ⟨m, #[]⟩ = ⟨m.polled, #[]⟩ := Progress.accepted_of_none calm
    rw [rest, polled, steady.polled]
  · obtain ⟨f, faulted, -, host⟩ | ⟨c, completes, -, host⟩ := Machine.step_host ready
    · exact Or.inl ⟨f, faulted, congrArg Host.retired host⟩
    · exact Or.inr ⟨completes, congrArg Host.retired host⟩

/- Two timers offer interrupts of the same priority, and a third of a higher one was removed. -/
theorem Session.step_arbitrates_timers :
    let timer (vector : Byte) (priority : BitVec 3) : Command Peripheral :=
      .attach (.timer 0 ⟨vector, priority⟩ 0) []
    let m := ((Session.start {} (.constant 0) none).performAll
      [timer 0x90 5, timer 0x91 5, timer 0x92 7, .detach 5]).machine
    m.step = m.rest ⟨m.handling ⟨0x91, 5⟩, #[.interrupted ⟨0x91, 5⟩, .wrote 0x2FFF 0x8002,
      .wrote 0x2FFE 0x3000, .read 0x0191]⟩ := by
  intro timer m
  obtain ⟨-, accepts, -, handles, -, -⟩ := step_arbitrates {} (.constant 0) none
    [timer 0x90 5, timer 0x91 5, timer 0x92 7, .detach 5] m (.refl _) rfl (fun _ _ => rfl)
  have offers : m.bus.offers = [⟨0x90, 5⟩, ⟨0x91, 5⟩] := by decide +kernel
  have highest : Interrupt.LastHighest ⟨0x91, 5⟩ m.bus.offers := by
    rw [offers]
    exact ⟨[⟨0x90, 5⟩], [], rfl, by simp, by simp⟩
  have told := (accepts _).mpr ⟨highest, by decide +kernel⟩
  have sp : m.supervisorSp = 0x3000 := by decide +kernel
  have psr : m.psr.word = 0x8002 := by decide +kernel
  have pc : m.pc = 0x3000 := by decide +kernel
  have handled := handles _ told (by unfold Machine.PushesBelow; decide +kernel)
  rw [sp, psr, pc] at handled
  exact handled

end Lc3
