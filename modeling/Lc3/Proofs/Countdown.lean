import Lc3.Proofs.Supply

/-!
# The delay of the keyboard

The wait for the next byte is started in three places, cut by a shorter delay, held while no byte is
queued, and counted down by each completed instruction. `Keyboard.Use` lists all that is done with a
keyboard, and `Keyboard.wait?` the wait that a use imposes. After any uses a keyboard with bytes in its
queue is ready exactly if one of the waits that were imposed since the delay was last started anew has
passed in ticks (`Keyboard.ready_useAll`), which is the delay itself while the delay is not changed
(`Keyboard.ready_delayed`).
-/

namespace Lc3.Keyboard

/-! ### Uses -/

/-- What a host, a program or the machine does with a keyboard. -/
inductive Use where
  | setInput (bytes : List Byte)
  | pushInput (bytes : List Byte)
  | clearInput
  | setDelay (delay : Nat)
  | read (address : Word) (effects : Bool)
  | write (address word : Word)
  | poll
  | tick
  | reset
deriving DecidableEq

/-- The keyboard after a use. To ask it for an interrupt does not change it. -/
def use (k : Keyboard) : Use → Keyboard
  | .setInput bytes => k.setInput bytes
  | .pushInput bytes => k.pushInput bytes
  | .clearInput => k.clearInput
  | .setDelay n => k.setDelay n
  | .read a effects => (k.read a effects).2
  | .write a w => (k.write a w).2
  | .poll => k
  | .tick => k.tick
  | .reset => k.reset

/-- The keyboard after uses one after another. -/
def useAll (k : Keyboard) (us : List Use) : Keyboard := us.foldl use k

/-- Whether the use starts the delay anew: it sets the input, pushes input while none is queued, or
consumes a byte. -/
def arms (k : Keyboard) : Use → Bool
  | .setInput _ => true
  | .pushInput _ => k.queue.isEmpty
  | .read a effects => (k.read a effects).2.queue != k.queue
  | _ => false

/-- Whether none of the uses starts the delay anew. -/
def quiet (k : Keyboard) : List Use → Bool
  | [] => true
  | u :: us => !k.arms u && (k.use u).quiet us

/-- The wait that a use imposes, if any: the delay that it starts, or the one that it sets. -/
def wait? (k : Keyboard) : Use → Option Nat
  | .setDelay n => some n
  | u => if k.arms u then some k.delay else none

/- Whether a machine itself uses its keyboard so. -/
def Use.byMachine : Use → Bool
  | .read _ _ => true
  | .write _ _ => true
  | .poll => true
  | .tick => true
  | _ => false

section Uses

variable (k : Keyboard)

theorem useAll_append (us vs : List Use) : k.useAll (us ++ vs) = (k.useAll us).useAll vs := by
  unfold useAll
  rw [List.foldl_append]

theorem quiet_append (us vs : List Use) :
    k.quiet (us ++ vs) = (k.quiet us && (k.useAll us).quiet vs) := by
  induction us generalizing k with
  | nil => simp [quiet, useAll]
  | cons u us ih =>
    have later := ih (k.use u)
    simp only [List.cons_append, quiet, later, Bool.and_assoc]
    rfl

omit k in
theorem rest_of_consume? {k rest : Keyboard} {b : Byte} (h : k.consume? = some (b, rest)) :
    rest = { k with queue := rest.queue, cooldown := k.delay } := by
  unfold consume? at h
  split at h
  · cases h
  · split at h
    · cases h
      rfl
    · cases h

/- A read leaves the keyboard as it is, or it consumes the byte in front. -/
theorem read_cases (a : Word) (effects : Bool) :
    (k.read a effects).2 = k ∨
      ∃ b rest, k.queue = b :: rest ∧
        (k.read a effects).2 = { k with queue := rest, cooldown := k.delay } := by
  unfold read
  split
  · exact Or.inl rfl
  · split
    · cases consumed : k.consume? with
      | none => exact Or.inl rfl
      | some x =>
        cases effects with
        | false => exact Or.inl rfl
        | true =>
          exact Or.inr ⟨x.1, x.2.queue, (ready_of_consume? consumed).2, rest_of_consume? consumed⟩
    · exact Or.inl rfl

theorem write_frame (a w : Word) :
    (k.write a w).2 = { k with interrupts := (k.write a w).2.interrupts } := by
  unfold write
  split <;> rfl

/- Only a setting of the delay changes the delay. -/
theorem delay_use {u : Use} (h : ∀ n, u ≠ .setDelay n) : (k.use u).delay = k.delay := by
  cases u with
  | setDelay n => exact absurd rfl (h n)
  | read a effects =>
    obtain same | ⟨b, rest, -, taken⟩ := k.read_cases a effects
    · simp [use, same]
    · simp [use, taken]
  | write a w =>
    show (k.write a w).2.delay = k.delay
    rw [write_frame]
  | tick =>
    show k.tick.delay = k.delay
    unfold tick
    split <;> rfl
  | _ => rfl

theorem delay_useAll {us : List Use} (h : ∀ n, .setDelay n ∉ us) :
    (k.useAll us).delay = k.delay := by
  induction us generalizing k with
  | nil => rfl
  | cons u us ih =>
    have first : (k.use u).delay = k.delay := k.delay_use fun n hu => h n (hu ▸ List.mem_cons_self)
    have later := ih (k.use u) fun n hn => h n (List.mem_cons_of_mem u hn)
    exact later.trans first

/- What a machine does with the keyboard leaves the queue alone, or it consumes a byte. -/
theorem queue_use {u : Use} (own : u.byMachine = true) (h : k.arms u = false) :
    (k.use u).queue = k.queue := by
  cases u with
  | read a effects => simpa [arms, use] using h
  | write a w =>
    show (k.write a w).2.queue = k.queue
    rw [write_frame]
  | poll => rfl
  | tick => exact queue_tick k
  | _ => cases own

theorem queue_useAll {us : List Use} (own : ∀ u ∈ us, u.byMachine = true)
    (h : k.quiet us = true) : (k.useAll us).queue = k.queue := by
  induction us generalizing k with
  | nil => rfl
  | cons u us ih =>
    simp only [quiet, Bool.and_eq_true, Bool.not_eq_true'] at h
    have later := ih (k.use u) (fun v hv => own v (List.mem_cons_of_mem u hv)) h.2
    exact later.trans (k.queue_use (own u List.mem_cons_self) h.1)

theorem le_delay_use {d : Nat} (h : d ≤ k.delay) {u : Use} (sets : ∀ n, u = .setDelay n → d ≤ n) :
    d ≤ (k.use u).delay := by
  by_cases set : ∃ n, u = .setDelay n
  · obtain ⟨n, rfl⟩ := set
    exact sets n rfl
  · rw [k.delay_use fun n hu => set ⟨n, hu⟩]
    exact h

theorem le_delay_useAll {d : Nat} (h : d ≤ k.delay) {us : List Use}
    (sets : ∀ n, .setDelay n ∈ us → d ≤ n) : d ≤ (k.useAll us).delay := by
  induction us generalizing k with
  | nil => exact h
  | cons u us ih =>
    have first := k.le_delay_use h fun n hu => sets n (hu ▸ List.mem_cons_self)
    exact ih _ first fun n hn => sets n (List.mem_cons_of_mem u hn)

/-! ### The countdown -/

theorem use_of_empty {u : Use} (empty : k.queue = []) (h : k.arms u = false) :
    (k.use u).queue = [] := by
  cases u with
  | setInput bytes => cases h
  | pushInput bytes => simp [arms, empty] at h
  | clearInput | reset => rfl
  | setDelay n => exact empty
  | read _ _ | write _ _ | poll | tick => exact (k.queue_use rfl h).trans empty

/- Where no byte is queued, none appears before the delay is started anew. -/
theorem useAll_of_empty {us : List Use} (empty : k.queue = []) (h : k.quiet us = true) :
    (k.useAll us).queue = [] := by
  induction us generalizing k with
  | nil => exact empty
  | cons u us ih =>
    simp only [quiet, Bool.and_eq_true, Bool.not_eq_true'] at h
    exact ih _ (k.use_of_empty empty h.1) h.2

/- How a use changes what is left to wait. -/
theorem cooldown_use {u : Use} (queued : (k.use u).queue ≠ []) (n : Nat) :
    (k.use u).cooldown ≤ n ↔
      k.arms u = false ∧ k.cooldown ≤ n + [u].count .tick ∨ ∃ w, k.wait? u = some w ∧ w ≤ n := by
  cases u with
  | setInput bytes => simp [use, setInput, arms, wait?]
  | pushInput bytes =>
    cases empty : k.queue with
    | nil => simp [use, pushInput, arms, wait?, empty]
    | cons b rest => simp [use, pushInput, arms, wait?, empty]
  | clearInput | reset => exact absurd rfl queued
  | setDelay d =>
    have cut : min k.cooldown d ≤ n ↔ k.cooldown ≤ n ∨ d ≤ n := by omega
    show min k.cooldown d ≤ n ↔ _
    rw [cut]
    simp [arms, wait?]
  | read a effects =>
    obtain same | ⟨b, rest, front, taken⟩ := k.read_cases a effects
    · simp [use, arms, wait?, same]
    · simp [use, arms, wait?, taken, front]
  | write a w =>
    simp only [use, arms, wait?]
    rw [write_frame]
    simp
  | poll => simp [use, arms, wait?]
  | tick =>
    have more : k.queue.isEmpty = false := by
      have kept : k.tick.queue = k.queue := queue_tick k
      simpa [use, kept] using queued
    simp [use, tick, arms, wait?, more]

/-- One of the uses imposes a wait that the ticks after it, and some more, make up for. Since then the
delay has not been started anew. -/
def Waited (k : Keyboard) (us : List Use) (more : Nat) : Prop :=
  ∃ before u after w, us = before ++ u :: after ∧ (k.useAll before).wait? u = some w ∧
    (k.useAll (before ++ [u])).quiet after = true ∧ w ≤ after.count .tick + more

theorem waited_cons {u : Use} {us : List Use} {n : Nat} :
    k.Waited (u :: us) n ↔
      (∃ w, k.wait? u = some w ∧ (k.use u).quiet us = true ∧ w ≤ us.count .tick + n) ∨
        (k.use u).Waited us n := by
  constructor
  · intro waited
    obtain ⟨before, v, after, w, split, imposed, calm, passed⟩ := waited
    cases before with
    | nil =>
      obtain ⟨rfl, rfl⟩ := List.cons.inj split
      exact Or.inl ⟨w, imposed, calm, passed⟩
    | cons u' before =>
      obtain ⟨rfl, rfl⟩ := List.cons.inj split
      exact Or.inr ⟨before, v, after, w, rfl, imposed, calm, passed⟩
  · intro waited
    obtain ⟨w, imposed, calm, passed⟩ | ⟨before, v, after, w, rfl, imposed, calm, passed⟩ := waited
    · exact ⟨[], u, us, w, rfl, imposed, calm, passed⟩
    · exact ⟨u :: before, v, after, w, rfl, imposed, calm, passed⟩

/- What is left to wait, from what was left before the uses and what they impose. The induction takes
the first use off, so that the ticks behind it are those of the rest. -/
theorem cooldown_useAll {us : List Use} (queued : (k.useAll us).queue ≠ []) (n : Nat) :
    (k.useAll us).cooldown ≤ n ↔
      k.quiet us = true ∧ k.cooldown ≤ us.count .tick + n ∨ k.Waited us n := by
  induction us generalizing k with
  | nil => simp [useAll, quiet, Waited]
  | cons u us ih =>
    have later := ih (k.use u) queued
    have counted : (u :: us).count .tick = us.count .tick + [u].count .tick := by
      rw [List.count_cons, List.count_singleton]
    rw [waited_cons, quiet, Bool.and_eq_true, Bool.not_eq_true', counted]
    refine later.trans ?_
    cases calm : (k.use u).quiet us with
    | false => simp
    | true =>
      have held : (k.use u).queue ≠ [] := fun empty => queued ((k.use u).useAll_of_empty empty calm)
      have first := k.cooldown_use held (us.count .tick + n)
      simp only [true_and, and_true, first, or_assoc]
      rw [Nat.add_right_comm]

/-- From an empty queue on, a keyboard with input is ready when one of the waits imposed on it since the
delay was last started anew has passed. -/
theorem ready_useAll (empty : k.queue = []) (us : List Use) :
    (k.useAll us).ready = true ↔ (k.useAll us).queue ≠ [] ∧ k.Waited us 0 := by
  rw [ready_iff, ← Nat.le_zero]
  refine and_congr_right fun queued => ?_
  constructor
  · intro passed
    obtain ⟨calm, -⟩ | waited := (k.cooldown_useAll queued 0).mp passed
    · exact absurd (k.useAll_of_empty empty calm) queued
    · exact waited
  · intro waited
    exact (k.cooldown_useAll queued 0).mpr (Or.inr waited)

theorem wait?_of_delay {u : Use} (h : ∀ n, u ≠ .setDelay n) {w : Nat} :
    k.wait? u = some w ↔ k.arms u = true ∧ k.delay = w := by
  cases u with
  | setDelay n => exact absurd rfl (h n)
  | _ => simp [wait?]

/-- While the delay is not changed, it is the delay that has to pass. -/
theorem ready_delayed (empty : k.queue = []) (d : Nat) {us : List Use}
    (h : ∀ n, .setDelay n ∉ us) :
    let start := k.setDelay d
    (start.useAll us).ready = true ↔ (start.useAll us).queue ≠ [] ∧
      ∃ before u after, us = before ++ u :: after ∧ (start.useAll before).arms u = true ∧
        (start.useAll (before ++ [u])).quiet after = true ∧ d ≤ after.count .tick := by
  intro start
  have ready := start.ready_useAll empty us
  have delayed {before : List Use} {u : Use} {after : List Use} {w : Nat}
      (split : us = before ++ u :: after) : (start.useAll before).wait? u = some w ↔
        (start.useAll before).arms u = true ∧ d = w := by
    have kept : (start.useAll before).delay = d :=
      start.delay_useAll fun n hn => h n (split ▸ List.mem_append_left _ hn)
    rw [wait?_of_delay _ fun n hu => h n (by simp [split, hu]), kept]
  rw [ready]
  constructor
  · intro waited
    obtain ⟨queued, before, u, after, w, split, imposed, calm, passed⟩ := waited
    obtain ⟨armed, rfl⟩ := (delayed split).mp imposed
    exact ⟨queued, before, u, after, split, armed, calm, passed⟩
  · intro waited
    obtain ⟨queued, before, u, after, split, armed, calm, passed⟩ := waited
    exact ⟨queued, before, u, after, d, split, (delayed split).mpr ⟨armed, rfl⟩, calm, passed⟩

theorem ready_ticks (n : Nat) :
    (k.useAll (List.replicate n .tick)).ready = true ↔ k.queue ≠ [] ∧ k.cooldown ≤ n := by
  induction n generalizing k with
  | zero =>
    show k.ready = true ↔ _
    rw [ready_iff, Nat.le_zero]
  | succ n ih =>
    show (k.tick.useAll (List.replicate n .tick)).ready = true ↔ _
    rw [ih, queue_tick]
    refine and_congr_right fun queued => ?_
    have more : k.queue.isEmpty = false := by simpa using queued
    simp [tick, more]

/-- To set the delay cuts what is left to wait to it at most, and does nothing else to the wait. -/
theorem ready_setDelay_ticks (d n : Nat) :
    ((k.setDelay d).useAll (List.replicate n .tick)).ready = true ↔
      (k.useAll (List.replicate n .tick)).ready = true ∨ k.queue ≠ [] ∧ d ≤ n := by
  rw [ready_ticks, ready_ticks]
  have cut : min k.cooldown d ≤ n ↔ k.cooldown ≤ n ∨ d ≤ n := by omega
  show k.queue ≠ [] ∧ min k.cooldown d ≤ n ↔ _
  rw [cut, and_or_left]

end Uses

end Lc3.Keyboard
