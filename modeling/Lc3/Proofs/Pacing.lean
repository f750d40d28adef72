import Lc3.Device.Peripheral
import Lc3.Proofs.Countdown
import Lc3.Proofs.Delivery
import Lc3.Proofs.Ports

/-!
# The pace of keyboard input

All that happens to the keyboard of a machine is a list of uses. The log of a step tells which ones the
step makes (`Machine.step_keyboard`), and a host makes those of its commands. So along whatever a host
does, the keyboard goes from step to step by uses (`Session.performAll_course`), of which only completed
instructions and ticks of the host count down. Two bytes that a program consumes are therefore as many
instructions apart as the delay says (`Session.input_paced`).
-/

namespace Lc3

variable {δ : Type}

open Keyboard (Use)

/-! ### Uses of a step -/

/- What an event of a step does with the keyboard. -/
def Event.use? : Event → Option Use
  | .read a => some (.read a true)
  | .wrote a w => some (.write a w)
  | _ => none

variable [Device δ]

namespace Bus

/- An access at an address of the processor does nothing to the keyboard. -/
theorem after_keyboard (b : Bus δ) (e : Event) :
    (b.after e).keyboard = b.keyboard.useAll e.use?.toList := by
  cases e with
  | read a =>
    show (if ReachesBus a then (b.read a true).bus else b).keyboard = (b.keyboard.read a true).2
    split
    · exact b.read_keyboard a true
    · next elsewhere =>
      have apart : a ≠ kbdr := by
        intro here
        rw [here] at elsewhere
        exact elsewhere (by decide)
      rw [b.keyboard.read_of_ne apart true]
  | wrote a w =>
    show (if ReachesBus a then (b.write a w).2 else b).keyboard = (b.keyboard.write a w).2
    split
    · exact b.write_keyboard a w
    · next elsewhere =>
      have apart : a ≠ kbsr := by
        intro here
        rw [here] at elsewhere
        exact elsewhere (by decide)
      rw [b.keyboard.write_of_ne apart]
  | _ => rfl

theorem replay_keyboard (b : Bus δ) (events : Array Event) :
    (b.replay events).keyboard = b.keyboard.useAll (events.toList.filterMap Event.use?) := by
  unfold replay
  rw [← Array.foldl_toList]
  generalize events.toList = es
  induction es generalizing b with
  | nil => rfl
  | cons e es ih =>
    have first := b.after_keyboard e
    have split : (e :: es).filterMap Event.use? = e.use?.toList ++ es.filterMap Event.use? := by
      cases h : e.use? <;> simp [h]
    rw [List.foldl_cons, ih, first, split, Keyboard.useAll_append]

end Bus

namespace Machine

/-- Whether the next step completes an instruction. -/
def retires (m : Machine δ) : Bool := decide (m.retired < m.step.machine.retired)

/-- What the next step does with the keyboard. -/
def uses (m : Machine δ) : List Use :=
  m.step.events.toList.filterMap Event.use? ++ if m.retires then [.tick] else []

theorem step_keyboard (m : Machine δ) :
    m.step.machine.bus.keyboard = m.bus.keyboard.useAll m.uses := by
  unfold uses retires
  by_cases ready : m.condition = .ready
  · have polled : m.bus.poll.2.keyboard = m.bus.keyboard := rfl
    rw [step_bus ready, Keyboard.useAll_append, ← polled, ← Bus.replay_keyboard]
    obtain ⟨f, faulted, -, host⟩ | ⟨c, completed, -, host⟩ := step_host ready
    · have same : m.step.machine.retired = m.retired := congrArg Host.retired host
      have fails : m.step.result.completes = false := by rw [faulted]; rfl
      rw [same, fails]
      simp [Keyboard.useAll]
    · have counted : m.step.machine.retired = m.retired + 1 := congrArg Host.retired host
      have completes := StepResult.completes_iff.mpr completed
      rw [counted, completes]
      simp
      rfl
  · rw [step_of_not_ready ready, step_events_of_not_ready ready]
    simp [Keyboard.useAll]

theorem count_uses (m : Machine δ) : m.uses.count .tick = [m].countP retires := by
  have silent (es : List Event) : (es.filterMap Event.use?).count .tick = 0 := by
    rw [List.count_eq_zero, List.mem_filterMap]
    intro told
    obtain ⟨e, -, ticks⟩ := told
    cases e <;> cases ticks
  unfold uses
  rw [List.count_append, silent, List.countP_singleton]
  cases m.retires <;> rfl

theorem byMachine_of_mem_uses {m : Machine δ} {u : Use} (h : u ∈ m.uses) : u.byMachine = true := by
  unfold uses at h
  rw [List.mem_append, List.mem_filterMap] at h
  obtain ⟨e, -, does⟩ | ticks := h
  · cases e <;> cases does <;> rfl
  · split at ticks <;> simp at ticks
    rw [ticks]
    rfl

theorem consumes_of_front {m : Machine δ} {b : Byte}
    (h : m.bus.keyboard.queue = b :: m.step.machine.bus.keyboard.queue) : m.Consumes b := by
  obtain ⟨same, -⟩ | ⟨c, consumes⟩ := m.step_supply
  · rw [same] at h
    exact absurd h.symm (List.cons_ne_self _ _)
  · have front := consumes.front
    rw [h] at front
    obtain ⟨rfl, -⟩ := List.cons.inj front
    exact consumes

/- A step that consumes a byte starts the delay anew. -/
theorem Consumes.arms {m : Machine δ} {b : Byte} (h : m.Consumes b) :
    m.bus.keyboard.quiet m.uses = false := by
  cases calm : m.bus.keyboard.quiet m.uses with
  | false => rfl
  | true =>
    have kept := m.bus.keyboard.queue_useAll (fun _ => byMachine_of_mem_uses) calm
    have front := h.front
    rw [step_keyboard, kept] at front
    exact absurd front.symm (List.cons_ne_self _ _)

end Machine

/-! ### Uses of a host -/

/- What a command of a host that takes no step does with the keyboard. -/
def Command.uses : Command δ → List Use
  | .setInput bytes => [.setInput bytes]
  | .pushInput bytes => [.pushInput bytes]
  | .clearInput => [.clearInput]
  | .setDelay n => [.setDelay n]
  | .writeMemory a w => [.write a w]
  | .readPort a effects => [.read a effects]
  | .writePort a w => [.write a w]
  | .poll => [.poll]
  | .tick n => List.replicate n .tick
  | .reset => [.reset]
  | .resetDevices => [.reset]
  | _ => []

/- A use by a host that neither counts down nor sets a lower delay. -/
def Keyboard.Use.Spares (d : Nat) : Use → Prop
  | .tick => False
  | .setDelay n => d ≤ n
  | _ => True

/-! ### From step to step -/

/- From one keyboard to the other, these machines take a step with it one after another, and before,
between and after them a host uses it. -/
inductive Course (d : Nat) : Keyboard → List (Machine δ) → Keyboard → Prop where
  | nil (k : Keyboard) : Course d k [] k
  | use {k k' : Keyboard} {u : Use} {ms : List (Machine δ)} (spares : u.Spares d)
      (rest : Course d (k.use u) ms k') : Course d k ms k'
  | step {m : Machine δ} {ms : List (Machine δ)} {k' : Keyboard}
      (rest : Course d m.step.machine.bus.keyboard ms k') : Course d m.bus.keyboard (m :: ms) k'

namespace Course

variable {d : Nat} {k k' k'' : Keyboard} {ms ms' : List (Machine δ)}

theorem append (h : Course d k ms k') (h' : Course d k' ms' k'') : Course d k (ms ++ ms') k'' := by
  induction h with
  | nil k => exact h'
  | use spares _ ih => exact .use spares (ih h')
  | step _ ih => exact .step (ih h')

theorem of_uses (k : Keyboard) {us : List Use} (h : ∀ u ∈ us, u.Spares d) :
    Course (δ := δ) d k [] (k.useAll us) := by
  induction us generalizing k with
  | nil => exact .nil k
  | cons u us ih =>
    have rest := ih (k.use u) fun v hv => h v (List.mem_cons_of_mem u hv)
    exact .use (h u List.mem_cons_self) rest

/- Where one of the machines steps, and what comes after it. -/
theorem drop {front : List (Machine δ)} {x : Machine δ} (h : Course d k (front ++ x :: ms) k') :
    Course d x.step.machine.bus.keyboard ms k' := by
  generalize split : front ++ x :: ms = all at h
  induction h generalizing front with
  | nil k => cases front <;> cases split
  | use _ _ ih => exact ih split
  | step rest ih =>
    cases front with
    | nil =>
      obtain ⟨rfl, rfl⟩ := List.cons.inj split
      exact rest
    | cons m front => exact ih (List.cons.inj split).2

/- How the keyboard gets to one of the machines. -/
theorem reaches {front : List (Machine δ)} {x : Machine δ} (h : Course d k (front ++ x :: ms) k') :
    ∃ us, x.bus.keyboard = k.useAll us ∧ us.count .tick = front.countP Machine.retires ∧
      ∀ n, .setDelay n ∈ us → d ≤ n := by
  generalize split : front ++ x :: ms = all at h
  induction h generalizing front with
  | nil k => cases front <;> cases split
  | @use k k' u all spares _ ih =>
    obtain ⟨us, reached, counted, sets⟩ := ih split
    refine ⟨u :: us, reached, ?_, ?_⟩
    · rw [List.count_cons_of_ne, counted]
      intro ticks
      rw [ticks] at spares
      exact spares
    · intro n among
      obtain rfl | later := List.mem_cons.mp among
      · exact spares
      · exact sets n later
  | @step m all k' _ ih =>
    cases front with
    | nil =>
      obtain ⟨rfl, rfl⟩ := List.cons.inj split
      exact ⟨[], rfl, rfl, fun n none => (List.not_mem_nil none).elim⟩
    | cons m' front =>
      obtain ⟨rfl, rest⟩ := List.cons.inj split
      obtain ⟨us, reached, counted, sets⟩ := ih rest
      refine ⟨m'.uses ++ us, ?_, ?_, ?_⟩
      · rw [reached, m'.step_keyboard, Keyboard.useAll_append]
      · rw [List.count_append, m'.count_uses, counted, ← List.countP_append, List.singleton_append]
      · intro n among
        obtain own | later := List.mem_append.mp among
        · cases Machine.byMachine_of_mem_uses own
        · exact sets n later

/- Between two consumed bytes the delay was started anew, and has passed since then. -/
theorem apart {front mid back : List (Machine δ)} {x y : Machine δ} {b b' : Byte}
    (h : Course d k (front ++ x :: (mid ++ y :: back)) k') (delayed : d ≤ k.delay)
    (first : x.Consumes b) (second : y.Consumes b') : d ≤ (x :: mid).countP Machine.retires := by
  obtain ⟨us₀, start, -, sets₀⟩ := h.reaches
  obtain ⟨us, reached, counted, sets⟩ := h.drop.reaches
  have slow : d ≤ x.bus.keyboard.delay := start ▸ k.le_delay_useAll delayed sets₀
  rw [x.step_keyboard, ← Keyboard.useAll_append] at reached
  obtain ⟨queued, passed⟩ := Keyboard.ready_iff.mp second.ready
  rw [reached] at queued passed
  obtain ⟨calm, -⟩ | ⟨before, u, after, w, split, imposed, -, ticks⟩ :=
    (x.bus.keyboard.cooldown_useAll queued 0).mp (Nat.le_of_eq passed)
  · rw [Keyboard.quiet_append, first.arms] at calm
    cases calm
  · have sets' (n : Nat) (among : .setDelay n ∈ before ++ u :: after) : d ≤ n := by
      rw [← split] at among
      obtain own | later := List.mem_append.mp among
      · cases Machine.byMachine_of_mem_uses own
      · exact sets n later
    have long : d ≤ w := by
      by_cases set : ∃ n, u = .setDelay n
      · obtain ⟨n, rfl⟩ := set
        obtain rfl : n = w := Option.some.inj imposed
        exact sets' n (by simp)
      · obtain ⟨-, rfl⟩ := (Keyboard.wait?_of_delay _ fun n hu => set ⟨n, hu⟩).mp imposed
        exact Keyboard.le_delay_useAll _ slow fun n hn => sets' n (List.mem_append_left _ hn)
    have fewer : after.count .tick ≤ (x :: mid).countP Machine.retires := by
      have total : (x.uses ++ us).count .tick = (x :: mid).countP Machine.retires := by
        rw [List.count_append, x.count_uses, counted, ← List.countP_append, List.singleton_append]
      rw [← total, split]
      exact ((List.sublist_cons_self u after).trans (List.sublist_append_right before _)).count_le _
    omega

end Course

namespace Machine

variable {d : Nat}

theorem steps_course (m : Machine δ) (n : Nat) :
    Course d m.bus.keyboard ((List.range n).map m.after) (m.steps n).2.1.bus.keyboard := by
  induction n generalizing m with
  | zero => exact .nil _
  | succ n ih =>
    have rest := ih m.step.machine
    rw [List.range_succ_eq_map, List.map_cons, List.map_map]
    exact .step rest

theorem loop_course (watch : Bool) (spent : StopReason) (n : Nat) (m : Machine δ)
    (events : Array Event) :
    Course d m.bus.keyboard (trail watch n m) (loop watch spent n m events).machine.bus.keyboard := by
  have ends {n : Nat} {m : Machine δ} (h : n = 0 ∨ m.turn? watch = none) (events : Array Event) :
      Course (δ := δ) d m.bus.keyboard [] (loop watch spent n m events).machine.bus.keyboard := by
    rw [(loop_rests h spent events).1.keyboard]
    exact .nil _
  induction n generalizing m events with
  | zero => exact ends (Or.inl rfl) events
  | succ n ih =>
    cases turn : m.turn? watch with
    | none =>
      rw [trail_of_no_turn turn]
      exact ends (Or.inr turn) events
    | some x =>
      rw [trail_of_turn turn, loop_of_turn turn, ← turn?_keyboard turn]
      exact .step (ih _ _)

theorem run_course {η : Type} (m : Machine δ) (p : Policy) (handler : HitHandler δ η) (h : η) :
    Course d m.bus.keyboard (m.stepped p) (m.run p handler h).machine.bus.keyboard :=
  loop_course p.watchesInput p.spent (p.allowance m.flags) { m with limitExceeded := false } #[]

end Machine

namespace Session

/- The machines that a command steps, each right before its step. -/
def steppedBy (s : Session δ) : Command δ → List (Machine δ)
  | .step n => (List.range n).map s.machine.after
  | .run p _ => s.machine.stepped p
  | _ => []

/-- The machines that commands carried out one after another step, each right before its step. -/
def stepped (s : Session δ) : List (Command δ) → List (Machine δ)
  | [] => []
  | c :: cs => s.steppedBy c ++ (s.perform c).session.stepped cs

variable {d : Nat}

theorem ticks_keyboard (b : Bus δ) (n : Nat) :
    (Nat.repeat Bus.tick n b).keyboard = b.keyboard.useAll (List.replicate n .tick) := by
  induction n with
  | zero => rfl
  | succ n ih =>
    rw [List.replicate_succ', Keyboard.useAll_append, ← ih]
    rfl

theorem perform_course (s : Session δ) {c : Command δ} (h : ∀ u ∈ c.uses, u.Spares d) :
    Course d s.machine.bus.keyboard (s.steppedBy c) (s.perform c).session.machine.bus.keyboard := by
  have used {k : Keyboard} (same : k = s.machine.bus.keyboard.useAll c.uses) :
      Course (δ := δ) d s.machine.bus.keyboard [] k := same ▸ Course.of_uses _ h
  cases c with
  | step n => exact s.machine.steps_course n
  | run p w =>
    cases w with
    | nobody => exact s.machine.run_course p HitHandler.ignore ()
    | host => exact s.machine.run_course p hostHandler []
    | channel => exact s.machine.run_course p HitChannel.handler s.channel
  | load _ _ | loadText _ | loadObject _ | readRegister _ | removeBreakpoint _ =>
    refine used ?_
    unfold perform
    dsimp only
    split <;> rfl
  | writeRegister n w =>
    refine used ?_
    unfold perform Machine.writeRegister
    dsimp only
    cases Reg.ofNumber n <;> rfl
  | attach device ports => exact used (s.machine.bus.attach_builtin device ports).1
  | detach id => exact used (s.machine.bus.detach_builtin id).1
  | attachMany device n => exact used (s.machine.bus.attachMany_builtin device n []).1
  | readMemory a => exact used (s.machine.inspect_keyboard a)
  | disassemble a n => exact used (s.machine.disassemble_keyboard a n)
  | writeMemory a w =>
    refine used ?_
    show (s.machine.store a w).bus.keyboard = _
    rw [s.machine.store_bus a w]
    exact s.machine.bus.after_keyboard (.wrote a w)
  | readPort a effects => exact used (s.machine.bus.read_keyboard a effects)
  | writePort a w => exact used (s.machine.bus.write_keyboard a w)
  | tick n => exact used (ticks_keyboard s.machine.bus n)
  | _ => exact used rfl

theorem performAll_course (s : Session δ) {cs : List (Command δ)}
    (h : ∀ c ∈ cs, ∀ u ∈ c.uses, u.Spares d) :
    Course d s.machine.bus.keyboard (s.stepped cs) (s.performAll cs).machine.bus.keyboard := by
  induction cs generalizing s with
  | nil => exact .nil _
  | cons c cs ih =>
    have first := s.perform_course (h c List.mem_cons_self)
    have later := ih (s.perform c).session fun c' hc' => h c' (List.mem_cons_of_mem c hc')
    exact first.append later

omit [Device δ] in
theorem spares_of_mem_uses {c : Command δ} (ticks : ∀ n, c ≠ .tick n)
    (sets : ∀ n, c = .setDelay n → d ≤ n) {u : Use} (h : u ∈ c.uses) : u.Spares d := by
  cases c with
  | tick n => exact absurd rfl (ticks n)
  | setDelay n =>
    obtain rfl := List.mem_singleton.mp h
    exact sets n rfl
  | setInput _ | pushInput _ | clearInput | writeMemory _ _ | readPort _ _ | writePort _ _ | poll
  | reset | resetDevices =>
    obtain rfl := List.mem_singleton.mp h
    exact trivial
  | _ => cases h

/-- The character delay is exact. A keyboard that was given a delay while no byte was queued is ready
exactly if a byte is queued and as many ticks as the delay says have come since the last use that
started it anew: input that was set, input that was pushed while none was queued, or a consumed byte.
If the delay is changed on the way, it is one of the waits imposed since then that has to pass, and a
change cuts what is left to wait to the new delay at most. So along whatever a host does that does not
tick the keyboard itself or set a lower delay, two bytes that the program consumes are at least as many
completed instructions apart as the delay says, the first of which is the one that consumed. -/
theorem input_paced :
    (∀ (k : Keyboard) (d : Nat) (us : List Use), k.queue = [] → (∀ n, .setDelay n ∉ us) →
      let start := k.setDelay d
      (start.useAll us).ready = true ↔ (start.useAll us).queue ≠ [] ∧
        ∃ before u after, us = before ++ u :: after ∧ (start.useAll before).arms u = true ∧
          (start.useAll (before ++ [u])).quiet after = true ∧ d ≤ after.count .tick) ∧
    (∀ (k : Keyboard) (us : List Use), k.queue = [] →
      ((k.useAll us).ready = true ↔ (k.useAll us).queue ≠ [] ∧
        ∃ before u after w, us = before ++ u :: after ∧ (k.useAll before).wait? u = some w ∧
          (k.useAll (before ++ [u])).quiet after = true ∧ w ≤ after.count .tick)) ∧
    (∀ (k : Keyboard) (d n : Nat),
      ((k.setDelay d).useAll (List.replicate n .tick)).ready = true ↔
        (k.useAll (List.replicate n .tick)).ready = true ∨ k.queue ≠ [] ∧ d ≤ n) ∧
    ∀ (s : Session δ) (d : Nat) (cs : List (Command δ)), d ≤ s.machine.bus.keyboard.delay →
      (∀ n, .setDelay n ∈ cs → d ≤ n) → (∀ n, .tick n ∉ cs) →
      ∀ (front mid back : List (Machine δ)) (x y : Machine δ) (b b' : Byte),
        s.stepped cs = front ++ x :: (mid ++ y :: back) → x.Consumes b → y.Consumes b' →
          d ≤ (x :: mid).countP Machine.retires := by
  refine ⟨?_, ?_, ?_, ?_⟩
  · intro k d us empty constant
    exact k.ready_delayed empty d constant
  · intro k us empty
    exact k.ready_useAll empty us
  · intro k d n
    exact k.ready_setDelay_ticks d n
  · intro s d cs delayed sets ticks front mid back x y b b' split first second
    have course := s.performAll_course (d := d) fun c hc u hu =>
      spares_of_mem_uses (fun n h => ticks n (h ▸ hc)) (fun n h => sets n (h ▸ hc)) hu
    rw [split] at course
    exact course.apart delayed first second

/- The listener with a second byte and a delay of two instructions. -/
def patient : Session Peripheral :=
  listener.performAll [.pushInput [0x62], .setDelay 2]

/- The second of its three reads comes too early. -/
theorem input_paced_patient :
    let cs : List (Command Peripheral) := [.step 1, .poll, .run (.steps 2) .nobody]
    ∃ x y z, patient.stepped cs = [x, y, z] ∧ x.Consumes 0x61 ∧ z.Consumes 0x62 ∧
      2 ≤ [x, y].countP Machine.retires := by
  intro cs
  have queues : (patient.stepped cs).map
      (fun m => (m.bus.keyboard.queue, m.step.machine.bus.keyboard.queue)) =
        [([0x61, 0x62], [0x62]), ([0x62], [0x62]), ([0x62], [])] := by decide +kernel
  obtain ⟨x, rest, split, taken, queues⟩ := List.map_eq_cons_iff.mp queues
  obtain ⟨y, rest, rfl, -, queues⟩ := List.map_eq_cons_iff.mp queues
  obtain ⟨z, rest, rfl, taken', queues⟩ := List.map_eq_cons_iff.mp queues
  obtain rfl := List.map_eq_nil_iff.mp queues
  obtain ⟨before, after⟩ := Prod.mk.inj taken
  obtain ⟨before', after'⟩ := Prod.mk.inj taken'
  have first : x.Consumes 0x61 := Machine.consumes_of_front (by rw [before, after])
  have second : z.Consumes 0x62 := Machine.consumes_of_front (by rw [before', after'])
  obtain ⟨-, -, -, paced⟩ := input_paced (δ := Peripheral)
  have apart := paced patient 2 cs (by decide +kernel) (by simp [cs]) (by simp [cs]) [] [y] [] x z
    0x61 0x62 split first second
  exact ⟨x, y, z, split, first, second, apart⟩

end Session

end Lc3
