import Lc3.Machine.Basic
import Lc3.Proofs.Blocks

/-!
# Loading

An image is copied into memory block by block. The blocks are in range, so no copy wraps around, and
they are apart, so none is written over: a covered cell holds what its one block says and every
other cell keeps its word (`get_copyAll_covered`, `get_copyAll_uncovered`).
-/

namespace Lc3

namespace Memory

/-! ### Words in a row -/

section Writing

variable {a c : Word} {words : List Word} (fits : a.toNat + words.length ≤ 65536)

include fits

theorem get_write_outside {m : Memory}
    (outside : ¬(a.toNat ≤ c.toNat ∧ c.toNat < a.toNat + words.length)) :
    (m.write a words).get c = m.get c := by
  induction words generalizing m a with
  | nil => rfl
  | cons w words ih =>
    simp only [List.length_cons] at fits outside
    have next : (a + 1).toNat = (a.toNat + 1) % 65536 := BitVec.toNat_add a 1
    have other : a ≠ c := by
      rintro rfl
      omega
    rw [write, ih (by omega) (by omega), Bank.get_set_of_ne _ _ other]

theorem get_write_inside {m : Memory} (low : a.toNat ≤ c.toNat)
    (high : c.toNat < a.toNat + words.length) :
    words[c.toNat - a.toNat]? = some ((m.write a words).get c) := by
  induction words generalizing m a with
  | nil =>
    simp only [List.length_nil] at high
    omega
  | cons w words ih =>
    simp only [List.length_cons] at fits high
    have next : (a + 1).toNat = (a.toNat + 1) % 65536 := BitVec.toNat_add a 1
    rw [write]
    by_cases here : a = c
    · subst here
      rw [get_write_outside (by omega) (by omega), Bank.get_set_self]
      simp
    · have apart : a.toNat ≠ c.toNat := fun same => here (BitVec.eq_of_toNat_eq same)
      have later : c.toNat - a.toNat = c.toNat - (a + 1).toNat + 1 := by omega
      rw [later, List.getElem?_cons_succ]
      exact ih (by omega) (by omega) (by omega)

theorem copyBlock_fits (m : Memory) : m.copyBlock a words = m.write a words := by
  have whole : words.take 65536 = words := List.take_of_length_le (by omega)
  have head : words.take (65536 - a.toNat) = words := List.take_of_length_le (by omega)
  have tail : words.drop (65536 - a.toNat) = [] := List.drop_of_length_le (by omega)
  simp only [copyBlock, whole, head, tail, write]

end Writing

/-! ### Blocks -/

/-- Copy blocks in order. -/
def copyAll (m : Memory) (blocks : List Block) : Memory :=
  blocks.foldl (fun m b => m.copyBlock b.start b.words) m

theorem get_copyAll_uncovered {blocks : List Block} (laid : Laid blocks) {c : Word}
    (free : ∀ b ∈ blocks, ¬b.Covers c) (m : Memory) : (m.copyAll blocks).get c = m.get c := by
  induction blocks generalizing m with
  | nil => rfl
  | cons b blocks ih =>
    have rest := ih laid.tail (fun d hd => free d (by simp [hd])) (m.copyBlock b.start b.words)
    have fits := laid.inRange b (by simp)
    rw [copyAll, List.foldl_cons, ← copyAll, rest, copyBlock_fits fits,
      get_write_outside fits (free b (by simp))]

theorem get_copyAll_covered {blocks : List Block} (laid : Laid blocks) {b : Block}
    (member : b ∈ blocks) {c : Word} (covers : b.Covers c) (m : Memory) :
    b.words[c.toNat - b.start.toNat]? = some ((m.copyAll blocks).get c) := by
  induction blocks generalizing m with
  | nil => cases member
  | cons d blocks ih =>
    rw [copyAll, List.foldl_cons, ← copyAll]
    rcases List.mem_cons.mp member with rfl | member
    · -- the blocks behind are apart from this one, so they leave its words alone
      have fits := laid.inRange b (by simp)
      have apart := (List.pairwise_cons.mp laid.pairwise_apart).1
      have free : ∀ d ∈ blocks, ¬d.Covers c := fun d hd hit => apart d hd c ⟨covers, hit⟩
      rw [get_copyAll_uncovered laid.tail free, copyBlock_fits fits]
      exact get_write_inside fits covers.1 covers.2
    · exact ih laid.tail member _

end Memory

/-! ### Images -/

namespace Image

/- The entry point in terms of what was done to the image. -/
theorem built_entry (es : List Edit) :
    (built es).entry =
      (lastEntered? es <|> (gains {} es).head?.map (·.start)).getD userStart := by
  have chosen : (built es).chosenEntry = lastEntered? es := by
    rw [built, edits_chosenEntry]
    simp
  rw [entry, chosen, (built_cases es).2.2]

/- Images that were given the same blocks store them in the same order. -/
theorem built_blocks_perm {es es' : List Edit} (perm : (gains {} es).Perm (gains {} es')) :
    (built es).blocks = (built es').blocks := by
  obtain ⟨laid, blocks, -⟩ := built_cases es
  obtain ⟨laid', blocks', -⟩ := built_cases es'
  exact laid.eq_of_perm laid' ((blocks.trans perm).trans blocks'.symm)

end Image

namespace Machine

variable {δ : Type}

/-- Loading is an exact overlay. Whatever was done to an image, a cell that a block covers is covered
by no other and holds the word of that block, and every other cell keeps its word. The machine goes
to the entry that was chosen last, else to the first block that was put into the image, else to the
start of user space, is ready, and is otherwise unchanged. Images that were given the same blocks in
different orders load the same memory. -/
theorem loadImage_overlay (m : Machine δ) (es : List Image.Edit) :
    (∀ b ∈ (Image.built es).blocks, ∀ a, b.Covers a →
      (∀ c ∈ (Image.built es).blocks, c.Covers a → c = b) ∧
      b.words[a.toNat - b.start.toNat]? = some ((m.loadImage (.built es)).memory.get a)) ∧
    (∀ a, (∀ b ∈ (Image.built es).blocks, ¬b.Covers a) →
      (m.loadImage (.built es)).memory.get a = m.memory.get a) ∧
    (m.loadImage (.built es)).pc =
      (Image.lastEntered? es <|> (Image.gains {} es).head?.map (·.start)).getD 0x3000 ∧
    m.loadImage (.built es) =
      { m with
        memory := (m.loadImage (.built es)).memory
        pc := (m.loadImage (.built es)).pc
        fetchPc := (m.loadImage (.built es)).pc
        clock := true
        condition := .ready
        parked := none } ∧
    (∀ es', (Image.gains {} es).Perm (Image.gains {} es') →
      (m.loadImage (.built es')).memory = (m.loadImage (.built es)).memory ∧
      ((Image.built es').entry = (Image.built es).entry →
        m.loadImage (.built es') = m.loadImage (.built es))) ∧
    (∀ bytes i, Image.ofObject bytes = .ok i → ∃ es, i = .built es) ∧
    ∀ source i, Image.ofText source = .ok i → ∃ es, i = .built es := by
  have laid := (Image.built_cases es).1
  refine ⟨?covered, ?uncovered, Image.built_entry es, rfl, ?orders,
    fun _ _ => Image.ofObject_built, fun _ _ => Image.ofText_built⟩
  case covered =>
    intro b member a covers
    exact ⟨fun c hc inC => laid.eq_of_covers member hc covers inC,
      Memory.get_copyAll_covered laid member covers m.memory⟩
  case uncovered =>
    intro a free
    exact Memory.get_copyAll_uncovered laid free m.memory
  case orders =>
    intro es' perm
    have blocks := Image.built_blocks_perm perm
    have memory : (m.loadImage (.built es')).memory = (m.loadImage (.built es)).memory := by
      simp only [loadImage, setPc, blocks]
    refine ⟨memory, fun entry => ?_⟩
    simp only [loadImage, setPc, blocks, entry]

end Machine

end Lc3
