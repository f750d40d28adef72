import Lc3.Image.Object
import Lc3.Proofs.Drafts
import Mathlib.Data.List.Pairwise

/-!
# The blocks of an image

The blocks of an image are not empty, end within the address space, and stand in order without an
address in common (`Laid`). In such an order the nearest block on either side of a new one decides
for all of them, so a block is added exactly if it meets none (`addBlock_cases`). Whatever is done to
an image keeps the order (`edits_cases`), and what is added to it makes the same blocks in every order
(`addAll_perm_ok`).
-/

namespace Lc3

/-! ### Addresses of blocks -/

namespace Block

/-- The block holds a word for the address. -/
def Covers (b : Block) (a : Word) : Prop := b.start.toNat ≤ a.toNat ∧ a.toNat < b.stop

instance (b : Block) (a : Word) : Decidable (b.Covers a) := inferInstanceAs (Decidable (_ ∧ _))

/-- No address is covered by both blocks. -/
def Apart (b c : Block) : Prop := ∀ a, ¬(b.Covers a ∧ c.Covers a)

theorem Apart.symm {b c : Block} (h : b.Apart c) : c.Apart b := fun a hc => h a hc.symm

instance : Std.Symm Apart := ⟨fun _ _ => Apart.symm⟩

theorem start_lt_stop {b : Block} (h : b.words ≠ []) : b.start.toNat < b.stop := by
  have pos := List.length_pos_iff.mpr h
  unfold stop
  omega

theorem apart_iff {b c : Block} (hb : b.words ≠ []) (hc : c.words ≠ []) :
    b.Apart c ↔ b.stop ≤ c.start.toNat ∨ c.stop ≤ b.start.toNat := by
  have hb := start_lt_stop hb
  have hc := start_lt_stop hc
  unfold Apart Covers
  constructor
  · -- the later of the two starts would be covered by both
    intro apart
    have atC := apart c.start
    have atB := apart b.start
    omega
  · rintro order a ⟨inB, inC⟩
    omega

end Block

/-- Blocks as an image keeps them. -/
structure Laid (blocks : List Block) : Prop where
  nonempty : ∀ b ∈ blocks, b.words ≠ []
  inRange : ∀ b ∈ blocks, b.stop ≤ 65536
  ordered : blocks.Pairwise fun b c => b.stop ≤ c.start.toNat

namespace Laid

theorem nil : Laid [] := ⟨by simp, by simp, .nil⟩

theorem tail {b : Block} {blocks : List Block} (h : Laid (b :: blocks)) : Laid blocks where
  nonempty c hc := h.nonempty c (List.mem_cons_of_mem b hc)
  inRange c hc := h.inRange c (List.mem_cons_of_mem b hc)
  ordered := (List.pairwise_cons.mp h.ordered).2

theorem pairwise_apart {blocks : List Block} (h : Laid blocks) : blocks.Pairwise Block.Apart := by
  refine h.ordered.imp_of_mem ?_
  intro b c hb hc order
  exact (Block.apart_iff (h.nonempty b hb) (h.nonempty c hc)).mpr (Or.inl order)

theorem eq_of_covers {blocks : List Block} (h : Laid blocks) {b c : Block} (hb : b ∈ blocks)
    (hc : c ∈ blocks) {a : Word} (inB : b.Covers a) (inC : c.Covers a) : c = b := by
  by_contra other
  exact h.pairwise_apart.forall hc hb other a ⟨inC, inB⟩

/- Blocks in order are determined by which they are. -/
theorem eq_of_perm {blocks blocks' : List Block} (h : Laid blocks) (h' : Laid blocks')
    (perm : blocks.Perm blocks') : blocks = blocks' := by
  refine List.Perm.eq_of_pairwise ?_ h.ordered h'.ordered perm
  intro b c hb hc before behind
  have hb := Block.start_lt_stop (h.nonempty b hb)
  have hc := Block.start_lt_stop (h'.nonempty c hc)
  omega

end Laid

namespace Image

/-! ### Neighbours -/

theorem below?_mem {i : Image} {a : Word} {d : Block} (h : i.below? a = some d) :
    d ∈ i.blocks ∧ d.start ≤ a := by
  have member := List.mem_of_getLast? h
  simpa using member

theorem above?_mem {i : Image} {a : Word} {d : Block} (h : i.above? a = some d) :
    d ∈ i.blocks ∧ a ≤ d.start := by
  refine ⟨List.mem_of_find?_eq_some h, ?_⟩
  have high := List.find?_some h
  simpa using high

section Neighbours

variable {i : Image} (laid : Laid i.blocks) {c : Block} (member : c ∈ i.blocks) {a : Word}

include laid member

/- A block that starts no higher than an address is the nearest of these, or before it. -/
theorem below?_nearest (low : c.start ≤ a) :
    ∃ d, i.below? a = some d ∧ (c = d ∨ c.stop ≤ d.start.toNat) := by
  have inside : c ∈ i.blocks.filter (·.start ≤ a) := by simp [member, low]
  cases last : i.below? a with
  | none =>
    rw [List.getLast?_eq_none_iff.mp last] at inside
    cases inside
  | some d =>
    obtain ⟨front, split⟩ := List.getLast?_eq_some_iff.mp last
    have ordered := laid.ordered.filter (·.start ≤ a)
    rw [split] at inside ordered
    refine ⟨d, rfl, ?_⟩
    rcases List.mem_append.mp inside with before | here
    · exact Or.inr ((List.pairwise_append.mp ordered).2.2 c before d (by simp))
    · exact Or.inl (List.mem_singleton.mp here)

/- A block that starts no lower than an address is the nearest of these, or behind it. -/
theorem above?_nearest (high : a ≤ c.start) :
    ∃ d, i.above? a = some d ∧ (c = d ∨ d.stop ≤ c.start.toNat) := by
  cases first : i.above? a with
  | none =>
    have lower := List.find?_eq_none.mp first c member
    simp [high] at lower
  | some d =>
    obtain ⟨-, front, back, split, lower⟩ := List.find?_eq_some_iff_append.mp first
    have ordered := laid.ordered
    rw [split] at member ordered
    refine ⟨d, rfl, ?_⟩
    rcases List.mem_append.mp member with before | behind
    · have outside := lower c before
      simp [high] at outside
    · rcases List.mem_cons.mp behind with here | behind
      · exact Or.inl here
      · have later := (List.pairwise_append.mp ordered).2.1
        exact Or.inr ((List.pairwise_cons.mp later).1 c behind)

end Neighbours

section Obstacles

variable {i : Image} (laid : Laid i.blocks) {b : Block} (full : b.words ≠ [])

include laid full

theorem obstacle?_meets {c : Block} (h : i.obstacle? b = some c) :
    c ∈ i.blocks ∧ ¬b.Apart c := by
  have pos := Block.start_lt_stop full
  simp only [obstacle?, Option.or_eq_some_iff, Option.filter_eq_some_iff, decide_eq_true_eq] at h
  rcases h with ⟨below, reaches⟩ | ⟨-, above, reaches⟩
  · obtain ⟨member, low⟩ := below?_mem below
    refine ⟨member, ?_⟩
    rw [Block.apart_iff full (laid.nonempty c member)]
    rw [BitVec.le_def] at low
    omega
  · obtain ⟨member, high⟩ := above?_mem above
    have after := Block.start_lt_stop (laid.nonempty c member)
    refine ⟨member, ?_⟩
    rw [Block.apart_iff full (laid.nonempty c member)]
    rw [BitVec.le_def] at high
    omega

/- The blocks beyond the two neighbours lie beyond what the neighbours leave free. -/
theorem apart_of_obstacle?_none (h : i.obstacle? b = none) : ∀ c ∈ i.blocks, b.Apart c := by
  intro c member
  rw [Block.apart_iff full (laid.nonempty c member)]
  simp only [obstacle?, Option.or_eq_none_iff, Option.filter_eq_none_iff, decide_eq_true_eq] at h
  obtain ⟨free, free'⟩ := h
  by_cases low : c.start ≤ b.start
  · obtain ⟨d, below, here | before⟩ := below?_nearest laid member low
    · have clear := free d below
      rw [← here] at clear
      omega
    · have clear := free d below
      have pos := Block.start_lt_stop (laid.nonempty d (below?_mem below).1)
      omega
  · have high : b.start ≤ c.start := BitVec.le_of_lt (BitVec.not_le.mp low)
    obtain ⟨d, above, here | behind⟩ := above?_nearest laid member high
    · have clear := free' d above
      rw [← here] at clear
      omega
    · have clear := free' d above
      have pos := Block.start_lt_stop (laid.nonempty d (above?_mem above).1)
      omega

end Obstacles

/-! ### Adding a block -/

theorem place_perm (b : Block) (blocks : List Block) : (place b blocks).Perm (b :: blocks) := by
  induction blocks with
  | nil => exact .refl _
  | cons c cs ih =>
    unfold place
    split
    · exact .refl _
    · exact (ih.cons c).trans (.swap b c cs)

theorem place_ordered {b : Block} {blocks : List Block} (laid : Laid blocks) (full : b.words ≠ [])
    (apart : ∀ c ∈ blocks, b.Apart c) :
    (place b blocks).Pairwise fun c d => c.stop ≤ d.start.toNat := by
  have pos := Block.start_lt_stop full
  have sides : ∀ c ∈ blocks, b.stop ≤ c.start.toNat ∨ c.stop ≤ b.start.toNat := fun c hc =>
    (Block.apart_iff full (laid.nonempty c hc)).mp (apart c hc)
  induction blocks with
  | nil => exact List.pairwise_singleton _ _
  | cons c cs ih =>
    obtain ⟨first, rest⟩ := List.pairwise_cons.mp laid.ordered
    have posC := Block.start_lt_stop (laid.nonempty c (by simp))
    have sideC := sides c (by simp)
    unfold place
    split
    · next low =>
      rw [BitVec.lt_def] at low
      refine List.pairwise_cons.mpr ⟨?_, laid.ordered⟩
      intro d hd
      rcases List.mem_cons.mp hd with rfl | hd
      · omega
      · have behind := first d hd
        omega
    · next high =>
      rw [BitVec.lt_def] at high
      refine List.pairwise_cons.mpr ⟨?_, ih laid.tail (fun d hd => apart d (by simp [hd]))
        fun d hd => sides d (by simp [hd])⟩
      intro d hd
      rcases List.mem_cons.mp ((place_perm b cs).mem_iff.mp hd) with rfl | hd
      · omega
      · exact first d hd

theorem laid_place {b : Block} {blocks : List Block} (laid : Laid blocks) (full : b.words ≠ [])
    (inRange : b.stop ≤ 65536) (apart : ∀ c ∈ blocks, b.Apart c) : Laid (place b blocks) := by
  have members : ∀ c ∈ place b blocks, c = b ∨ c ∈ blocks := fun c hc =>
    List.mem_cons.mp ((place_perm b blocks).mem_iff.mp hc)
  refine ⟨?_, ?_, place_ordered laid full apart⟩
  · intro c hc
    rcases members c hc with rfl | hc
    · exact full
    · exact laid.nonempty c hc
  · intro c hc
    rcases members c hc with rfl | hc
    · exact inRange
    · exact laid.inRange c hc

section Adding

variable {i : Image} {b : Block}

theorem addBlock_of_empty (empty : b.words = []) : i.addBlock b = .ok i := by
  simp [addBlock, empty]

theorem addBlock_of_outside (full : b.words ≠ []) (outside : 65536 < b.stop) :
    i.addBlock b = .error (.outOfRange b.start b.words.length) := by
  simp [addBlock, full, outside]

variable (laid : Laid i.blocks) (full : b.words ≠ []) (inRange : b.stop ≤ 65536)

include laid full inRange

theorem addBlock_of_apart (apart : ∀ c ∈ i.blocks, b.Apart c) :
    i.addBlock b =
      .ok { i with blocks := place b i.blocks, first := i.first <|> some b.start } := by
  have within : ¬65536 < b.stop := by omega
  cases h : i.obstacle? b with
  | none => simp [addBlock, full, within, h]
  | some c =>
    obtain ⟨member, meets⟩ := obstacle?_meets laid full h
    exact absurd (apart c member) meets

theorem addBlock_of_meets {c : Block} (member : c ∈ i.blocks) (meets : ¬b.Apart c) :
    ∃ d ∈ i.blocks, ¬b.Apart d ∧ i.addBlock b = .error (.overlap b.start d.start) := by
  have within : ¬65536 < b.stop := by omega
  cases h : i.obstacle? b with
  | none => exact absurd (apart_of_obstacle?_none laid full h c member) meets
  | some d =>
    obtain ⟨stored, met⟩ := obstacle?_meets laid full h
    exact ⟨d, stored, met, by simp [addBlock, full, within, h]⟩

end Adding

/-- What becomes of a block that is added to blocks in order: an empty one is ignored, one that runs
past the last address is refused, one that meets a stored block is refused with the name of a block
that it meets, and any other is put in its place. -/
theorem addBlock_cases {i : Image} (laid : Laid i.blocks) (b : Block) :
    (b.words = [] ∧ i.addBlock b = .ok i) ∨
    (b.words ≠ [] ∧ 65536 < b.stop ∧
      i.addBlock b = .error (.outOfRange b.start b.words.length)) ∨
    (b.words ≠ [] ∧ b.stop ≤ 65536 ∧ ∃ c ∈ i.blocks, ¬b.Apart c ∧
      i.addBlock b = .error (.overlap b.start c.start)) ∨
    (b.words ≠ [] ∧ b.stop ≤ 65536 ∧ (∀ c ∈ i.blocks, b.Apart c) ∧
      i.addBlock b =
        .ok { i with blocks := place b i.blocks, first := i.first <|> some b.start }) := by
  by_cases empty : b.words = []
  · exact Or.inl ⟨empty, addBlock_of_empty empty⟩
  by_cases outside : 65536 < b.stop
  · exact Or.inr (Or.inl ⟨empty, outside, addBlock_of_outside empty outside⟩)
  have inRange : b.stop ≤ 65536 := by omega
  by_cases apart : ∀ c ∈ i.blocks, b.Apart c
  · exact Or.inr (Or.inr (Or.inr ⟨empty, inRange, apart, addBlock_of_apart laid empty inRange apart⟩))
  · push Not at apart
    obtain ⟨c, member, meets⟩ := apart
    exact Or.inr (Or.inr (Or.inl ⟨empty, inRange,
      addBlock_of_meets laid empty inRange member meets⟩))

theorem addBlock_accepts {i : Image} (laid : Laid i.blocks) (b : Block) :
    (∃ j, i.addBlock b = .ok j) ↔
      b.words = [] ∨ (b.stop ≤ 65536 ∧ ∀ c ∈ i.blocks, b.Apart c) := by
  constructor
  · rintro ⟨j, added⟩
    obtain ⟨empty, -⟩ | ⟨-, -, eq⟩ | ⟨-, -, c, -, -, eq⟩ | ⟨-, inRange, apart, -⟩ :=
      addBlock_cases laid b
    · exact Or.inl empty
    · simp [eq] at added
    · simp [eq] at added
    · exact Or.inr ⟨inRange, apart⟩
  · intro fits
    by_cases empty : b.words = []
    · exact ⟨i, addBlock_of_empty empty⟩
    · obtain ⟨inRange, apart⟩ := fits.resolve_left empty
      exact ⟨_, addBlock_of_apart laid empty inRange apart⟩

theorem addBlock_stored {i j : Image} (laid : Laid i.blocks) {b : Block} (full : b.words ≠ [])
    (added : i.addBlock b = .ok j) :
    Laid j.blocks ∧ j.blocks.Perm (b :: i.blocks) ∧ j.first = (i.first <|> some b.start) := by
  obtain empty | ⟨inRange, apart⟩ := (addBlock_accepts laid b).mp ⟨j, added⟩
  · exact absurd empty full
  · rw [addBlock_of_apart laid full inRange apart] at added
    cases added
    exact ⟨laid_place laid full inRange apart, place_perm b i.blocks, rfl⟩

theorem addBlock_keeps {i j : Image} {b : Block} (added : i.addBlock b = .ok j) :
    j.chosenEntry = i.chosenEntry ∧ j.symbols = i.symbols := by
  simp only [addBlock] at added
  split at added
  · cases added
    exact ⟨rfl, rfl⟩
  · split at added
    · cases added
    · split at added <;> cases added
      exact ⟨rfl, rfl⟩

/-! ### Edits -/

/-- What can be done to an image. -/
inductive Edit where
  | add (b : Block)
  | enter (entry : Word)
  | relabel (symbols : SymbolTable)

/-- The image after an edit. A block that is refused leaves it as it is. -/
def edit (i : Image) : Edit → Image
  | .add b => (i.addBlock b).toOption.getD i
  | .enter entry => i.withEntry entry
  | .relabel symbols => { i with symbols := symbols }

/-- The image after edits in order. -/
def edits (i : Image) (es : List Edit) : Image := es.foldl edit i

/-- The image that is built from nothing. -/
def built (es : List Edit) : Image := ({} : Image).edits es

/- The block that an edit puts into an image, if it does. -/
def gain? (i : Image) : Edit → Option Block
  | .add b => if b.words ≠ [] ∧ (i.addBlock b).isOk then some b else none
  | _ => none

/-- The blocks that edits put into an image, in order of the edits. -/
def gains (i : Image) : List Edit → List Block
  | [] => []
  | e :: es => (i.gain? e).toList ++ gains (i.edit e) es

/-- The entry that edits choose last. -/
def lastEntered? : List Edit → Option Word
  | [] => none
  | .enter entry :: es => lastEntered? es <|> some entry
  | _ :: es => lastEntered? es

theorem edit_cases {i : Image} (laid : Laid i.blocks) (e : Edit) :
    Laid (i.edit e).blocks ∧ (i.edit e).blocks.Perm ((i.gain? e).toList ++ i.blocks) ∧
      (i.edit e).first = (i.first <|> (i.gain? e).map (·.start)) := by
  have unchanged : i.blocks.Perm i.blocks ∧ i.first = (i.first <|> none) := ⟨.refl _, by simp⟩
  cases e with
  | enter entry => exact ⟨laid, unchanged⟩
  | relabel symbols => exact ⟨laid, unchanged⟩
  | add b =>
    cases added : i.addBlock b with
    | error e => simpa [edit, gain?, added, Except.toOption, Except.isOk, Except.toBool] using laid
    | ok j =>
      have step : i.edit (.add b) = j := by simp [edit, added, Except.toOption]
      by_cases empty : b.words = []
      · rw [addBlock_of_empty empty] at added
        cases added
        simpa [step, gain?, empty] using laid
      · have gain : i.gain? (.add b) = some b := by
          simp [gain?, added, empty, Except.isOk, Except.toBool]
        rw [step, gain]
        exact addBlock_stored laid empty added

/-- Edits keep the order of the blocks, and the image has exactly the blocks that they put into it. -/
theorem edits_cases {i : Image} (laid : Laid i.blocks) (es : List Edit) :
    Laid (i.edits es).blocks ∧ (i.edits es).blocks.Perm (i.gains es ++ i.blocks) ∧
      (i.edits es).first = (i.first <|> (i.gains es).head?.map (·.start)) := by
  induction es generalizing i with
  | nil => exact ⟨laid, .refl _, by simp [gains, edits]⟩
  | cons e es ih =>
    obtain ⟨laid', perm, first⟩ := edit_cases laid e
    obtain ⟨kept, perm', first'⟩ := ih laid'
    refine ⟨kept, perm'.trans ?_, first'.trans ?_⟩
    · rw [gains, List.append_assoc]
      exact (perm.append_left _).trans (List.perm_append_comm_assoc _ _ _)
    · rw [first, gains]
      cases i.first <;> cases i.gain? e <;> simp

/- A block that touches its neighbour is added, one that meets it is not. -/
example : (built [.add ⟨0x3000, [1, 2]⟩, .add ⟨0x3001, [3]⟩, .add ⟨0x2FFE, [4, 5]⟩]).blocks =
    [⟨0x2FFE, [4, 5]⟩, ⟨0x3000, [1, 2]⟩] := by decide

theorem edits_chosenEntry (i : Image) (es : List Edit) :
    (i.edits es).chosenEntry = (lastEntered? es <|> i.chosenEntry) := by
  induction es generalizing i with
  | nil => simp [edits, lastEntered?]
  | cons e es ih =>
    have onward : i.edits (e :: es) = (i.edit e).edits es := rfl
    rw [onward, ih]
    cases e with
    | enter entry => simp [edit, withEntry, lastEntered?]
    | relabel symbols => rfl
    | add b =>
      have kept : (i.edit (.add b)).chosenEntry = i.chosenEntry := by
        simp only [edit]
        cases added : i.addBlock b with
        | error e => rfl
        | ok j => exact (addBlock_keeps added).1
      rw [kept]
      rfl

/-! ### Lists of blocks -/

section Lists

variable {i j : Image} {bs : List Block}

/- A list is added by one edit for each block. -/
theorem addAll_edits (added : i.addAll bs = .ok j) :
    i.edits (bs.map .add) = j ∧ i.gains (bs.map .add) = bs.filter fun b => b.words ≠ [] := by
  induction bs generalizing i with
  | nil => exact ⟨addAll_nil.mp added, rfl⟩
  | cons b bs ih =>
    obtain ⟨i', placed, added⟩ := addAll_cons.mp added
    obtain ⟨reached, gained⟩ := ih added
    have step : i.edit (.add b) = i' := by simp [edit, placed, Except.toOption]
    constructor
    · rw [← reached, ← step]
      rfl
    · by_cases empty : b.words = []
      · simp [gains, gain?, step, gained, empty]
      · simp [gains, gain?, step, gained, empty, placed, Except.isOk, Except.toBool]

theorem lastEntered?_adds (bs : List Block) : lastEntered? (bs.map .add) = none := by
  induction bs with
  | nil => rfl
  | cons b bs ih => exact ih

/- The blocks of a list can be added exactly if they are in range and meet neither each other nor a
stored block. -/
theorem addAll_accepts (laid : Laid i.blocks) (full : ∀ b ∈ bs, b.words ≠ []) :
    (∃ j, i.addAll bs = .ok j) ↔ (∀ b ∈ bs, b.stop ≤ 65536) ∧ bs.Pairwise Block.Apart ∧
      ∀ b ∈ bs, ∀ c ∈ i.blocks, b.Apart c := by
  induction bs generalizing i with
  | nil => simp [addAll_nil]
  | cons b bs ih =>
    have fullB := full b (by simp)
    have fullBs : ∀ c ∈ bs, c.words ≠ [] := fun c hc => full c (by simp [hc])
    have accepts := addBlock_accepts laid b
    simp only [fullB, false_or] at accepts
    simp only [List.forall_mem_cons, List.pairwise_cons]
    constructor
    · rintro ⟨j, added⟩
      obtain ⟨i', placed, added⟩ := addAll_cons.mp added
      obtain ⟨inRange, apart⟩ := accepts.mp ⟨i', placed⟩
      obtain ⟨laid', perm, -⟩ := addBlock_stored laid fullB placed
      obtain ⟨inRanges, pairwise, aparts⟩ := (ih laid' fullBs).mp ⟨j, added⟩
      have meets : ∀ c ∈ bs, ∀ d ∈ b :: i.blocks, c.Apart d := fun c hc d hd =>
        aparts c hc d (perm.mem_iff.mpr hd)
      exact ⟨⟨inRange, inRanges⟩, ⟨fun c hc => (meets c hc b (by simp)).symm, pairwise⟩, apart,
        fun c hc d hd => meets c hc d (by simp [hd])⟩
    · rintro ⟨⟨inRange, inRanges⟩, ⟨first, pairwise⟩, apart, aparts⟩
      obtain ⟨i', placed⟩ := accepts.mpr ⟨inRange, apart⟩
      obtain ⟨laid', perm, -⟩ := addBlock_stored laid fullB placed
      have meets : ∀ c ∈ bs, ∀ d ∈ i'.blocks, c.Apart d := by
        intro c hc d hd
        rcases List.mem_cons.mp (perm.mem_iff.mp hd) with rfl | hd
        · exact (first c hc).symm
        · exact aparts c hc d hd
      obtain ⟨j, added⟩ := (ih laid' fullBs).mpr ⟨inRanges, pairwise, meets⟩
      exact ⟨j, addAll_cons.mpr ⟨i', placed, added⟩⟩

/- The blocks of a list that are not empty are put into the image. -/
theorem addAll_cases (laid : Laid i.blocks) (added : i.addAll bs = .ok j) :
    Laid j.blocks ∧ j.blocks.Perm (bs.filter (fun b => b.words ≠ []) ++ i.blocks) := by
  obtain ⟨reached, gained⟩ := addAll_edits added
  obtain ⟨kept, perm, -⟩ := edits_cases laid (bs.map .add)
  rw [reached] at kept perm
  rw [gained] at perm
  exact ⟨kept, perm⟩

theorem addAll_stored (laid : Laid i.blocks) (full : ∀ b ∈ bs, b.words ≠ [])
    (added : i.addAll bs = .ok j) : Laid j.blocks ∧ j.blocks.Perm (bs ++ i.blocks) := by
  have all : bs.filter (fun b => b.words ≠ []) = bs := by simpa using full
  have stored := addAll_cases laid added
  rwa [all] at stored

/- What can be added in one order can be added in any, and makes the same blocks. -/
theorem addAll_perm_ok {bs' : List Block} (laid : Laid i.blocks) (full : ∀ b ∈ bs, b.words ≠ [])
    (perm : bs.Perm bs') (added : i.addAll bs = .ok j) :
    ∃ j', i.addAll bs' = .ok j' ∧ j'.blocks = j.blocks := by
  have full' : ∀ b ∈ bs', b.words ≠ [] := fun b hb => full b (perm.mem_iff.mpr hb)
  obtain ⟨inRange, pairwise, apart⟩ := (addAll_accepts laid full).mp ⟨j, added⟩
  have accepted := (addAll_accepts laid full').mpr ⟨fun b hb => inRange b (perm.mem_iff.mpr hb),
    (perm.pairwise_iff Block.Apart.symm).mp pairwise, fun b hb => apart b (perm.mem_iff.mpr hb)⟩
  obtain ⟨j', added'⟩ := accepted
  obtain ⟨kept, blocks⟩ := addAll_stored laid full added
  obtain ⟨kept', blocks'⟩ := addAll_stored laid full' added'
  have same := (blocks'.trans (perm.symm.append_right _)).trans blocks.symm
  exact ⟨j', added', kept'.eq_of_perm kept same⟩

end Lists

/-! ### Images from files and texts -/

theorem built_cases (es : List Edit) :
    Laid (built es).blocks ∧ (built es).blocks.Perm (gains {} es) ∧
      (built es).first = (gains {} es).head?.map (·.start) := by
  have laid : Laid ({} : Image).blocks := .nil
  simpa [built] using edits_cases laid es

theorem built_append (es es' : List Edit) : built (es ++ es') = (built es).edits es' :=
  List.foldl_append

theorem ofObject_built {bytes : List Byte} {i : Image} (read : ofObject bytes = .ok i) :
    ∃ es, i = built es := by
  unfold ofObject at read
  split at read
  · cases read
  · cases read
  · next origin words _ =>
    obtain ⟨j, added, rfl⟩ := map_ok.mp (mapError_ok.mp read)
    refine ⟨[.add ⟨origin, words⟩, .enter origin], ?_⟩
    simp [built, edits, edit, added, Except.toOption]

theorem ofText_built {source : String} {i : Image} (read : ofText source = .ok i) :
    ∃ es, i = built es := by
  obtain ⟨d, -, done⟩ := bind_ok.mp read
  obtain ⟨bs, j, entry, -, added, -, rfl⟩ := Draft.finish_ok.mp done
  have reached : built (bs.map .add) = j := (addAll_edits added).1
  have unset : j.chosenEntry = none := by
    rw [← reached, built, edits_chosenEntry, lastEntered?_adds]
    rfl
  refine ⟨bs.map .add ++ (entry.toList.map .enter ++ [.relabel d.symbols]), ?_⟩
  rw [built_append, reached]
  cases entry with
  | none =>
    show { j with chosenEntry := none, symbols := d.symbols } = { j with symbols := d.symbols }
    rw [unset]
  | some entry => rfl

/-- Images stay well formed. Whatever is done to one, its blocks are not empty, end within the
address space and have no address in common. A block is accepted exactly if it is empty, or in range
and apart from every stored block; when it is refused the image stays as it is, and an overlap names
a stored block that the new one meets. So a list of blocks is accepted exactly if it is in range and
disjoint, in whatever order, and the order leaves no trace in the stored blocks. -/
theorem built_wellFormed (es : List Edit) :
    (∀ b ∈ (built es).blocks, b.words ≠ [] ∧ b.stop ≤ 65536) ∧
    (built es).blocks.Pairwise Block.Apart ∧
    (∀ b, (∃ j, (built es).addBlock b = .ok j) ↔
      b.words = [] ∨ (b.stop ≤ 65536 ∧ ∀ c ∈ (built es).blocks, b.Apart c)) ∧
    (∀ b e, (built es).addBlock b = .error e → (built es).edit (.add b) = built es ∧
      ∀ start other, e = .overlap start other →
        start = b.start ∧ ∃ c ∈ (built es).blocks, c.start = other ∧ ¬b.Apart c) ∧
    (∀ bs : List Block, (∀ b ∈ bs, b.words ≠ []) →
      ((∃ j, (built es).addAll bs = .ok j) ↔ (∀ b ∈ bs, b.stop ≤ 65536) ∧
        bs.Pairwise Block.Apart ∧ ∀ b ∈ bs, ∀ c ∈ (built es).blocks, b.Apart c) ∧
      (∀ j, (built es).addAll bs = .ok j → j.blocks.Perm (bs ++ (built es).blocks)) ∧
      ∀ bs', bs.Perm bs' → ((built es).addAll bs').toOption.map (·.blocks) =
        ((built es).addAll bs).toOption.map (·.blocks)) ∧
    (∀ bytes i, ofObject bytes = .ok i → ∃ es, i = built es) ∧
    ∀ source i, ofText source = .ok i → ∃ es, i = built es := by
  have laid := (built_cases es).1
  refine ⟨fun b hb => ⟨laid.nonempty b hb, laid.inRange b hb⟩, laid.pairwise_apart,
    addBlock_accepts laid, ?refused, ?lists, fun _ _ => ofObject_built, fun _ _ => ofText_built⟩
  case refused =>
    intro b e refused
    refine ⟨by simp [edit, refused, Except.toOption], ?_⟩
    rintro start other rfl
    obtain ⟨-, eq⟩ | ⟨-, -, eq⟩ | ⟨-, -, c, member, meets, eq⟩ | ⟨-, -, -, eq⟩ :=
      addBlock_cases laid b
    · simp [eq] at refused
    · simp [eq] at refused
    · rw [eq] at refused
      cases refused
      exact ⟨rfl, c, member, rfl, meets⟩
    · simp [eq] at refused
  case lists =>
    intro bs full
    refine ⟨addAll_accepts laid full, fun j added => (addAll_stored laid full added).2, ?_⟩
    intro bs' perm
    have full' : ∀ b ∈ bs', b.words ≠ [] := fun b hb => full b (perm.mem_iff.mpr hb)
    cases added : (built es).addAll bs with
    | ok j =>
      obtain ⟨j', added', same⟩ := addAll_perm_ok laid full perm added
      simp [added', same, Except.toOption]
    | error e =>
      cases added' : (built es).addAll bs' with
      | error e' => rfl
      | ok j' =>
        obtain ⟨j, back, -⟩ := addAll_perm_ok laid full' perm.symm added'
        simp [added] at back

end Image

end Lc3
