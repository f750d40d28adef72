import Lc3.Proofs.Blocks
import Lc3.Proofs.Scanning

/-!
# Printing images

Every image has a text: its entry point, and each block between `.orig` and `.end` with one line for
each word and each label. The text is taken apart as it was put together: its lines scan as the tokens
they were made of (`Passage.reads_lines`), the tokens of a block make a block of the draft with its
labels (`read_passage`), and the draft denotes the blocks that were printed (`Copies.denotes`).
-/

namespace Lc3

/-! ### Written images -/

/-- A word as it is written: with the labels in front of it, in a base, and alone or as the operand of
a directive. -/
structure Cell where
  labels : List String
  word : Word
  base : Base
  filled : Bool

/-- A block as it is written. -/
structure Passage where
  start : Word
  cells : List Cell

/-- A number as it is written in a base. -/
def numeral : Base → Word → String
  | .hex, w => "x" ++ w.hex
  | .decimal, w => toString w.toNat

def Cell.lines (c : Cell) : List String :=
  c.labels.map (· ++ ":") ++ [(if c.filled then ".fill " else "") ++ numeral c.base c.word]

/-- The labels of a word at a distance from the start of a block. -/
def Cell.marks (c : Cell) (start : Word) (k : Nat) : List (String × Word) :=
  c.labels.map fun name => (name, start + BitVec.ofNat 16 k)

namespace Passage

def block (p : Passage) : Block := ⟨p.start, p.cells.map Cell.word⟩

def lines (p : Passage) : List String :=
  (".orig " ++ numeral .hex p.start) :: p.cells.flatMap Cell.lines ++ [".end"]

/-- The labels of a block with the addresses of their words. -/
def labels (p : Passage) : List (String × Word) :=
  p.cells.zipIdx.flatMap fun e => e.1.marks p.start e.2

theorem mem_labels {p : Passage} {k : Nat} {c : Cell} (cell : p.cells[k]? = some c) {name : String}
    (member : name ∈ c.labels) : (name, p.start + BitVec.ofNat 16 k) ∈ p.labels :=
  List.mem_flatMap.mpr
    ⟨(c, k), List.mk_mem_zipIdx_iff_getElem?.mpr cell, List.mem_map.mpr ⟨name, member, rfl⟩⟩

end Passage

/-- The text of an image with an entry point. -/
def render (entry : Word) (ps : List Passage) : String :=
  "\n".intercalate ((".entry " ++ numeral .hex entry) :: ps.flatMap Passage.lines)

/-! ### Tokens of written images -/

def Cell.tokens (c : Cell) : List (List Token) :=
  c.labels.map (fun name => [.ident name, .colon]) ++
    [(if c.filled then [.directive "fill"] else []) ++ [.unsigned c.word]]

def Passage.tokens (p : Passage) : List (List Token) :=
  [.directive "orig", .unsigned p.start] :: p.cells.flatMap Cell.tokens ++ [[.directive "end"]]

def renderTokens (entry : Word) (ps : List Passage) : List (List Token) :=
  [.directive "entry", .unsigned entry] :: ps.flatMap Passage.tokens

open Token

theorem reads_numeral (b : Base) (w : Word) : Reads (numeral b w).toList [.unsigned w] := by
  cases b with
  | hex => simpa [numeral, Word.hex] using reads_hex w
  | decimal => simpa [numeral] using reads_decimal w

theorem reads_operand {directive : List Char} (name : isDirective directive) (b : Base) (w : Word) :
    Reads ('.' :: directive ++ ' ' :: (numeral b w).toList)
      [.directive (String.ofList directive), .unsigned w] :=
  (reads_directive name).append (reads_numeral b w).blank (.cons (by simp) _)

/-- A token that is neither a comment nor the end of a line. -/
def Token.isInline : Token → Bool
  | comment _ | newline => false
  | _ => true

theorem Cell.tokens_inline {c : Cell} : ∀ ts ∈ c.tokens, ∀ t ∈ ts, t.isInline := by
  intro ts hts t ht
  rcases List.mem_append.mp hts with label | word
  · obtain ⟨name, -, rfl⟩ := List.mem_map.mp label
    simp only [List.mem_cons, List.not_mem_nil, or_false] at ht
    rcases ht with rfl | rfl <;> rfl
  · rw [List.mem_singleton.mp word] at ht
    rcases List.mem_append.mp ht with fill | number
    · split at fill <;> simp at fill
      rw [fill]
      rfl
    · rw [List.mem_singleton.mp number]
      rfl

theorem Passage.tokens_inline {p : Passage} : ∀ ts ∈ p.tokens, ∀ t ∈ ts, t.isInline := by
  intro ts hts t ht
  rcases List.mem_append.mp hts with front | last
  · rcases List.mem_cons.mp front with rfl | inner
    · simp only [List.mem_cons, List.not_mem_nil, or_false] at ht
      rcases ht with rfl | rfl <;> rfl
    · obtain ⟨c, -, inCell⟩ := List.mem_flatMap.mp inner
      exact c.tokens_inline ts inCell t ht
  · rw [List.mem_singleton.mp last] at ht
    rw [List.mem_singleton.mp ht]
    rfl

theorem renderTokens_inline {entry : Word} {ps : List Passage} :
    ∀ ts ∈ renderTokens entry ps, ∀ t ∈ ts, t.isInline := by
  intro ts hts t ht
  rcases List.mem_cons.mp hts with rfl | inner
  · simp only [List.mem_cons, List.not_mem_nil, or_false] at ht
    rcases ht with rfl | rfl <;> rfl
  · obtain ⟨p, -, inPassage⟩ := List.mem_flatMap.mp inner
    exact p.tokens_inline ts inPassage t ht

/-! ### Scanning the text -/

theorem Cell.reads_lines {c : Cell} (names : ∀ name ∈ c.labels, isName name.toList) :
    List.Forall₂ Reads (c.lines.map String.toList) c.tokens := by
  rw [lines, tokens, List.map_append, List.map_map]
  refine List.rel_append ?_ (.cons ?_ .nil)
  · simp only [List.forall₂_map_left_iff, List.forall₂_map_right_iff, List.forall₂_same]
    intro name member
    have label := (reads_name (names name member)).append reads_colon (.cons (by simp) _)
    simpa using label
  · by_cases filled : c.filled
    · have name : isDirective ['f', 'i', 'l', 'l'] := by decide
      simpa [filled] using reads_operand name c.base c.word
    · simpa [filled] using reads_numeral c.base c.word

theorem reads_flatMap {γ : Type} {lines : γ → List String} {tokens : γ → List (List Token)}
    {xs : List γ} (reads : ∀ x ∈ xs, List.Forall₂ Reads ((lines x).map String.toList) (tokens x)) :
    List.Forall₂ Reads ((xs.flatMap lines).map String.toList) (xs.flatMap tokens) := by
  induction xs with
  | nil => exact .nil
  | cons x xs ih =>
    rw [List.flatMap_cons, List.flatMap_cons, List.map_append]
    exact List.rel_append (reads x (by simp)) (ih fun y hy => reads y (by simp [hy]))

theorem Passage.reads_lines {p : Passage}
    (names : ∀ c ∈ p.cells, ∀ name ∈ c.labels, isName name.toList) :
    List.Forall₂ Reads (p.lines.map String.toList) p.tokens := by
  have cells := reads_flatMap fun c hc => Cell.reads_lines (names c hc)
  have orig : isDirective ['o', 'r', 'i', 'g'] := by decide
  have last : isDirective ['e', 'n', 'd'] := by decide
  rw [lines, tokens, List.map_append, List.map_cons]
  refine List.rel_append (.cons ?_ cells) (.cons ?_ .nil)
  · simpa using reads_operand orig .hex p.start
  · simpa using reads_directive last

/- A written image is cut into the tokens of its lines. -/
theorem splitLines_render {entry : Word} {ps : List Passage}
    (names : ∀ p ∈ ps, ∀ c ∈ p.cells, ∀ name ∈ c.labels, isName name.toList) :
    splitLines (scan (render entry ps).toList) =
      (renderTokens entry ps).map fun ts => ts.map .ok := by
  have passages := reads_flatMap fun p hp => Passage.reads_lines (names p hp)
  have name : isDirective ['e', 'n', 't', 'r', 'y'] := by decide
  have all : List.Forall₂ Reads
      (((".entry " ++ numeral .hex entry) :: ps.flatMap Passage.lines).map String.toList)
      (renderTokens entry ps) := by
    rw [List.map_cons]
    exact .cons (by simpa using reads_operand name .hex entry) passages
  rw [render, String.toList_intercalate]
  refine splitLines_scan all ?_ (by simp)
  intro ts hts broken
  cases renderTokens_inline ts hts .newline broken

/-! ### Reading the tokens -/

namespace Draft

/-- The draft after lines that hold the given tokens. -/
def read (d : Draft) (line : Nat) (tss : List (List Token)) : Except TextError Draft :=
  d.readLines line (tss.map fun ts => ts.map .ok)

variable {d d' e : Draft} {b : DraftBlock} {line : Nat}

theorem read_cons {ts : List Token} {tss : List (List Token)} (inline : ∀ t ∈ ts, t.isInline)
    (first : d.readLine line ts = .ok e) (rest : e.read (line + 1) tss = .ok d') :
    d.read line (ts :: tss) = .ok d' := by
  have plain : ∀ t ∈ ts, t.isComment = false := by
    intro t ht
    have inlineT := inline t ht
    cases t <;> first | rfl | cases inlineT
  refine readLines_cons.mpr ⟨e, ?_, rest⟩
  rw [readTokens_plain d line plain, first]

theorem read_append {tss tss' : List (List Token)} (front : d.read line tss = .ok e)
    (back : e.read (line + tss.length) tss' = .ok d') : d.read line (tss ++ tss') = .ok d' := by
  unfold read at *
  rw [List.map_append, readLines_append]
  exact bind_ok.mpr ⟨e, front, by simpa using back⟩

theorem read_nil : d.read line [] = .ok d := rfl

theorem push_opened (opened : d.current = some b) (w : Word) :
    d.push (.literal w) =
      .ok { d with current := some { b with values := b.values ++ [.literal w] } } := by
  simp [push, openBlock, opened, bind, Except.bind, pure, Except.pure]

section Opened

variable (opened : d.current = some b)

include opened

/- Labels in front of a word are defined to be the address of the next word of the block. -/
theorem read_labels (line : Nat) {names : List String} {a : Word}
    (next : a = b.start + BitVec.ofNat 16 b.values.length)
    (fresh : d.symbols.Fresh (names.map fun name => (name, a))) :
    ∃ t, d.read line (names.map fun name => [.ident name, .colon]) = .ok { d with symbols := t } ∧
      d.symbols.Gains (names.map fun name => (name, a)) t := by
  induction names generalizing d line with
  | nil => exact ⟨d.symbols, rfl, .refl _⟩
  | cons name names ih =>
    have split : d.symbols.Fresh ([(name, a)] ++ names.map fun name => (name, a)) := fresh
    obtain ⟨t, inserted, gains⟩ := SymbolTable.insert?_fresh split.left
    have first : d.readLine line [.ident name, .colon] = .ok { d with symbols := t } := by
      simp [readLine, define, openBlock, opened, ← next, inserted, statement, bind, Except.bind]
    obtain ⟨t', rest, gains'⟩ :=
      ih (d := { d with symbols := t }) opened (line + 1) (split.right gains)
    exact ⟨t', read_cons (by simp [Token.isInline]) first rest, gains.trans gains'⟩

theorem readLine_word (line : Nat) (c : Cell) :
    d.readLine line ((if c.filled then [.directive "fill"] else []) ++ [.unsigned c.word]) =
      .ok { d with current := some { b with values := b.values ++ [.literal c.word] } } := by
  by_cases filled : c.filled
  · simp [filled, readLine, statement, directive, operand, push_opened opened, bind, Except.bind]
  · simp [filled, readLine, statement, push_opened opened]

theorem read_cell (line : Nat) {c : Cell}
    (fresh : d.symbols.Fresh (c.marks b.start b.values.length)) :
    ∃ t, d.read line c.tokens = .ok { d with
        current := some { b with values := b.values ++ [.literal c.word] }
        symbols := t } ∧
      d.symbols.Gains (c.marks b.start b.values.length) t := by
  obtain ⟨t, labels, gains⟩ := read_labels opened line rfl fresh
  have inline := c.tokens_inline _ (List.mem_append_right _ (List.mem_singleton.mpr rfl))
  have word := readLine_word (d := { d with symbols := t }) opened (line + c.labels.length) c
  refine ⟨t, read_append labels ?_, gains⟩
  rw [List.length_map]
  exact read_cons inline word read_nil

/- Words and their labels are appended to the open block. -/
theorem read_cells (line : Nat) {cs : List Cell}
    (fresh : d.symbols.Fresh
      ((cs.zipIdx b.values.length).flatMap fun e => e.1.marks b.start e.2)) :
    ∃ t, d.read line (cs.flatMap Cell.tokens) = .ok { d with
        current := some { b with values := b.values ++ cs.map fun c => .literal c.word }
        symbols := t } ∧
      d.symbols.Gains ((cs.zipIdx b.values.length).flatMap fun e => e.1.marks b.start e.2) t := by
  induction cs generalizing d b line with
  | nil => exact ⟨d.symbols, by simp [read_nil, ← opened], .refl _⟩
  | cons c cs ih =>
    rw [List.zipIdx_cons, List.flatMap_cons] at fresh ⊢
    obtain ⟨t, cell, gains⟩ := read_cell opened line fresh.left
    let b' : DraftBlock := { b with values := b.values ++ [.literal c.word] }
    have longer : b'.values.length = b.values.length + 1 := by simp [b']
    have fresh' := fresh.right gains
    rw [← longer] at fresh' ⊢
    obtain ⟨t', rest, gains'⟩ := ih (d := { d with current := some b', symbols := t }) (b := b') rfl
      (line + c.tokens.length) fresh'
    have all := read_append cell rest
    exact ⟨t', by simpa [b'] using all, gains.trans gains'⟩

end Opened

/- A block is read as a block of the draft with its labels. -/
theorem read_passage (line : Nat) {p : Passage} (closed : d.current = none)
    (fresh : d.symbols.Fresh p.labels) :
    ∃ t, d.read line p.tokens = .ok { d with
        closed := d.closed ++ [⟨p.start, line, p.cells.map fun c => .literal c.word⟩]
        symbols := t } ∧
      d.symbols.Gains p.labels t := by
  have inline : ∀ ts ∈ p.tokens, ∀ t ∈ ts, t.isInline := p.tokens_inline
  let b : DraftBlock := { start := p.start, line }
  have orig : d.readLine line [.directive "orig", .unsigned p.start] =
      .ok { d with current := some b } := by
    simp [readLine, statement, directive, Draft.orig, operand, closed, b, bind, Except.bind, pure,
      Except.pure]
  obtain ⟨t, cells, gains⟩ :=
    read_cells (d := { d with current := some b }) (b := b) rfl (line + 1) fresh
  refine ⟨t, ?_, gains⟩
  refine read_append (read_cons (inline _ (by simp [Passage.tokens])) orig cells)
    (read_cons (inline _ (by simp [Passage.tokens])) ?_ read_nil)
  simp [readLine, statement, directive, close, openBlock, closed, b, bind, Except.bind, pure,
    Except.pure]

/-- The block of the draft has the start and the words of the block that was written. -/
def Copies (b : DraftBlock) (p : Passage) : Prop :=
  b.start = p.start ∧ b.values = p.cells.map fun c => .literal c.word

theorem read_passages (line : Nat) {ps : List Passage} (closed : d.current = none)
    (fresh : d.symbols.Fresh (ps.flatMap Passage.labels)) :
    ∃ t bs, d.read line (ps.flatMap Passage.tokens) =
        .ok { d with closed := d.closed ++ bs, symbols := t } ∧
      List.Forall₂ Copies bs ps ∧ d.symbols.Gains (ps.flatMap Passage.labels) t := by
  induction ps generalizing d line with
  | nil => exact ⟨d.symbols, [], by simp [read_nil], .nil, .refl _⟩
  | cons p ps ih =>
    rw [List.flatMap_cons] at fresh ⊢
    obtain ⟨t, first, gains⟩ := read_passage line closed fresh.left
    let b : DraftBlock := ⟨p.start, line, p.cells.map fun c => .literal c.word⟩
    obtain ⟨t', bs, rest, copies, gains'⟩ :=
      ih (d := { d with closed := d.closed ++ [b], symbols := t }) (line + p.tokens.length) closed
        (fresh.right gains)
    have all := read_append first rest
    exact ⟨t', b :: bs, by simpa using all, .cons ⟨rfl, rfl⟩ copies, gains.trans gains'⟩

/- What the first pass makes of a written image. -/
theorem read_render (entry : Word) {ps : List Passage}
    (fresh : ({} : SymbolTable).Fresh (ps.flatMap Passage.labels)) :
    ∃ t bs, ({} : Draft).read 1 (renderTokens entry ps) =
        .ok { closed := bs, entry := some (.literal entry), symbols := t } ∧
      List.Forall₂ Copies bs ps ∧ ({} : SymbolTable).Gains (ps.flatMap Passage.labels) t := by
  let d : Draft := { entry := some (.literal entry) }
  have first : ({} : Draft).readLine 1 [.directive "entry", .unsigned entry] = .ok d := by
    simp [readLine, statement, directive, operand, d, bind, Except.bind, pure, Except.pure]
  obtain ⟨t, bs, rest, copies, gains⟩ := read_passages (d := d) 2 rfl fresh
  exact ⟨t, bs, read_cons (by simp [Token.isInline]) first rest, copies, gains⟩

theorem Copies.denotes {p : Passage} (copies : Copies b p) (d : Draft) : d.Denotes b p.block := by
  obtain ⟨start, values⟩ := copies
  refine ⟨start.symm, ?_⟩
  rw [values, mapM_ok, List.forall₂_map_left_iff]
  exact List.forall₂_map_right_iff.mpr (List.forall₂_same.mpr fun _ _ => rfl)

end Draft

namespace Image

/-- Every image has a text, and the text is read back exactly. Given blocks that are not empty, in
range and disjoint, an entry point, and labels on words that cannot be taken for numbers and differ
in more than their case, the written image is read as an image with these blocks and this entry
point, in which the labels stand for the addresses of their words. -/
theorem ofText_render (entry : Word) (ps : List Passage) (full : ∀ p ∈ ps, p.cells ≠ [])
    (inRange : ∀ p ∈ ps, p.block.stop ≤ 65536)
    (apart : (ps.map Passage.block).Pairwise Block.Apart)
    (names : ∀ p ∈ ps, ∀ c ∈ p.cells, ∀ name ∈ c.labels, isName name.toList)
    (distinct : ((ps.flatMap Passage.labels).map fun e => Text.upper e.1).Nodup) :
    ∃ i, ofText (render entry ps) = .ok i ∧ i.blocks.Perm (ps.map Passage.block) ∧
      i.entry = entry ∧
      i.symbols.entries.Perm ((ps.flatMap Passage.labels).map fun e => (Text.upper e.1, e.2)) ∧
      ∀ p ∈ ps, ∀ (k : Nat) (c : Cell), p.cells[k]? = some c → ∀ name ∈ c.labels,
        i.symbols.address? name = some (p.start + BitVec.ofNat 16 k) := by
  have fresh : ({} : SymbolTable).Fresh (ps.flatMap Passage.labels) := by
    simpa [SymbolTable.Fresh] using distinct
  obtain ⟨t, bs, read, copies, gains⟩ := Draft.read_render entry fresh
  let d : Draft := { closed := bs, entry := some (.literal entry), symbols := t }
  have denotes : List.Forall₂ d.Denotes bs (ps.map Passage.block) :=
    List.forall₂_map_right_iff.mpr (copies.imp fun b p same => same.denotes d)
  -- the printed blocks can be added to the empty image
  have laid : Laid ({} : Image).blocks := .nil
  have written : ∀ b ∈ ps.map Passage.block, b.words ≠ [] := by
    simpa [Passage.block] using full
  obtain ⟨i, added⟩ := (addAll_accepts laid written).mpr ⟨by simpa using inRange, apart, by simp⟩
  have perm := (addAll_stored laid written added).2
  refine ⟨{ i with chosenEntry := some entry, symbols := t }, ?_, by simpa using perm, rfl, ?_, ?_⟩
  · refine bind_ok.mpr ⟨d, ?_, Draft.finish_ok.mpr ⟨_, i, some entry, ?_, added, rfl, rfl⟩⟩
    · rw [splitLines_render names]
      exact read
    · simpa [d] using denotes
  · simpa [SymbolTable.Gains] using gains
  · intro p hp k c cell name member
    have label : (name, p.start + BitVec.ofNat 16 k) ∈ ps.flatMap Passage.labels :=
      List.mem_flatMap.mpr ⟨p, hp, Passage.mem_labels cell member⟩
    exact gains.address? fresh label

/-- Two blocks that touch, with two labels on one word. -/
def touching : List Passage :=
  [⟨0x3000, [⟨["loop", "x_2"], 0x1021, .hex, false⟩, ⟨[], 0xFFFF, .decimal, true⟩]⟩,
    ⟨0x2FFF, [⟨["End"], 7, .hex, true⟩]⟩]

theorem ofText_render_touching :
    ∃ i, ofText (String.intercalate "\n" [".entry x3001", ".orig x3000", "loop:", "x_2:", "x1021",
        ".fill 65535", ".end", ".orig x2FFF", "End:", ".fill x0007", ".end"]) = .ok i ∧
      i.blocks.Perm [⟨0x3000, [0x1021, 0xFFFF]⟩, ⟨0x2FFF, [7]⟩] ∧ i.entry = 0x3001 ∧
      i.symbols.entries.Perm [("LOOP", 0x3000), ("X_2", 0x3000), ("END", 0x2FFF)] ∧
      i.symbols.address? "End" = some 0x2FFF := by
  obtain ⟨i, read, blocks, entry, entries, address⟩ := ofText_render 0x3001 touching (by decide)
    (by decide) (by simp [touching, Passage.block, Block.apart_iff, Block.stop]) (by decide)
    (by decide)
  have labels : (touching.flatMap Passage.labels).map (fun e => (Text.upper e.1, e.2)) =
      [("LOOP", 0x3000), ("X_2", 0x3000), ("END", 0x2FFF)] := rfl
  have text : render 0x3001 touching = String.intercalate "\n" [".entry x3001", ".orig x3000",
      "loop:", "x_2:", "x1021", ".fill 65535", ".end", ".orig x2FFF", "End:", ".fill x0007",
      ".end"] := rfl
  rw [text] at read
  rw [labels] at entries
  have last := address ⟨0x2FFF, [⟨["End"], 7, .hex, true⟩]⟩ (by simp [touching]) 0
    ⟨["End"], 7, .hex, true⟩ rfl "End" (by simp)
  exact ⟨i, read, blocks, entry, entries, last⟩

end Image

end Lc3
