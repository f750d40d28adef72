import Lc3.Proofs.Blocks
import Lc3.Proofs.Outline

/-!
# Labels of text images

The second pass looks every name up in the finished table, so a word may use a name that is defined
behind it or in another block. A word is stored at the address of its place (`finish_resolves`).
Whether blocks fit does not depend on their words (`Alike.addBlock`), so once the lines are read and
the blocks fit, nothing but a missing name stands against an image (`finish_error`).
-/

namespace Lc3

/-! ### Words of values and images -/

/-- The word that a value stands for, given the addresses of the labels. -/
def Value.word? (t : SymbolTable) : Value → Option Word
  | .literal w => some w
  | .label name _ => t.address? name

/-- The word that an image has for an address. -/
def Image.word? (i : Image) (a : Word) : Option Word :=
  (i.blocks.find? fun b => b.Covers a).bind fun b => b.words[a.toNat - b.start.toNat]?

namespace Image

/-- Some block of the image holds a word for the address. -/
def Covers (i : Image) (a : Word) : Prop := ∃ b ∈ i.blocks, b.Covers a

theorem word?_of_covers {i : Image} (laid : Laid i.blocks) {b : Block} (member : b ∈ i.blocks)
    {a : Word} (covers : b.Covers a) : i.word? a = b.words[a.toNat - b.start.toNat]? := by
  have found : (i.blocks.find? fun b => b.Covers a) = some b := by
    cases search : i.blocks.find? fun b => b.Covers a with
    | none =>
      have missed := List.find?_eq_none.mp search b member
      simp [covers] at missed
    | some c =>
      have inC : c.Covers a := by simpa using List.find?_some search
      rw [laid.eq_of_covers member (List.mem_of_find?_eq_some search) covers inC]
  rw [word?, found]
  rfl

/- The blocks of an image do not end behind the last address, so an address in a block is the start
and the number of words before it. -/
theorem word?_of_site {i : Image} (laid : Laid i.blocks) {b : Block} (member : b ∈ i.blocks) {k : Nat}
    {w : Word} (inside : b.words[k]? = some w) : i.word? (Site.address ⟨b.start, k⟩) = some w := by
  have low : k < b.words.length := (List.getElem?_eq_some_iff.mp inside).1
  have inRange := laid.inRange b member
  have address : (Site.address ⟨b.start, k⟩).toNat = b.start.toNat + k := by
    unfold Block.stop at inRange
    simp only [Site.address, BitVec.toNat_add, BitVec.toNat_ofNat]
    omega
  have covers : b.Covers (Site.address ⟨b.start, k⟩) := by
    unfold Block.Covers Block.stop
    omega
  rw [word?_of_covers laid member covers, address, Nat.add_sub_cancel_left, inside]

/-- Two images with blocks at the same addresses. -/
structure Alike (i j : Image) : Prop where
  left : Laid i.blocks
  right : Laid j.blocks
  covers : ∀ a, i.Covers a ↔ j.Covers a

theorem addBlock_covers {i j : Image} (laid : Laid i.blocks) {b : Block}
    (added : i.addBlock b = .ok j) :
    Laid j.blocks ∧ ∀ a, j.Covers a ↔ b.Covers a ∨ i.Covers a := by
  by_cases empty : b.words = []
  · rw [addBlock_of_empty empty] at added
    cases added
    have nowhere : ∀ a, ¬b.Covers a := by
      intro a covers
      simp only [Block.Covers, Block.stop, empty, List.length_nil] at covers
      omega
    exact ⟨laid, fun a => by simp [nowhere a]⟩
  · obtain ⟨laid', perm, -⟩ := addBlock_stored laid empty added
    exact ⟨laid', fun a => by simp [Covers, perm.mem_iff]⟩

/- Whether a block can be added does not depend on what its words are. -/
theorem Alike.addBlock {i j i' : Image} (alike : i.Alike j) {b c : Block} (start : b.start = c.start)
    (length : b.words.length = c.words.length) (added : i.addBlock b = .ok i') :
    ∃ j', j.addBlock c = .ok j' ∧ i'.Alike j' := by
  have same : ∀ a, b.Covers a ↔ c.Covers a := by simp [Block.Covers, Block.stop, start, length]
  have accepted := (addBlock_accepts alike.left b).mp ⟨i', added⟩
  have accepts : c.words = [] ∨ (c.stop ≤ 65536 ∧ ∀ d ∈ j.blocks, c.Apart d) := by
    refine accepted.imp ?_ ?_
    · intro empty
      rw [empty] at length
      exact List.eq_nil_of_length_eq_zero length.symm
    · rintro ⟨inRange, apart⟩
      refine ⟨by simpa [Block.stop, start, length] using inRange, ?_⟩
      rintro d hd a ⟨inC, inD⟩
      obtain ⟨e, he, inE⟩ := (alike.covers a).mpr ⟨d, hd, inD⟩
      exact apart e he a ⟨(same a).mpr inC, inE⟩
  obtain ⟨j', added'⟩ := (addBlock_accepts alike.right c).mpr accepts
  obtain ⟨laid, covers⟩ := addBlock_covers alike.left added
  obtain ⟨laid', covers'⟩ := addBlock_covers alike.right added'
  exact ⟨j', added', laid, laid', fun a => by rw [covers, covers', same, alike.covers]⟩

end Image

/-! ### The second pass -/

namespace Draft

variable {d e : Draft}

theorem resolve_ok {v : Value} {w : Word} :
    d.resolve v = .ok w ↔ v.word? d.symbols = some w := by
  cases v with
  | literal u => simp [resolve, Value.word?]
  | label name n =>
    simp only [resolve, Value.word?]
    cases d.symbols.address? name <;> simp

/-- The error of a name that is used by some of the values and is not defined. -/
def Missing (d : Draft) (vs : List Value) (e : TextError) : Prop :=
  ∃ name n, e = ⟨n, .undefinedLabel name⟩ ∧ Value.label name n ∈ vs ∧ d.symbols.address? name = none

theorem resolve_error {v : Value} {x : TextError} (failed : d.resolve v = .error x) :
    d.Missing [v] x := by
  unfold resolve at failed
  split at failed
  · cases failed
  · split at failed
    · cases failed
    · next name n _ undefined =>
      cases failed
      exact ⟨name, n, rfl, List.mem_cons_self .., undefined⟩

theorem Missing.mono {vs vs' : List Value} {x : TextError} (sub : vs ⊆ vs')
    (missing : d.Missing vs x) : d.Missing vs' x := by
  obtain ⟨name, n, eq, used, undefined⟩ := missing
  exact ⟨name, n, eq, sub used, undefined⟩

theorem mapM_resolve_error {vs : List Value} {x : TextError} (failed : vs.mapM d.resolve = .error x) :
    d.Missing vs x := by
  induction vs with
  | nil => cases failed
  | cons v vs ih =>
    rw [List.mapM_cons] at failed
    rcases bind_error.mp failed with first | ⟨w, -, failed⟩
    · exact (resolve_error first).mono (by simp)
    · rcases bind_error.mp failed with rest | ⟨ws, -, done⟩
      · exact (ih rest).mono (by simp)
      · cases done

/- Blocks that fit with other labels fit with these, unless a name is missing. -/
theorem addBlocks_alike {ds : List DraftBlock} {i j j' : Image} (alike : j.Alike i)
    (added : ds.foldlM e.addBlock j = .ok j') {x : TextError}
    (failed : ds.foldlM d.addBlock i = .error x) : d.Missing (ds.flatMap (·.values)) x := by
  induction ds generalizing i j with
  | nil => cases failed
  | cons b ds ih =>
    rw [List.foldlM_cons] at failed
    obtain ⟨j₁, first, rest⟩ := bind_ok.mp added
    obtain ⟨c, ⟨start, words⟩, placed⟩ := addBlock_ok.mp first
    cases resolved : b.values.mapM d.resolve with
    | error y =>
      have here : d.addBlock i b = .error y := bind_error.mpr (Or.inl resolved)
      rw [here] at failed
      cases failed
      exact (mapM_resolve_error resolved).mono (by simp)
    | ok ws =>
      have length : c.words.length = ws.length :=
        (mapM_ok.mp words).length_eq.symm.trans (mapM_ok.mp resolved).length_eq
      obtain ⟨i₁, placed', alike'⟩ := alike.addBlock (c := ⟨b.start, ws⟩) start length placed
      have here : d.addBlock i b = .ok i₁ := addBlock_ok.mpr ⟨_, ⟨rfl, resolved⟩, placed'⟩
      rw [here] at failed
      exact (ih alike' rest failed).mono (by simp)

/-- The values that are looked up in the second pass. -/
def values (d : Draft) : List Value :=
  (d.closed ++ d.current.toList).flatMap (·.values) ++ d.entry.toList

theorem values_eq : d.values = d.placed.map Prod.snd ++ d.entry.toList := by
  simp [values, Draft.placed, List.map_flatMap, DraftBlock.placed, Function.comp_def]

theorem entry_error {x : TextError} (failed : d.entry.mapM d.resolve = .error x) :
    d.Missing d.values x := by
  cases chosen : d.entry with
  | none =>
    rw [chosen] at failed
    cases failed
  | some v =>
    rw [chosen, Option.mapM_some] at failed
    rcases bind_error.mp failed with missing | ⟨w, -, done⟩
    · exact (resolve_error missing).mono (by simp [values, chosen])
    · cases done

/- Once the lines are read, and the blocks fit, only a missing name stands against an image. -/
theorem finish_error {t : SymbolTable} {i : Image}
    (complete : ({ d with symbols := t } : Draft).finish = .ok i) {x : TextError}
    (failed : d.finish = .error x) : d.Missing d.values x := by
  obtain ⟨i', added, -⟩ := bind_ok.mp complete
  have alike : ({} : Image).Alike {} := ⟨.nil, .nil, fun _ => .rfl⟩
  rcases bind_error.mp failed with refused | ⟨i, -, failed⟩
  · exact (addBlocks_alike alike added refused).mono (List.subset_append_left ..)
  · rcases bind_error.mp failed with missing | ⟨entry, -, done⟩
    · exact entry_error missing
    · cases done

theorem finish_symbols {i : Image} (done : d.finish = .ok i) : i.symbols = d.symbols := by
  obtain ⟨_, _, _, _, _, _, rfl⟩ := finish_ok.mp done
  rfl

theorem finish_entry {i : Image} (done : d.finish = .ok i) {v : Value} (chosen : d.entry = some v) :
    v.word? i.symbols = some i.entry := by
  obtain ⟨_, _, _, _, _, found, rfl⟩ := finish_ok.mp done
  rw [chosen, Option.mapM_some] at found
  obtain ⟨w, resolved, rfl⟩ := map_ok.mp found
  exact resolve_ok.mp resolved

theorem finish_resolves {i : Image} (done : d.finish = .ok i) {s : Site} {v : Value}
    (member : (s, v) ∈ d.placed) :
    ∃ w, v.word? i.symbols = some w ∧ i.word? s.address = some w := by
  obtain ⟨bs, i', entry, denotes, added, -, rfl⟩ := finish_ok.mp done
  obtain ⟨b, inDraft, inBlock⟩ := List.mem_flatMap.mp member
  obtain ⟨⟨v, k⟩, here, eq⟩ := List.mem_map.mp inBlock
  cases eq
  obtain ⟨m, atBlock⟩ := List.getElem?_of_mem inDraft
  obtain ⟨c, atC, start, words⟩ := forall₂_at denotes atBlock
  obtain ⟨w, atWord, resolved⟩ := forall₂_at (mapM_ok.mp words)
    (List.mk_mem_zipIdx_iff_getElem?.mp here)
  -- the block has a word, so it is one of the image
  have full : c.words ≠ [] := by
    intro empty
    rw [empty] at atWord
    cases atWord
  obtain ⟨laid, perm⟩ := Image.addAll_cases .nil added
  have stored : c ∈ i'.blocks := perm.mem_iff.mpr (by simp [List.mem_of_getElem? atC, full])
  refine ⟨w, resolve_ok.mp resolved, ?_⟩
  rw [← start]
  exact Image.word?_of_site laid stored atWord

/-- Every value of a draft that becomes an image is looked up. -/
theorem finish_values {i : Image} (done : d.finish = .ok i) {v : Value} (member : v ∈ d.values) :
    ∃ w, v.word? i.symbols = some w := by
  rw [values_eq] at member
  rcases List.mem_append.mp member with stored | chosen
  · obtain ⟨⟨s, v⟩, place, rfl⟩ := List.mem_map.mp stored
    obtain ⟨w, resolved, -⟩ := finish_resolves done place
    exact ⟨w, resolved⟩
  · exact ⟨i.entry, finish_entry done (Option.mem_toList.mp chosen)⟩

/-! ### Texts that were read -/

section Read

variable {ls : List Line} (follows : ({} : Draft).Follows ls d)

include follows

theorem Follows.keys_perm : (d.symbols.entries.map Prod.fst).Perm (keys ls) := by
  have inside : ∀ e ∈ located none ls, e.2.label.isSome → e.1.isSome :=
    fun e he named => follows.inside e he (Or.inl named)
  have names : keys ls = (marks none ls).map fun m => Text.upper m.1 := by
    rw [keys, marks, List.map_map, ← List.map_filterMap, ← placing_all inside, List.map_map]
    rfl
  have all : d.symbols.entries.Perm ((marks none ls).map (fun m => (Text.upper m.1, m.2)) ++ []) :=
    follows.gains
  rw [names]
  simpa [Function.comp_def] using all.map Prod.fst

theorem Follows.undefined {name : String} :
    d.symbols.address? name = none ↔ Text.upper name ∉ keys ls := by
  rw [SymbolTable.address?, List.lookup_eq_none_iff, ← follows.keys_perm.mem_iff]
  constructor
  · intro missed present
    obtain ⟨e, member, same⟩ := List.mem_map.mp present
    exact bne_iff_ne.mp (missed e member) same.symm
  · intro absent e member
    refine bne_iff_ne.mpr fun same => absent ?_
    rw [same]
    exact List.mem_map_of_mem member

theorem Follows.placed_eq : d.placed = placing Line.word? none ls := follows.placed

theorem Follows.entry_eq : d.entry = lastEntry ls := by
  rw [follows.entry]
  exact Option.or_none

theorem Follows.mem_values {v : Value} :
    v ∈ d.values ↔ (∃ l ∈ ls, l.word? = some v) ∨ lastEntry ls = some v := by
  have inside : ∀ e ∈ located none ls, e.2.word?.isSome → e.1.isSome :=
    fun e he written => follows.inside e he (Or.inr written)
  rw [values_eq, List.mem_append, follows.placed_eq, placing_all inside, follows.entry_eq,
    Option.mem_toList, List.mem_filterMap]

theorem Follows.defined {i : Image} (done : d.finish = .ok i) {name : String} {n : Nat}
    (used : Uses ls name n) : Text.upper name ∈ keys ls := by
  by_contra absent
  have undefined : (Value.label name n).word? d.symbols = none := follows.undefined.mpr absent
  obtain ⟨w, found⟩ := finish_values done (follows.mem_values.mpr used)
  rw [finish_symbols done, undefined] at found
  cases found

/- If only labels may be missing, either none is or one of these is reported. -/
theorem Follows.finish_cases {t : SymbolTable} {i : Image}
    (complete : ({ d with symbols := t } : Draft).finish = .ok i) :
    (∃ j, d.finish = .ok j ∧ ∀ name n, Uses ls name n → Text.upper name ∈ keys ls) ∨
    ∃ name n, d.finish = .error ⟨n, .undefinedLabel name⟩ ∧ Uses ls name n ∧
      Text.upper name ∉ keys ls := by
  cases finished : d.finish with
  | ok j => exact Or.inl ⟨j, rfl, fun _ _ used => follows.defined finished used⟩
  | error x =>
    obtain ⟨name, n, rfl, used, undefined⟩ := finish_error complete finished
    exact Or.inr ⟨name, n, rfl, follows.mem_values.mp used, follows.undefined.mp undefined⟩

end Read

section Place

variable {before after : List Line} {l : Line}
  (follows : ({} : Draft).Follows (before ++ l :: after) d)

include follows

theorem Follows.site_before (active : l.label.isSome ∨ l.word?.isSome) :
    ∃ s, Lc3.site before = some s := by
  have member : (Lc3.site before, l) ∈ located none (before ++ l :: after) := by
    rw [located_append]
    exact List.mem_append_right _ (List.mem_cons_self ..)
  exact Option.isSome_iff_exists.mp (follows.inside _ member active)

variable {s : Site} (here : Lc3.site before = some s)

include here

theorem Follows.address? {name : String} (named : l.label = some name) :
    d.symbols.address? name = some s.address := by
  have place : (s, name) ∈ placing Line.label none (before ++ l :: after) := by
    rw [placing_append, here, placing_cons, placing_some named]
    exact List.mem_append_right _ (List.mem_cons_self ..)
  have marked : (name, s.address) ∈ marks none (before ++ l :: after) :=
    List.mem_map.mpr ⟨(s, name), place, rfl⟩
  refine SymbolTable.address?_of_mem follows.sorted.distinct (follows.gains.mem_iff.mpr ?_)
  exact List.mem_append_left _ (List.mem_map.mpr ⟨_, marked, rfl⟩)

/- The next word of the block is written at the place for it. -/
theorem Follows.next_placed {v : Value} (next : nextWord (l :: after) = some v) :
    (s, v) ∈ d.placed := by
  rw [follows.placed_eq, placing_append, here]
  exact List.mem_append_right _ (nextWord_placing next)

end Place

end Draft

/-! ### Texts -/

/-- A text lacks nothing but labels: its lines can be read, and with some table of labels they make an
image. -/
def Completable (source : String) : Prop :=
  ∃ d t i, ({} : Draft).readLines 1 (splitLines (Token.scan source.toList)) = .ok d ∧
    ({ d with symbols := t } : Draft).finish = .ok i

namespace Image

/-- Labels mean what the text says. In a text that is read as an image each name is defined once,
whatever its case, and the table holds these names. A definition gives its name the address of the
place for the next word, and if a word follows in the block, the image has the first such word there.
A word is stored at the address of its place, and a name in it stands for the address of the name,
wherever that is defined; so does a name that is the last entry point. A text that lacks nothing but
labels is read as an image exactly if all names in its words and its last entry point are defined, and
otherwise one of them is reported as undefined on its line. An entry point that a later one replaces
is not looked up. -/
theorem ofText_labels (source : String) :
    (∀ i, ofText source = .ok i →
      (i.symbols.entries.map Prod.fst).Perm (keys (outline source)) ∧
      (keys (outline source)).Nodup ∧
      (∀ before l after name, outline source = before ++ l :: after → l.label = some name →
        ∃ s, site before = some s ∧ i.symbols.address? name = some s.address ∧
          ∀ v, nextWord (l :: after) = some v →
            ∃ w, v.word? i.symbols = some w ∧ i.word? s.address = some w) ∧
      (∀ before l after v, outline source = before ++ l :: after → l.word? = some v →
        ∃ s w, site before = some s ∧ v.word? i.symbols = some w ∧
          i.word? s.address = some w) ∧
      ∀ v, lastEntry (outline source) = some v → v.word? i.symbols = some i.entry) ∧
    (Completable source →
      ((∃ i, ofText source = .ok i) ↔
        ∀ name n, Uses (outline source) name n → Text.upper name ∈ keys (outline source)) ∧
      ((∃ name n, Uses (outline source) name n ∧ Text.upper name ∉ keys (outline source)) →
        ∃ name n, ofText source = .error ⟨n, .undefinedLabel name⟩ ∧
          Uses (outline source) name n ∧ Text.upper name ∉ keys (outline source))) := by
  have empty : ({} : Draft).symbols.Sorted := .nil
  constructor
  case left =>
    intro i parsed
    obtain ⟨d, read, done⟩ := bind_ok.mp parsed
    have follows : ({} : Draft).Follows (outline source) d := Draft.readLines_follows empty read
    have symbols := Draft.finish_symbols done
    refine ⟨symbols ▸ follows.keys_perm, follows.keys_perm.nodup_iff.mp follows.sorted.distinct,
      ?labels, ?words, fun v chosen => Draft.finish_entry done (follows.entry_eq.trans chosen)⟩
    case labels =>
      intro before l after name split named
      rw [split] at follows
      obtain ⟨s, here⟩ := follows.site_before (Or.inl (by simp [named]))
      exact ⟨s, here, symbols ▸ follows.address? here named,
        fun v next => Draft.finish_resolves done (follows.next_placed here next)⟩
    case words =>
      intro before l after v split written
      rw [split] at follows
      obtain ⟨s, here⟩ := follows.site_before (Or.inr (by simp [written]))
      obtain ⟨w, resolved, stored⟩ :=
        Draft.finish_resolves done (follows.next_placed here (nextWord_of_word? written after))
      exact ⟨s, w, here, resolved, stored⟩
  case right =>
    rintro ⟨d, t, i, read, complete⟩
    have follows : ({} : Draft).Follows (outline source) d := Draft.readLines_follows empty read
    have finish : ofText source = d.finish := by
      unfold ofText
      rw [read]
      rfl
    rw [finish]
    obtain ⟨j, done, defined⟩ | ⟨name, n, failed, used, absent⟩ := follows.finish_cases complete
    · exact ⟨⟨fun _ => defined, fun _ => ⟨j, done⟩⟩,
        fun ⟨name, n, used, absent⟩ => absurd (defined name n used) absent⟩
    · refine ⟨⟨?_, fun defined => absurd (defined name n used) absent⟩,
        fun _ => ⟨name, n, failed, used, absent⟩⟩
      rintro ⟨j, done⟩
      simp [failed] at done

/- A name that is used before it is defined, in another block and another case. -/
example : ofText ".orig x3000\nmain .fill later\n.end\n.orig x4000\nx7\nLATER: .entry Main" =
    .ok { blocks := [⟨0x3000, [0x4001]⟩, ⟨0x4000, [7]⟩], first := some 0x3000
          chosenEntry := some 0x3000
          symbols := ⟨[("LATER", 0x4001), ("MAIN", 0x3000)]⟩ } := by decide +kernel

/-- A text that uses a name for an entry point, does not define it, and replaces the entry point. -/
def replacing : String := ".entry GHOST\n.entry x3000"

theorem ofText_replacing :
    Completable replacing ∧
    outline replacing = [⟨none, .entry (.label "GHOST" 1)⟩, ⟨none, .entry (.literal 0x3000)⟩] ∧
    keys (outline replacing) = [] ∧
    ofText replacing = .ok { chosenEntry := some 0x3000 } := by
  have parsed : ofText replacing = .ok { chosenEntry := some 0x3000 } := by decide +kernel
  obtain ⟨d, read, done⟩ := bind_ok.mp parsed
  have lines : outline replacing =
      [⟨none, .entry (.label "GHOST" 1)⟩, ⟨none, .entry (.literal 0x3000)⟩] := by decide +kernel
  refine ⟨⟨d, d.symbols, _, read, done⟩, lines, ?_, parsed⟩
  rw [lines]
  rfl

end Image

end Lc3
