import Lc3.Proofs.Drafts

/-!
# What a text says

The names that a text defines, the words that it writes and the place of each of them are read off
its lines alone (`outline`, `site`). The first pass takes a line for what it says (`readLine_ok`), and
so it makes of a whole text what its lines say (`readLines_follows`): the draft has the words at their
places and the names with the addresses of these.
-/

namespace Lc3

/-! ### What a text says -/

/-- What a line says after its label. -/
inductive Statement where
  | nothing
  | orig (start : Word)
  | stop
  | word (v : Value)
  | entry (v : Value)
deriving DecidableEq

/-- A line of a text: the name that it defines, and what it says then. -/
structure Line where
  label : Option String
  statement : Statement
deriving DecidableEq

/-- A place for a word: the start of its block and the number of words before it in the block. -/
structure Site where
  start : Word
  count : Nat

/-- The address of a place, modulo 65536. -/
def Site.address (s : Site) : Word := s.start + BitVec.ofNat 16 s.count

/-- The value that an operand stands for, given the number of its line. -/
def Value.of? (n : Nat) : List Token → Option Value
  | [.unsigned w] => some (.literal w)
  | [.signed w] => some (.literal w)
  | [.ident name] => some (.label name n)
  | _ => none

/-- What a directive with an operand says. -/
def Statement.ofDirective : String → Option Value → Statement
  | "orig", some (.literal start) => .orig start
  | "end", none => .stop
  | "fill", some v => .word v
  | "entry", some v => .entry v
  | _, _ => .nothing

/-- What the tokens behind the label of a line say, given the number of the line. -/
def Statement.of (n : Nat) : List Token → Statement
  | .directive name :: args => .ofDirective name (Value.of? n args)
  | [.unsigned w] => .word (.literal w)
  | [.signed w] => .word (.literal w)
  | _ => .nothing

namespace Line

/-- The line that tokens make. -/
def of (n : Nat) : List Token → Line
  | .ident name :: .colon :: ts => ⟨some name, .of n ts⟩
  | .ident name :: ts => ⟨some name, .of n ts⟩
  | ts => ⟨none, .of n ts⟩

/-- The word that a line writes. -/
def word? (l : Line) : Option Value :=
  match l.statement with
  | .word v => some v
  | _ => none

/-- The entry point that a line chooses. -/
def entry? (l : Line) : Option Value :=
  match l.statement with
  | .entry v => some v
  | _ => none

theorem word?_eq_some {l : Line} {v : Value} : l.word? = some v ↔ l.statement = .word v := by
  unfold word?
  split <;> simp_all

theorem entry?_eq_some {l : Line} {v : Value} : l.entry? = some v ↔ l.statement = .entry v := by
  unfold entry?
  split <;> simp_all

/-- The place for the next word behind a line. -/
def move (s : Option Site) (l : Line) : Option Site :=
  match l.statement with
  | .orig start => some ⟨start, 0⟩
  | .stop => none
  | .word _ => s.map fun s => ⟨s.start, s.count + 1⟩
  | .nothing | .entry _ => s

end Line

/-- The place for the next word behind lines, if they leave a block open. -/
def site (ls : List Line) : Option Site := ls.foldl Line.move none

/-- The names that lines define, in upper case. -/
def keys (ls : List Line) : List String := ls.filterMap fun l => l.label.map Text.upper

/-- The first word that lines write before they close the block that they start in. -/
def nextWord : List Line → Option Value
  | [] => none
  | l :: ls =>
    match l.statement with
    | .word v => some v
    | .orig _ | .stop => none
    | .nothing | .entry _ => nextWord ls

/-- The entry point that lines choose last. -/
def lastEntry (ls : List Line) : Option Value := (ls.filterMap Line.entry?).getLast?

/-- A name is used by a word or by the last entry point of lines, on the line with the number. -/
def Uses (ls : List Line) (name : String) (n : Nat) : Prop :=
  (∃ l ∈ ls, l.word? = some (.label name n)) ∨ lastEntry ls = some (.label name n)

/-- The tokens of a line without its comments. -/
def plainTokens (l : List (Except LexError Token)) : List Token :=
  (l.filterMap Except.toOption).filter fun t => !t.isComment

/-- Lines with their numbers, the first of which is given. -/
def outlineFrom (n : Nat) (ls : List (List (Except LexError Token))) : List Line :=
  (ls.zipIdx n).map fun e => .of e.2 (plainTokens e.1)

/-- The lines of a text. -/
def outline (source : String) : List Line :=
  outlineFrom 1 (splitLines (Token.scan source.toList))

/-! ### Places -/

/-- Lines with the places for the next word before them. -/
def located (s : Option Site) : List Line → List (Option Site × Line)
  | [] => []
  | l :: ls => (s, l) :: located (l.move s) ls

/-- What a line has of a kind, with its place. -/
def Line.at? {α : Type} (f : Line → Option α) (e : Option Site × Line) : Option (Site × α) :=
  (f e.2).bind fun x => e.1.map fun s => (s, x)

/-- What lines have of a kind, with the places. -/
def placing {α : Type} (f : Line → Option α) (s : Option Site) (ls : List Line) : List (Site × α) :=
  (located s ls).filterMap (Line.at? f)

/-- The names that lines define with their addresses. -/
def marks (s : Option Site) (ls : List Line) : List (String × Word) :=
  (placing Line.label s ls).map fun m => (m.2, m.1.address)

/-- A line that defines a name or writes a word does so in a block. -/
def Inside (e : Option Site × Line) : Prop :=
  e.2.label.isSome ∨ e.2.word?.isSome → e.1.isSome

theorem located_append (s : Option Site) (ls ls' : List Line) :
    located s (ls ++ ls') = located s ls ++ located (ls.foldl Line.move s) ls' := by
  induction ls generalizing s with
  | nil => rfl
  | cons l ls ih => simp only [List.cons_append, located, ih, List.foldl_cons]

section Placing

variable {α : Type} {f : Line → Option α} {s : Option Site} {ls : List Line}

theorem placing_cons (l : Line) :
    placing f s (l :: ls) = placing f s [l] ++ placing f (l.move s) ls :=
  List.filterMap_append (l := [(s, l)])

theorem placing_none {l : Line} (absent : f l = none) : placing f s [l] = [] := by
  simp [placing, located, Line.at?, absent]

theorem placing_some {l : Line} {p : Site} {x : α} (present : f l = some x) :
    placing f (some p) [l] = [(p, x)] := by
  simp [placing, located, Line.at?, present]

theorem marks_cons (l : Line) : marks s (l :: ls) = marks s [l] ++ marks (l.move s) ls := by
  rw [marks, placing_cons, List.map_append]
  rfl

/- Nothing is left out if all of it stands in blocks. -/
theorem placing_all (inside : ∀ e ∈ located s ls, (f e.2).isSome → e.1.isSome) :
    (placing f s ls).map Prod.snd = ls.filterMap f := by
  induction ls generalizing s with
  | nil => rfl
  | cons l ls ih =>
    have rest := ih fun e he => inside e (List.mem_cons_of_mem _ he)
    have here := inside (s, l) (List.mem_cons_self ..)
    rw [placing_cons, List.map_append, rest]
    cases found : f l with
    | none => rw [placing_none found, List.filterMap_cons_none found, List.map_nil, List.nil_append]
    | some x =>
      obtain ⟨p, rfl⟩ := Option.isSome_iff_exists.mp (here (by simp [found]))
      rw [placing_some found, List.filterMap_cons_some found]
      rfl

theorem placing_append (before behind : List Line) :
    placing f none (before ++ behind) = placing f none before ++ placing f (site before) behind := by
  rw [placing, located_append, List.filterMap_append]
  rfl

end Placing

theorem nextWord_of_word? {l : Line} {v : Value} (written : l.word? = some v) (ls : List Line) :
    nextWord (l :: ls) = some v := by
  obtain ⟨label, statement⟩ := l
  cases statement <;> cases written
  rfl

/- The next word of the open block is written at the place for it. -/
theorem nextWord_placing {p : Site} {ls : List Line} {v : Value} (next : nextWord ls = some v) :
    (p, v) ∈ placing Line.word? (some p) ls := by
  induction ls with
  | nil => cases next
  | cons l ls ih =>
    obtain ⟨label, statement⟩ := l
    cases statement with
    | word w =>
      cases next
      exact List.mem_cons_self ..
    | orig start => cases next
    | stop => cases next
    | nothing => exact ih next
    | entry w => exact ih next

/-! ### Directives -/

section Directives

variable {n : Nat} {args : List Token}

theorem Statement.of_orig {start : Word} (found : Value.of? n args = some (.literal start)) :
    Statement.of n (.directive "orig" :: args) = .orig start := by
  show Statement.ofDirective "orig" (Value.of? n args) = _
  rw [found]
  rfl

theorem Statement.of_end : Statement.of n [.directive "end"] = .stop := rfl

theorem Statement.of_fill {v : Value} (found : Value.of? n args = some v) :
    Statement.of n (.directive "fill" :: args) = .word v := by
  show Statement.ofDirective "fill" (Value.of? n args) = _
  rw [found]
  rfl

theorem Statement.of_entry {v : Value} (found : Value.of? n args = some v) :
    Statement.of n (.directive "entry" :: args) = .entry v := by
  show Statement.ofDirective "entry" (Value.of? n args) = _
  rw [found]
  rfl

end Directives

/-! ### The first pass -/

/-- The words of a block with their places. -/
def DraftBlock.placed (b : DraftBlock) : List (Site × Value) :=
  b.values.zipIdx.map fun e => (⟨b.start, e.2⟩, e.1)

namespace Draft

/-- The words of all blocks with their places. -/
def placed (d : Draft) : List (Site × Value) :=
  (d.closed ++ d.current.toList).flatMap DraftBlock.placed

/-- The place for the next word. -/
def site (d : Draft) : Option Site := d.current.map fun b => ⟨b.start, b.values.length⟩

/-- What a statement makes of a draft. -/
def Effect (d : Draft) : Statement → Draft → Prop
  | .nothing, e => e = d
  | .orig start, e => d.current = none ∧ ∃ line, e = { d with current := some { start, line } }
  | .stop, e => ∃ b, d.current = some b ∧ e = { d with current := none, closed := d.closed ++ [b] }
  | .word v, e => ∃ b, d.current = some b ∧
      e = { d with current := some { b with values := b.values ++ [v] } }
  | .entry v, e => e = { d with entry := some v }

variable {d e : Draft} {n : Nat}

theorem openBlock_ok {b : DraftBlock} : d.openBlock = .ok b ↔ d.current = some b := by
  unfold openBlock
  cases d.current <;> simp

theorem push_ok {v : Value} :
    d.push v = .ok e ↔ ∃ b, d.current = some b ∧
      e = { d with current := some { b with values := b.values ++ [v] } } := by
  simp only [push, bind_ok, openBlock_ok, pure_ok, eq_comm (b := e)]

theorem define_ok {name : String} :
    d.define name = .ok e ↔ ∃ s t, d.site = some s ∧ d.symbols.insert? name s.address = some t ∧
      e = { d with symbols := t } := by
  simp only [define, bind_ok, openBlock_ok, site]
  constructor
  · rintro ⟨b, opened, defined⟩
    split at defined
    · cases defined
      exact ⟨_, _, by rw [opened]; rfl, ‹_›, rfl⟩
    · cases defined
  · rintro ⟨s, t, here, inserted, rfl⟩
    obtain ⟨b, opened, rfl⟩ := Option.map_eq_some_iff.mp here
    refine ⟨b, opened, ?_⟩
    rw [show b.start + BitVec.ofNat 16 b.values.length = Site.address ⟨b.start, b.values.length⟩
      from rfl, inserted]

theorem operand_ok {name : String} {args : List Token} {v : Value}
    (found : operand n name args = .ok v) : Value.of? n args = some v := by
  unfold operand at found
  split at found <;> cases found <;> rfl

theorem orig_ok {args : List Token} (done : d.orig n args = .ok e) :
    ∃ start, Value.of? n args = some (.literal start) ∧ d.current = none ∧
      e = { d with current := some { start, line := n } } := by
  unfold orig at done
  split at done
  case isTrue => cases done
  case isFalse closed =>
    obtain ⟨v, found, opened⟩ := bind_ok.mp done
    cases v with
    | label name line => cases opened
    | literal start =>
      cases opened
      exact ⟨start, operand_ok found, by simpa using closed, rfl⟩

theorem close_ok {args : List Token} (done : d.close args = .ok e) :
    args = [] ∧ d.Effect .stop e := by
  unfold close at done
  split at done
  case isTrue none =>
    obtain ⟨b, opened, closed⟩ := bind_ok.mp done
    cases closed
    exact ⟨List.isEmpty_iff.mp none, b, openBlock_ok.mp opened, rfl⟩
  case isFalse => cases done

/- A directive that is read opens a block, closes one, or has an operand. -/
theorem directive_cases {name : String} {args : List Token}
    (done : d.directive n name args = .ok e) :
    (∃ start, name = "orig" ∧ Value.of? n args = some (.literal start) ∧ d.current = none ∧
      e = { d with current := some { start, line := n } }) ∨
    (name = "end" ∧ args = [] ∧ d.Effect .stop e) ∨
    (∃ v, name = "fill" ∧ Value.of? n args = some v ∧ d.Effect (.word v) e) ∨
    ∃ v, name = "entry" ∧ Value.of? n args = some v ∧ d.Effect (.entry v) e := by
  unfold directive at done
  split at done
  case isTrue orig =>
    obtain ⟨start, found, opened⟩ := orig_ok done
    exact Or.inl ⟨start, orig, found, opened⟩
  split at done
  case isTrue stop => exact Or.inr (Or.inl ⟨stop, close_ok done⟩)
  split at done
  case isTrue fill =>
    obtain ⟨v, found, pushed⟩ := bind_ok.mp done
    exact Or.inr (Or.inr (Or.inl ⟨v, fill, operand_ok (fill ▸ found), push_ok.mp pushed⟩))
  split at done
  case isTrue entry =>
    obtain ⟨v, found, chosen⟩ := bind_ok.mp done
    cases chosen
    exact Or.inr (Or.inr (Or.inr ⟨v, entry, operand_ok found, rfl⟩))
  case isFalse => cases done

theorem directive_ok {name : String} {args : List Token}
    (done : d.directive n name args = .ok e) :
    d.Effect (.of n (.directive name :: args)) e := by
  rcases directive_cases done with ⟨start, rfl, found, closed, opened⟩ | ⟨rfl, rfl, effect⟩ |
    ⟨v, rfl, found, effect⟩ | ⟨v, rfl, found, effect⟩
  · rw [Statement.of_orig found]
    exact ⟨closed, n, opened⟩
  · exact effect
  · rwa [Statement.of_fill found]
  · rwa [Statement.of_entry found]

theorem statement_ok {ts : List Token} (done : d.statement n ts = .ok e) :
    d.Effect (.of n ts) e := by
  unfold statement at done
  split at done
  · cases done
    rfl
  · exact directive_ok done
  · exact push_ok.mp done
  · exact push_ok.mp done
  · cases done

/-- What the label of a line makes of a draft. -/
def Labelled (d : Draft) : Option String → Draft → Prop
  | none, e => e = d
  | some name, e => d.define name = .ok e

/- A line is its label and a statement behind it. -/
theorem readLine_split {ts : List Token} (done : d.readLine n ts = .ok e) :
    ∃ d' rest, rest <:+ ts ∧ d.Labelled (Line.of n ts).label d' ∧ d'.statement n rest = .ok e ∧
      (Line.of n ts).statement = .of n rest := by
  unfold readLine at done
  split at done
  · next label rest =>
    obtain ⟨d', labelled, said⟩ := bind_ok.mp done
    exact ⟨d', rest, ⟨[.ident label, .colon], rfl⟩, labelled, said, rfl⟩
  · next label rest noColon =>
    obtain ⟨d', labelled, said⟩ := bind_ok.mp done
    rw [Line.of.eq_2 _ _ _ noColon]
    exact ⟨d', rest, ⟨[.ident label], rfl⟩, labelled, said, rfl⟩
  · next noColon noName =>
    rw [Line.of.eq_3 _ _ noColon noName]
    exact ⟨d, ts, List.suffix_refl ts, rfl, done, rfl⟩

theorem readLine_ok {ts : List Token} (done : d.readLine n ts = .ok e) :
    ∃ d', d.Labelled (Line.of n ts).label d' ∧ d'.Effect (Line.of n ts).statement e := by
  obtain ⟨d', rest, -, labelled, said, same⟩ := readLine_split done
  exact ⟨d', labelled, same ▸ statement_ok said⟩

theorem plainTokens_of_mapM {l : List (Except LexError Token)} {ts : List Token}
    (scanned : l.mapM id = .ok ts) : plainTokens l = ts.filter fun t => !t.isComment := by
  have tokens : l.filterMap Except.toOption = ts := by
    induction mapM_ok.mp scanned with
    | nil => rfl
    | cons found rest ih =>
      cases found
      simp [Except.toOption, ih (mapM_ok.mpr rest)]
  rw [plainTokens, tokens]

theorem readTokens_ok {l : List (Except LexError Token)} (done : d.readTokens n l = .ok e) :
    d.readLine n (plainTokens l) = .ok e := by
  obtain ⟨ts, scanned, read⟩ := bind_ok.mp done
  rwa [plainTokens_of_mapM (mapError_ok.mp scanned)]

theorem lastEntry_cons (l : Line) (ls : List Line) :
    lastEntry (l :: ls) = (lastEntry ls).or (lastEntry [l]) := by
  have split : (l :: ls).filterMap Line.entry? =
      [l].filterMap Line.entry? ++ ls.filterMap Line.entry? := List.filterMap_append (l := [l])
  rw [lastEntry, split, List.getLast?_append]
  rfl

/-- A draft is what lines make of another one. -/
structure Follows (d : Draft) (ls : List Line) (e : Draft) : Prop where
  site : e.site = ls.foldl Line.move d.site
  placed : e.placed = d.placed ++ placing Line.word? d.site ls
  entry : e.entry = (lastEntry ls).or d.entry
  gains : d.symbols.Gains (marks d.site ls) e.symbols
  sorted : e.symbols.Sorted
  inside : ∀ e ∈ located d.site ls, Inside e

theorem Follows.nil (sorted : d.symbols.Sorted) : d.Follows [] d where
  site := rfl
  placed := (List.append_nil _).symm
  entry := rfl
  gains := .refl _
  sorted := sorted
  inside := by simp [located]

theorem Follows.cons {d' : Draft} {l : Line} {ls : List Line} (first : d.Follows [l] d')
    (rest : d'.Follows ls e) : d.Follows (l :: ls) e := by
  have here : d'.site = l.move d.site := first.site
  have split : located d.site (l :: ls) = located d.site [l] ++ located d'.site ls := by
    rw [here]
    rfl
  refine ⟨?_, ?_, ?_, ?_, rest.sorted, ?_⟩
  · rw [rest.site, here, List.foldl_cons]
  · rw [rest.placed, first.placed, here, List.append_assoc, ← placing_cons]
  · rw [rest.entry, first.entry, lastEntry_cons l ls, Option.or_assoc]
  · rw [marks_cons, ← here]
    exact first.gains.trans rest.gains
  · intro e he
    rw [split] at he
    exact (List.mem_append.mp he).elim (first.inside e) (rest.inside e)

theorem Labelled.marks {l : Line} (labelled : d.Labelled l.label e) (sorted : d.symbols.Sorted) :
    e.site = d.site ∧ e.placed = d.placed ∧ e.entry = d.entry ∧
      d.symbols.Gains (marks d.site [l]) e.symbols ∧ e.symbols.Sorted ∧
      (l.label.isSome → d.site.isSome) := by
  obtain ⟨label, statement⟩ := l
  cases label with
  | none =>
    cases labelled
    exact ⟨rfl, rfl, rfl, .refl _, sorted, by simp⟩
  | some name =>
    obtain ⟨s, t, here, inserted, rfl⟩ := define_ok.mp labelled
    obtain ⟨gains, sorted'⟩ := SymbolTable.insert?_sorted sorted inserted
    refine ⟨rfl, rfl, rfl, ?_, sorted', by simp [here]⟩
    have named : Line.label ⟨some name, statement⟩ = some name := rfl
    rw [marks, here, placing_some named]
    exact gains

theorem Effect.writes {l : Line} (effect : d.Effect l.statement e) :
    e.site = l.move d.site ∧ e.placed = d.placed ++ placing Line.word? d.site [l] ∧
      e.entry = (lastEntry [l]).or d.entry ∧ e.symbols = d.symbols ∧
      (l.word?.isSome → d.site.isSome) := by
  obtain ⟨label, statement⟩ := l
  cases statement with
  | nothing =>
    cases effect
    exact ⟨rfl, (List.append_nil _).symm, rfl, rfl, nofun⟩
  | entry v =>
    cases effect
    exact ⟨rfl, (List.append_nil _).symm, rfl, rfl, nofun⟩
  | orig start =>
    obtain ⟨closed, line, rfl⟩ := effect
    refine ⟨rfl, ?_, rfl, rfl, nofun⟩
    rw [placing_none rfl]
    simp [placed, closed, DraftBlock.placed]
  | stop =>
    obtain ⟨b, opened, rfl⟩ := effect
    refine ⟨rfl, ?_, rfl, rfl, nofun⟩
    rw [placing_none rfl]
    simp [placed, opened]
  | word v =>
    obtain ⟨b, opened, rfl⟩ := effect
    have here : d.site = some ⟨b.start, b.values.length⟩ := by rw [site, opened]; rfl
    refine ⟨?_, ?_, rfl, rfl, fun _ => by simp [here]⟩
    · rw [here]
      simp [site, Line.move]
    · have written : Line.word? ⟨label, .word v⟩ = some v := rfl
      rw [here, placing_some written]
      simp [placed, opened, DraftBlock.placed, List.zipIdx_append]

theorem readLine_follows {ts : List Token} (sorted : d.symbols.Sorted)
    (done : d.readLine n ts = .ok e) : d.Follows [Line.of n ts] e := by
  obtain ⟨d', labelled, effect⟩ := readLine_ok done
  obtain ⟨here, kept, chosen, gains, sorted', inBlock⟩ := labelled.marks sorted
  obtain ⟨site, placed, entry, symbols, written⟩ := effect.writes
  rw [here] at site placed written
  rw [kept] at placed
  rw [chosen] at entry
  rw [← symbols] at gains sorted'
  refine ⟨site, placed, entry, gains, sorted', ?_⟩
  intro e he
  rw [List.mem_singleton.mp he]
  exact fun active => active.elim inBlock written

/-- Reading lines makes of a draft what they say. -/
theorem readLines_follows {ls : List (List (Except LexError Token))} (sorted : d.symbols.Sorted)
    (done : d.readLines n ls = .ok e) : d.Follows (outlineFrom n ls) e := by
  induction ls generalizing d n with
  | nil =>
    cases done
    exact .nil sorted
  | cons l ls ih =>
    obtain ⟨d', first, rest⟩ := readLines_cons.mp done
    have here := readLine_follows sorted (readTokens_ok first)
    exact here.cons (ih here.sorted rest)

end Draft

end Lc3
