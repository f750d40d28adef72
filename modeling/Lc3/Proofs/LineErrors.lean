import Lc3.Proofs.Labels
import Lc3.Proofs.LineFeeds

/-!
# Errors of text images

The first pass stops at the first line that it cannot read. The lines before it are read, and the
lines behind it do not matter (`readLines_error`). The error is about a token of the line
(`readTokens_error`), and a token stands on the line that the line feeds before it count, so the number
of the line is right. The second pass comes to an error only if all lines are read, and it goes back to
the line of the operand or of the block at fault (`finish_refused`, `readLines_blocks`).
-/

namespace Lc3

/-! ### Tokens at fault -/

/-- A token that stands only in a block: a label, a word, or the end of the block. -/
def Token.needsBlock : Token → Bool
  | .unsigned _ | .signed _ | .ident _ => true
  | .directive name => name = "end" || name = "fill"
  | _ => false

namespace LineError

/-- An error of the second pass. -/
def isLate : LineError → Bool
  | .undefinedLabel _ | .block _ => true
  | _ => false

/-- The error is about the token. An error of the second pass is about no token of a single line. -/
def Blames : LineError → Except LexError Token → Prop
  | .lex e, t => t = .error e
  | .unknownDirective name, t => t = .ok (.directive name)
  | .missingOperand name, t => t = .ok (.directive name)
  | .origInsideBlock, t => t = .ok (.directive "orig")
  | .duplicateLabel label, t => ∃ name, t = .ok (.ident name) ∧ label = Text.upper name
  | .outsideBlock, t => ∃ u, t = .ok u ∧ u.needsBlock
  | .unexpectedToken, t => ∃ u, t = .ok u ∧ u.isComment = false
  | .undefinedLabel _, _ => False
  | .block _, _ => False

theorem Blames.isLate {x : LineError} {t : Except LexError Token} (blames : x.Blames t) :
    x.isLate = false := by
  cases x <;> first | rfl | cases blames

end LineError

namespace Draft

variable {d e : Draft} {n : Nat} {x : LineError}

theorem openBlock_error (failed : d.openBlock = .error x) : x = .outsideBlock := by
  unfold openBlock at failed
  split at failed
  · cases failed
  · cases failed
    rfl

theorem push_error {v : Value} (failed : d.push v = .error x) : x = .outsideBlock := by
  rcases bind_error.mp failed with outside | ⟨b, -, done⟩
  · exact openBlock_error outside
  · cases done

theorem define_error {name : String} (failed : d.define name = .error x) :
    x.Blames (.ok (.ident name)) := by
  rcases bind_error.mp failed with outside | ⟨b, -, taken⟩
  · rw [openBlock_error outside]
    exact ⟨_, rfl, rfl⟩
  · split at taken
    · cases taken
    · cases taken
      exact ⟨name, rfl, rfl⟩

theorem operand_error {name : String} {args : List Token} (failed : operand n name args = .error x) :
    x = .missingOperand name ∨ x = .unexpectedToken := by
  unfold operand at failed
  split at failed <;> cases failed <;> simp

theorem operand_blames {name : String} {args : List Token} (failed : operand n name args = .error x) :
    x.Blames (.ok (.directive name)) := by
  rcases operand_error failed with rfl | rfl
  · rfl
  · exact ⟨_, rfl, rfl⟩

theorem orig_error {args : List Token} (failed : d.orig n args = .error x) :
    x.Blames (.ok (.directive "orig")) := by
  unfold orig at failed
  split at failed
  · cases failed
    rfl
  · rcases bind_error.mp failed with missing | ⟨v, -, opened⟩
    · exact operand_blames missing
    · cases v with
      | literal start => cases opened
      | label name line =>
        cases opened
        exact ⟨_, rfl, rfl⟩

theorem close_error {args : List Token} (failed : d.close args = .error x) :
    x.Blames (.ok (.directive "end")) := by
  unfold close at failed
  split at failed
  · rcases bind_error.mp failed with outside | ⟨b, -, closed⟩
    · rw [openBlock_error outside]
      exact ⟨_, rfl, rfl⟩
    · cases closed
  · cases failed
    exact ⟨_, rfl, rfl⟩

theorem directive_error {name : String} {args : List Token}
    (failed : d.directive n name args = .error x) : x.Blames (.ok (.directive name)) := by
  unfold directive at failed
  split at failed
  · subst name
    exact orig_error failed
  split at failed
  · subst name
    exact close_error failed
  split at failed
  · subst name
    rcases bind_error.mp failed with missing | ⟨v, -, pushed⟩
    · exact operand_blames missing
    · rw [push_error pushed]
      exact ⟨_, rfl, rfl⟩
  split at failed
  · rcases bind_error.mp failed with missing | ⟨v, -, chosen⟩
    · exact operand_blames missing
    · cases chosen
  · cases failed
    rfl

theorem statement_error {ts : List Token} (plain : ∀ t ∈ ts, t.isComment = false)
    (failed : d.statement n ts = .error x) : ∃ t ∈ ts, x.Blames (.ok t) := by
  cases ts with
  | nil => cases failed
  | cons t ts =>
    refine ⟨t, List.mem_cons_self .., ?_⟩
    have word (needs : t.needsBlock) {v : Value} (failed : d.push v = .error x) :
        x.Blames (.ok t) := by
      rw [push_error failed]
      exact ⟨t, rfl, needs⟩
    unfold statement at failed
    split at failed
    · cases failed
    · next same =>
      cases same
      exact directive_error failed
    · next same =>
      cases same
      exact word rfl failed
    · next same =>
      cases same
      exact word rfl failed
    · cases failed
      exact ⟨t, rfl, plain t (List.mem_cons_self ..)⟩

theorem readLine_error {ts : List Token} (plain : ∀ t ∈ ts, t.isComment = false)
    (failed : d.readLine n ts = .error x) : ∃ t ∈ ts, x.Blames (.ok t) := by
  -- a label is refused itself, or what follows it is
  have labelled {label : String} {ts' : List Token} (first : .ident label ∈ ts) (rest : ts' ⊆ ts)
      (failed : d.define label >>= (fun e => e.statement n ts') = .error x) :
      ∃ t ∈ ts, x.Blames (.ok t) := by
    rcases bind_error.mp failed with taken | ⟨d', -, failed⟩
    · exact ⟨_, first, define_error taken⟩
    · obtain ⟨t, member, blames⟩ := statement_error (fun t ht => plain t (rest ht)) failed
      exact ⟨t, rest member, blames⟩
  unfold readLine at failed
  split at failed
  · exact labelled (by simp) (by simp) failed
  · exact labelled (by simp) (by simp) failed
  · exact statement_error plain failed

theorem mapM_id_error {ts : List (Except LexError Token)} {y : LexError}
    (failed : ts.mapM id = .error y) : .error y ∈ ts := by
  induction ts with
  | nil => cases failed
  | cons t ts ih =>
    rw [List.mapM_cons] at failed
    rcases bind_error.mp failed with first | ⟨u, -, failed⟩
    · simp [show t = .error y from first]
    · rcases bind_error.mp failed with later | ⟨us, -, done⟩
      · exact List.mem_cons_of_mem _ (ih later)
      · cases done

theorem mem_plainTokens {l : List (Except LexError Token)} {t : Token} :
    t ∈ plainTokens l ↔ .ok t ∈ l ∧ t.isComment = false := by
  have scanned (s : Except LexError Token) : s.toOption = some t ↔ s = .ok t := by
    cases s <;> simp [Except.toOption]
  simp [plainTokens, scanned]

/- A line is refused for one of its tokens. -/
theorem readTokens_error {l : List (Except LexError Token)} (failed : d.readTokens n l = .error x) :
    ∃ t ∈ l, x.Blames t := by
  rcases bind_error.mp failed with misspelt | ⟨ts, scanned, failed⟩
  · obtain ⟨y, scanned, rfl⟩ := mapError_error.mp misspelt
    exact ⟨.error y, mapM_id_error scanned, rfl⟩
  · rw [← plainTokens_of_mapM (mapError_ok.mp scanned)] at failed
    obtain ⟨t, member, blames⟩ := readLine_error (fun t ht => (mem_plainTokens.mp ht).2) failed
    exact ⟨.ok t, (mem_plainTokens.mp member).1, blames⟩

/-! ### The first faulty line -/

variable {ls ls' : List (List (Except LexError Token))} {y : TextError}

/-- The first line that cannot be read is reported. -/
theorem readLines_error :
    d.readLines n ls = .error y ↔ ∃ before l after e, ls = before ++ l :: after ∧
      y.line = n + before.length ∧ d.readLines n before = .ok e ∧
      e.readTokens y.line l = .error y.error := by
  constructor
  · intro failed
    induction ls generalizing d n with
    | nil => cases failed
    | cons l ls ih =>
      rcases bind_error.mp failed with here | ⟨d', first, failed⟩
      · obtain ⟨x, refused, rfl⟩ := mapError_error.mp here
        exact ⟨[], l, ls, d, rfl, rfl, rfl, refused⟩
      · obtain ⟨before, l', after, e, rfl, line, read, refused⟩ := ih failed
        refine ⟨l :: before, l', after, e, rfl, ?_, ?_, refused⟩
        · rw [line, List.length_cons]
          omega
        · exact readLines_cons.mpr ⟨d', mapError_ok.mp first, read⟩
  · rintro ⟨before, l, after, e, rfl, line, read, refused⟩
    rw [readLines_append, read]
    have here : (e.readTokens (n + before.length) l).mapError (.mk (n + before.length)) =
        .error y := by
      rw [← line, refused]
      rfl
    exact bind_error.mpr (Or.inr ⟨e, rfl, bind_error.mpr (Or.inl here)⟩)

/- What stands behind the faulty line does not matter. -/
theorem readLines_error_append (failed : d.readLines n (ls ++ ls') = .error y)
    (within : y.line < n + ls.length) (more : List (List (Except LexError Token))) :
    d.readLines n (ls ++ more) = .error y := by
  rw [readLines_append] at failed ⊢
  rcases bind_error.mp failed with here | ⟨e, -, later⟩
  · exact bind_error.mpr (Or.inl here)
  · obtain ⟨before, -, -, -, -, line, -⟩ := readLines_error.mp later
    omega

/-! ### The second pass -/

/-- A block of a draft cannot be added to an image behind the blocks before it. -/
def Blocked (d : Draft) (i : Image) (ds : List DraftBlock) (b : DraftBlock) (x : BlockError) : Prop :=
  ∃ front back bs j words, ds = front ++ b :: back ∧ List.Forall₂ d.Denotes front bs ∧
    i.addAll bs = .ok j ∧ b.values.mapM d.resolve = .ok words ∧
    j.addBlock ⟨b.start, words⟩ = .error x

variable {i : Image} {ds : List DraftBlock}

theorem addBlocks_error (failed : ds.foldlM d.addBlock i = .error y) :
    d.Missing (ds.flatMap (·.values)) y ∨
      ∃ b x, d.Blocked i ds b x ∧ y = ⟨b.line, .block x⟩ := by
  induction ds generalizing i with
  | nil => cases failed
  | cons b ds ih =>
    rw [List.foldlM_cons] at failed
    rcases bind_error.mp failed with here | ⟨i', placed, failed⟩
    · rcases bind_error.mp here with missing | ⟨words, resolved, refused⟩
      · exact Or.inl ((mapM_resolve_error missing).mono (by simp))
      · obtain ⟨x, blocked, rfl⟩ := mapError_error.mp refused
        exact Or.inr ⟨b, x, ⟨[], ds, [], i, words, rfl, .nil, Image.addAll_nil.mpr rfl, resolved,
          blocked⟩, rfl⟩
    · rcases ih failed with missing | ⟨c, x, blocked, rfl⟩
      · exact Or.inl (missing.mono (by simp))
      · obtain ⟨front, back, bs, j, words, rfl, denotes, added, rest⟩ := blocked
        obtain ⟨b', denotes', placed⟩ := addBlock_ok.mp placed
        have first := Image.addAll_cons.mpr ⟨i', placed, added⟩
        exact Or.inr ⟨c, x, ⟨b :: front, back, b' :: bs, j, words, rfl, .cons denotes' denotes, first,
          rest⟩, rfl⟩

/- The second pass fails for a name that is missing, or for a block that cannot be added. -/
theorem finish_refused (failed : d.finish = .error y) :
    d.Missing d.values y ∨
      ∃ b x, d.Blocked {} (d.closed ++ d.current.toList) b x ∧ y = ⟨b.line, .block x⟩ := by
  rcases bind_error.mp failed with refused | ⟨i, -, failed⟩
  · exact (addBlocks_error refused).imp (Missing.mono (List.subset_append_left ..)) id
  · rcases bind_error.mp failed with missing | ⟨entry, -, done⟩
    · exact Or.inl (entry_error missing)
    · cases done

end Draft

/-! ### Operands and blocks -/

theorem Value.of?_label {n m : Nat} {args : List Token} {name : String}
    (found : Value.of? n args = some (.label name m)) : args = [.ident name] ∧ m = n := by
  unfold Value.of? at found
  split at found <;> cases found
  exact ⟨rfl, rfl⟩

theorem Uses.said {ls : List Line} {name : String} {n : Nat} (used : Uses ls name n) :
    ∃ l ∈ ls, l.statement = .word (.label name n) ∨ l.statement = .entry (.label name n) := by
  rcases used with ⟨l, member, word⟩ | last
  · exact ⟨l, member, Or.inl (Line.word?_eq_some.mp word)⟩
  · obtain ⟨l, member, entry⟩ := List.mem_filterMap.mp (List.mem_of_getLast? last)
    exact ⟨l, member, Or.inr (Line.entry?_eq_some.mp entry)⟩

namespace Draft

variable {d e : Draft} {n m : Nat} {name : String} {start : Word}

/- A name is used by the operand of a directive. -/
theorem statement_label {ts : List Token} (done : d.statement n ts = .ok e)
    (used : Statement.of n ts = .word (.label name m) ∨ Statement.of n ts = .entry (.label name m)) :
    m = n ∧ (ts = [.directive "fill", .ident name] ∨ ts = [.directive "entry", .ident name]) := by
  unfold statement at done
  split at done
  · simp [Statement.of] at used
  · rcases directive_cases done with ⟨start, rfl, found, -⟩ | ⟨rfl, rfl, -⟩ | ⟨v, rfl, found, -⟩ |
      ⟨v, rfl, found, -⟩
    · simp [Statement.of_orig found] at used
    · simp [Statement.of_end] at used
    · obtain rfl : v = .label name m := by simpa [Statement.of_fill found] using used
      obtain ⟨rfl, rfl⟩ := Value.of?_label found
      exact ⟨rfl, Or.inl rfl⟩
    · obtain rfl : v = .label name m := by simpa [Statement.of_entry found] using used
      obtain ⟨rfl, rfl⟩ := Value.of?_label found
      exact ⟨rfl, Or.inr rfl⟩
  · simp [Statement.of] at used
  · simp [Statement.of] at used
  · cases done

/- A block is opened by a directive of its own, which gives it the number of the line. -/
theorem statement_orig {ts : List Token} (done : d.statement n ts = .ok e)
    (opens : Statement.of n ts = .orig start) :
    .directive "orig" ∈ ts ∧ e.current = some { start, line := n } := by
  unfold statement at done
  split at done
  · cases opens
  · rcases directive_cases done with ⟨w, rfl, found, -, rfl⟩ | ⟨rfl, rfl, -⟩ | ⟨v, rfl, found, -⟩ |
      ⟨v, rfl, found, -⟩
    · obtain rfl : w = start := by simpa [Statement.of_orig found] using opens
      exact ⟨List.mem_cons_self .., rfl⟩
    · cases opens
    · simp [Statement.of_fill found] at opens
    · simp [Statement.of_entry found] at opens
  · cases opens
  · cases opens
  · cases done

theorem readLine_orig {ts : List Token} (done : d.readLine n ts = .ok e)
    (opens : (Line.of n ts).statement = .orig start) :
    .directive "orig" ∈ ts ∧ e.current = some { start, line := n } := by
  obtain ⟨d', rest, suffix, -, said, same⟩ := readLine_split done
  obtain ⟨member, here⟩ := statement_orig said (same ▸ opens)
  exact ⟨suffix.subset member, here⟩

theorem readLines_at {ls : List (List (Except LexError Token))} {l : List (Except LexError Token)}
    {k : Nat} (done : d.readLines n ls = .ok e) (here : ls[k]? = some l) :
    ∃ d₁ d₂ : Draft, d₁.readLine (n + k) (plainTokens l) = .ok d₂ := by
  induction ls generalizing d n k with
  | nil => cases here
  | cons l' ls ih =>
    obtain ⟨d', first, rest⟩ := readLines_cons.mp done
    cases k with
    | zero =>
      cases here
      exact ⟨d, d', readTokens_ok first⟩
    | succ k =>
      have onward := ih rest (k := k) (by simpa using here)
      rwa [show n + 1 + k = n + (k + 1) by omega] at onward

end Draft

/-- The words that lines write before they close the block that they start in. -/
def written : List Line → List Value
  | [] => []
  | l :: ls =>
    match l.statement with
    | .word v => v :: written ls
    | .orig _ | .stop => []
    | .nothing | .entry _ => written ls

/-- A block is opened by one of the lines, the first of which has the given number, and holds the words
behind it. -/
def Opens (n : Nat) (ls : List Line) (b : DraftBlock) : Prop :=
  ∃ before l after, ls = before ++ l :: after ∧ l.statement = .orig b.start ∧
    b.line = n + before.length ∧ b.values = written after

theorem Opens.cons {n : Nat} {ls : List Line} {b : DraftBlock} (h : Opens (n + 1) ls b) (l : Line) :
    Opens n (l :: ls) b := by
  obtain ⟨before, l', after, rfl, opens, line, values⟩ := h
  refine ⟨l :: before, l', after, rfl, opens, ?_, values⟩
  rw [line, List.length_cons]
  omega

namespace Draft

variable {d e : Draft} {n : Nat} {b : DraftBlock}

theorem Labelled.keeps {label : Option String} (labelled : d.Labelled label e) :
    e.current = d.current ∧ e.closed = d.closed := by
  cases label with
  | none =>
    cases labelled
    exact ⟨rfl, rfl⟩
  | some name =>
    obtain ⟨-, -, -, -, rfl⟩ := define_ok.mp labelled
    exact ⟨rfl, rfl⟩

/- A line closes no block but the open one. -/
theorem Effect.closes {s : Statement} (effect : d.Effect s e) (member : b ∈ e.closed) :
    b ∈ d.closed ∨ s = .stop ∧ d.current = some b := by
  cases s with
  | stop =>
    obtain ⟨c, opened, rfl⟩ := effect
    rcases List.mem_append.mp member with closed | here
    · exact Or.inl closed
    · rw [List.mem_singleton.mp here]
      exact Or.inr ⟨rfl, opened⟩
  | orig start =>
    obtain ⟨-, line, rfl⟩ := effect
    exact Or.inl member
  | word v =>
    obtain ⟨c, -, rfl⟩ := effect
    exact Or.inl member
  | nothing | entry =>
    cases effect
    exact Or.inl member

/- A block that is open behind a line was opened there, or before, and then it goes on. -/
theorem Effect.goesOn {l : Line} (effect : d.Effect l.statement e) (opened : e.current = some b) :
    (∃ start, l.statement = .orig start) ∨
    ∃ c vs, d.current = some c ∧ b = { c with values := c.values ++ vs } ∧
      ∀ ls, written (l :: ls) = vs ++ written ls := by
  obtain ⟨label, statement⟩ := l
  cases statement with
  | orig start => exact Or.inl ⟨start, rfl⟩
  | stop =>
    obtain ⟨c, -, rfl⟩ := effect
    cases opened
  | word v =>
    obtain ⟨c, current, rfl⟩ := effect
    cases opened
    exact Or.inr ⟨c, [v], current, rfl, fun _ => rfl⟩
  | nothing | entry =>
    cases effect
    exact Or.inr ⟨b, [], opened, by simp, fun _ => rfl⟩

/- A block of a draft was there before, or was open before and holds the words of the lines as well,
or was opened by one of the lines. -/
theorem readLines_blocks {ls : List (List (Except LexError Token))}
    (done : d.readLines n ls = .ok e) (member : b ∈ e.closed ++ e.current.toList) :
    b ∈ d.closed ∨
    (∃ c, d.current = some c ∧ b = { c with values := c.values ++ written (outlineFrom n ls) }) ∨
    Opens n (outlineFrom n ls) b := by
  induction ls generalizing d n with
  | nil =>
    cases done
    rcases List.mem_append.mp member with closed | opened
    · exact Or.inl closed
    · refine Or.inr (Or.inl ⟨b, Option.mem_toList.mp opened, ?_⟩)
      simp [outlineFrom, written]
  | cons l ls ih =>
    obtain ⟨d', first, rest⟩ := readLines_cons.mp done
    have read := readTokens_ok first
    have outline : outlineFrom n (l :: ls) = .of n (plainTokens l) :: outlineFrom (n + 1) ls := rfl
    obtain ⟨d₀, labelled, effect⟩ := readLine_ok read
    obtain ⟨current, closed⟩ := labelled.keeps
    rw [outline]
    rcases ih rest with before | ⟨c, opened, rfl⟩ | opens
    · rcases effect.closes before with before | ⟨stop, opened⟩
      · exact Or.inl (closed ▸ before)
      · refine Or.inr (Or.inl ⟨b, current ▸ opened, ?_⟩)
        simp [written, stop]
    · rcases effect.goesOn opened with ⟨start, opens⟩ | ⟨c, vs, before, rfl, goesOn⟩
      · -- the line opens the block
        rw [(readLine_orig read opens).2] at opened
        cases opened
        exact Or.inr (Or.inr ⟨[], _, _, rfl, opens, rfl, rfl⟩)
      · refine Or.inr (Or.inl ⟨c, current ▸ before, ?_⟩)
        rw [goesOn, List.append_assoc]
    · exact Or.inr (Or.inr (opens.cons _))

end Draft

/-! ### Texts -/

namespace Image

/-- The tokens of the lines of a text. -/
def tokenLines (source : String) : List (List (Except LexError Token)) :=
  splitLines (Token.scan source.toList)

/-- A text has the token on the line with the number, which is one more than the line feeds before the
token. -/
def Stands (source : String) (n : Nat) (t : Except LexError Token) : Prop :=
  ∃ before after, source.toList = before ++ after ∧ Token.Meets source.toList before t ∧
    n = 1 + before.count '\n'

/-- The first pass refuses a text on the line of the error, for a token of this line. The lines before it
are read. -/
def Refused (source : String) (e : TextError) : Prop :=
  ∃ before l after d, tokenLines source = before ++ l :: after ∧ e.line = 1 + before.length ∧
    ({} : Draft).readLines 1 before = .ok d ∧ d.readTokens e.line l = .error e.error ∧
    (∃ t ∈ l, e.error.Blames t) ∧ ∀ t ∈ l, Stands source e.line t

/-- The name is the operand of a word or an entry point on the line with the number. -/
def IsOperand (source : String) (n : Nat) (name : String) : Prop :=
  ∃ l ∈ tokenLines source, (∀ t ∈ l, Stands source n t) ∧
    ([.directive "fill", .ident name] <:+ plainTokens l ∨
      [.directive "entry", .ident name] <:+ plainTokens l)

/-- The block is opened on the line with the number, by a directive of its own. -/
def IsOpening (source : String) (n : Nat) (b : DraftBlock) : Prop :=
  b.line = n ∧ Opens 1 (outline source) b ∧
    ∃ l ∈ tokenLines source, (∀ t ∈ l, Stands source n t) ∧ .ok (.directive "orig") ∈ l

variable {source : String} {n : Nat} {name : String}

theorem stands_of_getElem? {k : Nat} {l : List (Except LexError Token)} {t : Except LexError Token}
    (here : (tokenLines source)[k]? = some l) (member : t ∈ l) : Stands source (1 + k) t := by
  obtain ⟨before, meets, count⟩ := Token.line_meets here member
  obtain ⟨after, split⟩ := meets.split
  exact ⟨before, after, split, meets, by rw [count]⟩

theorem refused_of_readLines {e : TextError}
    (failed : ({} : Draft).readLines 1 (tokenLines source) = .error e) : Refused source e := by
  obtain ⟨before, l, after, d, split, line, read, refused⟩ := Draft.readLines_error.mp failed
  refine ⟨before, l, after, d, split, line, read, refused, Draft.readTokens_error refused, ?_⟩
  intro t member
  rw [line]
  exact stands_of_getElem? (by simp [split]) member

theorem Refused.isLate {e : TextError} (refused : Refused source e) : e.error.isLate = false := by
  obtain ⟨-, -, -, -, -, -, -, -, ⟨t, -, blames⟩, -⟩ := refused
  exact blames.isLate

/- The lines that the text ends with line feeds are the same in a longer text. -/
theorem readLines_longer {e : TextError}
    (failed : ({} : Draft).readLines 1 (tokenLines source) = .error e)
    (ended : e.line ≤ source.toList.count '\n') (more : String) :
    ({} : Draft).readLines 1 (tokenLines (source ++ more)) = .error e := by
  obtain ⟨lines, rest, count, onward⟩ := Token.lines_append source.toList
  have short := onward []
  have long := onward more.toList
  rw [List.append_nil] at short
  rw [← String.toList_append] at long
  rw [tokenLines, short] at failed
  rw [tokenLines, long]
  exact Draft.readLines_error_append failed (by omega) _

section Read

variable {d : Draft} (read : ({} : Draft).readLines 1 (tokenLines source) = .ok d)

include read

theorem outline_split {before after : List Line} {m : Line}
    (split : outline source = before ++ m :: after) :
    ∃ l ∈ tokenLines source, m = .of (1 + before.length) (plainTokens l) ∧
      (∀ t ∈ l, Stands source (1 + before.length) t) ∧
      ∃ d₁ d₂ : Draft, d₁.readLine (1 + before.length) (plainTokens l) = .ok d₂ := by
  have here : (outline source)[before.length]? = some m := by simp [split]
  rw [outline, outlineFrom, List.getElem?_map, List.getElem?_zipIdx, Option.map_map] at here
  obtain ⟨l, found, rfl⟩ := Option.map_eq_some_iff.mp here
  exact ⟨l, List.mem_of_getElem? found, rfl, fun t => stands_of_getElem? found,
    Draft.readLines_at read found⟩

theorem isOperand_of_uses (used : Uses (outline source) name n) : IsOperand source n name := by
  obtain ⟨m, member, said⟩ := used.said
  obtain ⟨before, after, split⟩ := List.append_of_mem member
  obtain ⟨l, inText, rfl, stands, d₁, d₂, done⟩ := outline_split read split
  obtain ⟨d', rest, suffix, -, statement, same⟩ := Draft.readLine_split done
  rw [same] at said
  obtain ⟨rfl, ends⟩ := Draft.statement_label statement said
  refine ⟨l, inText, stands, ?_⟩
  rcases ends with rfl | rfl
  · exact Or.inl suffix
  · exact Or.inr suffix

theorem isOpening_of_opens {b : DraftBlock} (opens : Opens 1 (outline source) b) :
    IsOpening source b.line b := by
  obtain ⟨before, m, after, split, statement, line, -⟩ := id opens
  obtain ⟨l, inText, rfl, stands, d₁, d₂, done⟩ := outline_split read split
  have member := (Draft.readLine_orig done statement).1
  rw [← line] at stands
  exact ⟨rfl, opens, l, inText, stands, (Draft.mem_plainTokens.mp member).1⟩

end Read

/-- Errors of texts are local and have the right line. A text has a newline token for each line feed.
If reading the lines fails, the lines before the reported one are read, this one is refused for one of
its tokens, and its number is one more than the line feeds before any of them; if a line feed ends
the line, the text fails in the same way whatever is put behind it. A name is reported as undefined
on the line of an operand that uses it, and a block on the line that opens it, and only if all lines
are read. -/
theorem ofText_errors (source : String) :
    (Token.scan source.toList).countP Token.endsLine = source.toList.count '\n' ∧
    ∀ e, ofText source = .error e →
      (e.error.isLate = false → Refused source e ∧
        (e.line ≤ source.toList.count '\n' → ∀ more, ofText (source ++ more) = .error e)) ∧
      (∀ name, e.error = .undefinedLabel name →
        (∃ d, ({} : Draft).readLines 1 (tokenLines source) = .ok d) ∧
        Uses (outline source) name e.line ∧ IsOperand source e.line name ∧
        Text.upper name ∉ keys (outline source)) ∧
      ∀ x, e.error = .block x →
        ∃ d b, ({} : Draft).readLines 1 (tokenLines source) = .ok d ∧
          d.Blocked {} (d.closed ++ d.current.toList) b x ∧ IsOpening source e.line b := by
  refine ⟨Token.scan_newlines _, fun e failed => ?_⟩
  rcases bind_error.mp failed with early | ⟨d, read, late⟩
  · have refused := refused_of_readLines early
    have early' := refused.isLate
    refine ⟨fun _ => ⟨refused, fun ended more => ?_⟩, fun name same => ?_, fun x same => ?_⟩
    · exact bind_error.mpr (Or.inl (readLines_longer early ended more))
    · rw [same] at early'
      cases early'
    · rw [same] at early'
      cases early'
  · have follows : ({} : Draft).Follows (outline source) d := Draft.readLines_follows .nil read
    rcases Draft.finish_refused late with ⟨name, n, rfl, used, undefined⟩ | ⟨b, x, blocked, rfl⟩
    · refine ⟨nofun, ?_, nofun⟩
      rintro _ ⟨⟩
      have used := follows.mem_values.mp used
      exact ⟨⟨d, read⟩, used, isOperand_of_uses read used, follows.undefined.mp undefined⟩
    · refine ⟨nofun, nofun, ?_⟩
      rintro _ ⟨⟩
      obtain ⟨front, back, -, -, -, split, -⟩ := id blocked
      rcases Draft.readLines_blocks read (b := b) (by simp [split]) with before | ⟨c, opened, -⟩ | opens
      · cases before
      · cases opened
      · exact ⟨d, b, read, blocked, isOpening_of_opens read opens⟩

/- A line that is not read, a name that is not defined, and a block that is too long. -/
theorem ofText_errors_each :
    (ofText ".orig x3000 ; \r\r\n\nx1 x2\n" = .error ⟨3, .unexpectedToken⟩ ∧
      Refused ".orig x3000 ; \r\r\n\nx1 x2\n" ⟨3, .unexpectedToken⟩ ∧
      ∀ more, ofText (".orig x3000 ; \r\r\n\nx1 x2\n" ++ more) = .error ⟨3, .unexpectedToken⟩) ∧
    (ofText ".orig x3000\n.fill NOWHERE" = .error ⟨2, .undefinedLabel "NOWHERE"⟩ ∧
      IsOperand ".orig x3000\n.fill NOWHERE" 2 "NOWHERE") ∧
    ofText "\n.orig xFFFF\nx0\nx0" = .error ⟨2, .block (.outOfRange 0xFFFF 2)⟩ ∧
      ∃ b, IsOpening "\n.orig xFFFF\nx0\nx0" 2 b := by
  have stray : ofText ".orig x3000 ; \r\r\n\nx1 x2\n" = .error ⟨3, .unexpectedToken⟩ := by
    decide +kernel
  have missing : ofText ".orig x3000\n.fill NOWHERE" = .error ⟨2, .undefinedLabel "NOWHERE"⟩ := by
    decide +kernel
  have long : ofText "\n.orig xFFFF\nx0\nx0" = .error ⟨2, .block (.outOfRange 0xFFFF 2)⟩ := by
    decide +kernel
  obtain ⟨refused, longer⟩ := ((ofText_errors _).2 _ stray).1 rfl
  obtain ⟨-, -, operand, -⟩ := ((ofText_errors _).2 _ missing).2.1 _ rfl
  obtain ⟨d, b, -, -, opening⟩ := ((ofText_errors _).2 _ long).2.2 _ rfl
  exact ⟨⟨stray, refused, longer (by decide +kernel)⟩, ⟨missing, operand⟩, long, b, opening⟩

end Image

end Lc3
