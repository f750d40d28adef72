import Lc3.Image.Text
import Mathlib.Data.List.TakeWhile

/-!
# Line feeds of a text

Lines are counted by their newline tokens. A newline token is one line feed, alone or behind a carriage
return, and no other token has a line feed in it (`next_spec`), whatever the text. So there are as many
newline tokens as line feeds (`scan_newlines`), a token stands on the line that the line feeds before it
count (`line_meets`), and the lines that line feeds end do not depend on what follows (`lines_append`).
-/

namespace Lc3.Token

/-! ### Single tokens -/

/-- The token ends a line. -/
def endsLine : Except LexError Token → Bool
  | .ok newline => true
  | _ => false

/-- A reader of what follows the first character of a token stays on the line: it takes no line feed,
its token does not end the line, and it does not look behind the next line feed. -/
structure Inline (f : List Char → Except LexError Token × List Char) (cs : List Char) : Prop where
  taken : ∃ lexeme, cs = lexeme ++ (f cs).2 ∧ '\n' ∉ lexeme
  inner : endsLine (f cs).1 = false
  ahead : '\n' ∈ cs → ∀ more, f (cs ++ more) = ((f cs).1, (f cs).2 ++ more)

section Inline

variable {f g : List Char → Except LexError Token × List Char} {c : Char} {cs : List Char}

theorem inline_ite {p : Prop} [Decidable p] (hf : p → Inline f cs) (hg : ¬p → Inline g cs) :
    Inline (fun cs => if p then f cs else g cs) cs := by
  by_cases h : p
  · simpa only [h, if_true] using hf h
  · simpa only [h, if_false] using hg h

theorem inline_stop {t : Except LexError Token} (inner : endsLine t = false) :
    Inline (fun cs => (t, cs)) cs :=
  ⟨⟨[], rfl, by simp⟩, inner, fun _ _ => rfl⟩

/- A token of all characters up to the first of another kind, such as a line feed. -/
theorem inline_span {p : Char → Bool} (stops : p '\n' = false)
    {t : List Char → Except LexError Token} (inner : ∀ cs, endsLine (t cs) = false) :
    Inline (fun cs => (t (cs.takeWhile p), cs.dropWhile p)) cs where
  taken := by
    refine ⟨cs.takeWhile p, (List.takeWhile_append_dropWhile ..).symm, fun inside => ?_⟩
    have taken := List.mem_takeWhile_imp inside
    simp [stops] at taken
  inner := inner _
  ahead feed more := by
    have left : cs.dropWhile p ≠ [] := by
      intro none
      have all := List.dropWhile_eq_nil_iff.mp none '\n' feed
      simp [stops] at all
    have short : (cs.takeWhile p).length ≠ cs.length := by
      have split := congrArg List.length (List.takeWhile_append_dropWhile (p := p) (l := cs))
      have := List.length_pos_iff.mpr left
      simp only [List.length_append] at split
      omega
    simp [List.takeWhile_append, List.dropWhile_append, short, left]

theorem inline_nil (rest : (f []).2 = []) (inner : endsLine (f []).1 = false) : Inline f [] :=
  ⟨⟨[], by simp [rest], by simp⟩, inner, by simp⟩

theorem Inline.same (h : Inline g (c :: cs)) (same : ∀ cs, f (c :: cs) = g (c :: cs)) :
    Inline f (c :: cs) := by
  obtain ⟨taken, inner, ahead⟩ := h
  refine ⟨?_, ?_, fun feed more => ?_⟩
  · rwa [same]
  · rwa [same]
  · rw [List.cons_append, same, same, ← List.cons_append, ahead feed]

theorem Inline.behind (h : Inline g cs) (visible : c ≠ '\n') (same : ∀ cs, f (c :: cs) = g cs) :
    Inline f (c :: cs) := by
  obtain ⟨⟨lexeme, split, free⟩, inner, ahead⟩ := h
  refine ⟨⟨c :: lexeme, ?_, ?_⟩, ?_, fun feed more => ?_⟩
  · rw [same, List.cons_append, ← split]
  · simp [free, visible.symm]
  · rwa [same]
  · have later : '\n' ∈ cs := by simpa [visible.symm] using feed
    rw [List.cons_append, same, same, ahead later]

end Inline

theorem endsLine_ofUnsigned (b : Base) (cs : List Char) : endsLine (ofUnsigned b cs) = false := by
  unfold ofUnsigned
  cases readUnsigned b cs <;> rfl

theorem endsLine_ofNegative (b : Base) (cs : List Char) : endsLine (ofNegative b cs) = false := by
  unfold ofNegative
  cases readNegative b cs <;> rfl

theorem isWordChar_lineFeed : Text.isWordChar '\n' = false := by decide

theorem inline_afterSharp (cs : List Char) : Inline afterSharp cs := by
  have unsigned (cs : List Char) : Inline (fun cs => (ofUnsigned .decimal (run cs), afterRun cs)) cs :=
    inline_span isWordChar_lineFeed (endsLine_ofUnsigned .decimal)
  have negative (cs : List Char) : Inline (fun cs => (ofNegative .decimal (run cs), afterRun cs)) cs :=
    inline_span isWordChar_lineFeed (endsLine_ofNegative .decimal)
  cases cs with
  | nil => exact inline_nil rfl (endsLine_ofUnsigned .decimal (run []))
  | cons c cs =>
    by_cases sign : c = '-'
    · subst sign
      exact (negative cs).behind (by decide) fun _ => rfl
    · exact (unsigned _).same fun cs => by simp [afterSharp, sign]

theorem inline_afterX (x : Char) (cs : List Char) : Inline (afterX x) cs := by
  have word {t : List Char → Except LexError Token} (inner : ∀ cs, endsLine (t cs) = false)
      (cs : List Char) : Inline (fun cs => (t (run cs), afterRun cs)) cs :=
    inline_span isWordChar_lineFeed inner
  cases cs with
  | nil => exact inline_nil rfl rfl
  | cons c cs =>
    by_cases sign : c = '-'
    · subst sign
      exact (word (endsLine_ofNegative .hex) cs).behind (by decide) fun _ => rfl
    · by_cases digit : startsHex c = true
      · exact (word (endsLine_ofUnsigned .hex) _).same fun cs => by simp [afterX, sign, digit]
      · exact (word (t := fun w => .ok (ident (String.ofList (x :: w)))) (fun _ => rfl) _).same
          fun cs => by simp [afterX, sign, digit]

theorem inline_afterPeriod (cs : List Char) : Inline afterPeriod cs := by
  cases cs with
  | nil => exact inline_nil rfl rfl
  | cons c cs =>
    by_cases name : Text.isNameStart c = true
    · have word : Inline (fun cs => (.ok (directive (String.ofList ((run cs).map Char.toLower))),
          afterRun cs)) (c :: cs) :=
        inline_span (t := fun w => .ok (directive (String.ofList (w.map Char.toLower))))
          isWordChar_lineFeed fun _ => rfl
      exact word.same fun cs => by simp [afterPeriod, name]
    · exact (inline_stop (t := .error .badSymbol) rfl).same fun cs => by simp [afterPeriod, name]

theorem inline_afterReturn {cs : List Char} (alone : ∀ c ∈ cs.head?, c ≠ '\n') :
    Inline afterReturn cs := by
  cases cs with
  | nil => exact inline_nil rfl rfl
  | cons c cs =>
    have other : c ≠ '\n' := alone c rfl
    exact (inline_stop (t := .error .badSymbol) rfl).same fun cs => by simp [afterReturn, other]

/- The branches of a token are those of its first character. -/
theorem inline_next {c : Char} {cs : List Char} (visible : c ≠ '\n')
    (alone : c = '\r' → ∀ d ∈ cs.head?, d ≠ '\n') : Inline (next c) cs := by
  have word {t : List Char → Except LexError Token} (inner : ∀ cs, endsLine (t cs) = false) :
      Inline (fun cs => (t (run cs), afterRun cs)) cs :=
    inline_span isWordChar_lineFeed inner
  have comment : Inline (fun cs => (.ok (comment (String.ofList (c :: cs.takeWhile (· != '\n')))),
      cs.dropWhile (· != '\n'))) cs :=
    inline_span (t := fun w => .ok (.comment (String.ofList (c :: w)))) (by simp) fun _ => rfl
  show Inline (fun cs => next c cs) cs
  unfold next
  refine inline_ite (fun _ => inline_stop rfl) fun _ => ?_
  refine inline_ite (fun feed => absurd feed visible) fun _ => ?_
  refine inline_ite (fun back => inline_afterReturn (alone back)) fun _ => ?_
  refine inline_ite (fun _ => comment) fun _ => ?_
  refine inline_ite (fun _ => inline_afterPeriod cs) fun _ => ?_
  refine inline_ite (fun _ => inline_afterSharp cs) fun _ => ?_
  refine inline_ite (fun _ => word (endsLine_ofNegative .decimal)) fun _ => ?_
  refine inline_ite (fun _ => inline_afterX c cs) fun _ => ?_
  refine inline_ite (fun _ => word (t := fun w => ofUnsigned .decimal (c :: w))
    fun _ => endsLine_ofUnsigned _ _) fun _ => ?_
  exact inline_ite (fun _ => word (t := fun w => .ok (ident (String.ofList (c :: w)))) fun _ => rfl)
    fun _ => inline_stop rfl

/-! ### Tokens in a text -/

/- What a token takes of a text, and how far it looks. -/
theorem next_spec (c : Char) (cs : List Char) :
    (∃ lexeme, c :: cs = lexeme ++ (next c cs).2 ∧
      lexeme.count '\n' = if endsLine (next c cs).1 then 1 else 0) ∧
    ('\n' ∈ c :: cs → ∀ more, next c (cs ++ more) = ((next c cs).1, (next c cs).2 ++ more)) := by
  have inline (visible : c ≠ '\n') (h : Inline (next c) cs) :
      (∃ lexeme, c :: cs = lexeme ++ (next c cs).2 ∧
        lexeme.count '\n' = if endsLine (next c cs).1 then 1 else 0) ∧
      ('\n' ∈ c :: cs → ∀ more, next c (cs ++ more) = ((next c cs).1, (next c cs).2 ++ more)) := by
    obtain ⟨lexeme, split, free⟩ := h.taken
    refine ⟨⟨c :: lexeme, by rw [List.cons_append, ← split], ?_⟩, fun feed => h.ahead ?_⟩
    · simp [h.inner, visible, List.count_eq_zero.mpr free]
    · simpa [visible.symm] using feed
  by_cases feed : c = '\n'
  · subst feed
    exact ⟨⟨['\n'], rfl, rfl⟩, fun _ _ => rfl⟩
  by_cases back : c = '\r'
  · subst back
    cases cs with
    | nil => exact inline feed (inline_next feed (by simp))
    | cons d cs =>
      by_cases broken : d = '\n'
      · subst broken
        exact ⟨⟨['\r', '\n'], rfl, rfl⟩, fun _ _ => rfl⟩
      · exact inline feed (inline_next feed fun _ => by simpa using broken)
  · exact inline feed (inline_next feed fun same => absurd same back)

theorem scan_blank {c : Char} (blank : c = ' ' ∨ c = '\t') (cs : List Char) :
    scan (c :: cs) = scan cs := by
  rw [scan, if_pos blank]

theorem scan_visible {c : Char} (visible : ¬(c = ' ' ∨ c = '\t')) (cs : List Char) :
    scan (c :: cs) = (next c cs).1 :: scan (next c cs).2 := by
  rw [scan, if_neg visible]

theorem ne_lineFeed_of_blank {c : Char} (blank : c = ' ' ∨ c = '\t') : c ≠ '\n' := by
  rcases blank with rfl | rfl <;> decide

/-- A text has a newline token for each line feed. -/
theorem scan_newlines (cs : List Char) : (scan cs).countP endsLine = cs.count '\n' := by
  induction cs using scan.induct with
  | case1 => simp [scan]
  | case2 c cs blank ih =>
    rw [scan_blank blank, ih, List.count_cons_of_ne (ne_lineFeed_of_blank blank)]
  | case3 c cs visible ih =>
    obtain ⟨⟨lexeme, split, feeds⟩, -⟩ := next_spec c cs
    rw [scan_visible visible, List.countP_cons, ih, split, List.count_append, feeds]
    omega

/-- The scan of a text meets a token right behind some characters. -/
inductive Meets : List Char → List Char → Except LexError Token → Prop where
  | here {c : Char} {cs : List Char} (visible : ¬(c = ' ' ∨ c = '\t')) :
      Meets (c :: cs) [] (next c cs).1
  | blank {c : Char} {cs before : List Char} {t : Except LexError Token}
      (blank : c = ' ' ∨ c = '\t') (later : Meets cs before t) : Meets (c :: cs) (c :: before) t
  | behind {c : Char} {cs lexeme before : List Char} {t : Except LexError Token}
      (visible : ¬(c = ' ' ∨ c = '\t')) (taken : c :: cs = lexeme ++ (next c cs).2)
      (later : Meets (next c cs).2 before t) : Meets (c :: cs) (lexeme ++ before) t

theorem Meets.split {cs before : List Char} {t : Except LexError Token} (h : Meets cs before t) :
    ∃ after, cs = before ++ after := by
  induction h with
  | here => exact ⟨_, rfl⟩
  | blank _ _ ih =>
    obtain ⟨after, rfl⟩ := ih
    exact ⟨after, rfl⟩
  | behind _ taken _ ih =>
    obtain ⟨after, split⟩ := ih
    exact ⟨after, by rw [taken, split, List.append_assoc]⟩

/- The newline tokens before a token count the line feeds before it. -/
theorem meets_of_scan {cs : List Char} {front back : List (Except LexError Token)}
    {t : Except LexError Token} (scanned : scan cs = front ++ t :: back) :
    ∃ before, Meets cs before t ∧ before.count '\n' = front.countP endsLine := by
  induction cs using scan.induct generalizing front with
  | case1 => simp [scan] at scanned
  | case2 c cs blank ih =>
    rw [scan_blank blank] at scanned
    obtain ⟨before, meets, feeds⟩ := ih scanned
    refine ⟨c :: before, .blank blank meets, ?_⟩
    rw [List.count_cons_of_ne (ne_lineFeed_of_blank blank), feeds]
  | case3 c cs visible ih =>
    rw [scan_visible visible] at scanned
    cases front with
    | nil =>
      obtain ⟨rfl, -⟩ := List.cons_eq_cons.mp scanned
      exact ⟨[], .here visible, rfl⟩
    | cons s front =>
      obtain ⟨rfl, rest⟩ := List.cons_eq_cons.mp scanned
      obtain ⟨⟨lexeme, taken, here⟩, -⟩ := next_spec c cs
      obtain ⟨before, meets, feeds⟩ := ih rest
      refine ⟨lexeme ++ before, .behind visible taken meets, ?_⟩
      rw [List.count_append, List.countP_cons, here, feeds]
      omega

/-! ### Lines -/

theorem splitLines_newline (ts : List (Except LexError Token)) :
    splitLines (.ok newline :: ts) = [] :: splitLines ts := rfl

theorem splitLines_inner {t : Except LexError Token} (inner : t ≠ .ok newline)
    {ts line : List (Except LexError Token)} {lines : List (List (Except LexError Token))}
    (split : splitLines ts = line :: lines) : splitLines (t :: ts) = (t :: line) :: lines := by
  rw [splitLines.eq_3 _ _ inner, split]

theorem endsLine_iff {t : Except LexError Token} : endsLine t = true ↔ t = .ok newline := by
  unfold endsLine
  split <;> simp_all

theorem exists_splitLines (ts : List (Except LexError Token)) :
    ∃ line lines, splitLines ts = line :: lines := by
  induction ts with
  | nil => exact ⟨[], [], rfl⟩
  | cons t ts ih =>
    obtain ⟨line, lines, split⟩ := ih
    by_cases feed : endsLine t
    · rw [endsLine_iff] at feed
      subst feed
      exact ⟨[], splitLines ts, rfl⟩
    · exact ⟨t :: line, lines, splitLines_inner (mt endsLine_iff.mpr feed) split⟩

/- A token stands on the line that the newline tokens before it count. -/
theorem mem_splitLines {ts line : List (Except LexError Token)} {t : Except LexError Token} {k : Nat}
    (here : (splitLines ts)[k]? = some line) (member : t ∈ line) :
    ∃ front back, ts = front ++ t :: back ∧ front.countP endsLine = k := by
  induction ts generalizing k line with
  | nil =>
    have only : line ∈ [[]] := List.mem_of_getElem? here
    simp at only
    simp [only] at member
  | cons s ts ih =>
    by_cases feed : endsLine s
    · have same := endsLine_iff.mp feed
      subst same
      rw [splitLines_newline] at here
      cases k with
      | zero =>
        cases here
        cases member
      | succ k =>
        obtain ⟨front, back, rfl, count⟩ := ih (by simpa using here) member
        exact ⟨_ :: front, back, rfl, by simp [count, feed]⟩
    · obtain ⟨first, lines, split⟩ := exists_splitLines ts
      rw [splitLines_inner (mt endsLine_iff.mpr feed) split] at here
      cases k with
      | zero =>
        cases here
        rcases List.mem_cons.mp member with rfl | later
        · exact ⟨[], ts, rfl, rfl⟩
        · obtain ⟨front, back, rfl, count⟩ := ih (k := 0) (by rw [split]; rfl) later
          exact ⟨s :: front, back, rfl, by simp [count, feed]⟩
      | succ k =>
        obtain ⟨front, back, rfl, count⟩ := ih (k := k + 1) (by rw [split]; simpa using here) member
        exact ⟨s :: front, back, rfl, by simp [count, feed]⟩

/-- A token of a line stands behind as many line feeds as the line has lines before it. -/
theorem line_meets {cs : List Char} {line : List (Except LexError Token)}
    {t : Except LexError Token} {k : Nat} (here : (splitLines (scan cs))[k]? = some line)
    (member : t ∈ line) : ∃ before, Meets cs before t ∧ before.count '\n' = k := by
  obtain ⟨front, back, scanned, count⟩ := mem_splitLines here member
  obtain ⟨before, meets, feeds⟩ := meets_of_scan scanned
  exact ⟨before, meets, feeds.trans count⟩

/-- The lines that line feeds end stay the same when the text goes on. -/
theorem lines_append (cs : List Char) :
    ∃ lines rest, lines.length = cs.count '\n' ∧
      ∀ more, splitLines (scan (cs ++ more)) = lines ++ splitLines (scan (rest ++ more)) := by
  induction cs using scan.induct with
  | case1 => exact ⟨[], [], rfl, fun _ => rfl⟩
  | case2 c cs blank ih =>
    obtain ⟨lines, rest, count, onward⟩ := ih
    refine ⟨lines, rest, ?_, fun more => ?_⟩
    · rw [count, List.count_cons_of_ne (ne_lineFeed_of_blank blank)]
    · rw [List.cons_append, scan_blank blank, onward]
  | case3 c cs visible ih =>
    -- without a line feed the whole text may be read anew
    by_cases feed : '\n' ∈ c :: cs
    case neg => exact ⟨[], c :: cs, by rw [List.count_eq_zero.mpr feed]; rfl, fun _ => rfl⟩
    case pos =>
      obtain ⟨⟨lexeme, split, feeds⟩, ahead⟩ := next_spec c cs
      obtain ⟨lines, rest, count, onward⟩ := ih
      have total : (c :: cs).count '\n' =
          (if endsLine (next c cs).1 then 1 else 0) + lines.length := by
        rw [count, ← feeds, ← List.count_append, ← split]
      have scanned (more : List Char) : scan (c :: cs ++ more) =
          (next c cs).1 :: scan ((next c cs).2 ++ more) := by
        rw [List.cons_append, scan_visible visible, ahead feed]
      by_cases ends : endsLine (next c cs).1
      · refine ⟨[] :: lines, rest, by simp [total, ends, Nat.add_comm], fun more => ?_⟩
        rw [scanned, endsLine_iff.mp ends, splitLines_newline, onward, List.cons_append]
      · have some : 0 < (c :: cs).count '\n' := List.count_pos_iff.mpr feed
        cases lines with
        | nil => simp [total, ends] at some
        | cons line lines =>
          refine ⟨((next c cs).1 :: line) :: lines, rest, by simp [total, ends], fun more => ?_⟩
          rw [scanned, splitLines_inner (mt endsLine_iff.mpr ends) (onward more)]
          rfl

end Lc3.Token
