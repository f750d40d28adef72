import Lc3.Image.Text
import Mathlib.Data.List.Forall2

/-!
# Drafts of text images

A text is read in two passes: its lines make a draft, and the labels of the draft are looked up at
the end. Here the second pass is reduced to images: a draft becomes an image exactly if each of its
blocks denotes a block of words (`Denotes`) and these can be added in order (`finish_ok`).
-/

namespace Lc3

/-! ### Results -/

section Results

variable {ε ε' α β : Type}

theorem bind_ok {x : Except ε α} {f : α → Except ε β} {b : β} :
    x >>= f = .ok b ↔ ∃ a, x = .ok a ∧ f a = .ok b := by
  cases x <;> simp [bind, Except.bind]

theorem bind_error {x : Except ε α} {f : α → Except ε β} {e : ε} :
    x >>= f = .error e ↔ x = .error e ∨ ∃ a, x = .ok a ∧ f a = .error e := by
  cases x <;> simp [bind, Except.bind]

theorem map_ok {x : Except ε α} {f : α → β} {b : β} :
    x.map f = .ok b ↔ ∃ a, x = .ok a ∧ f a = b := by
  cases x <;> simp [Except.map]

theorem mapError_ok {x : Except ε α} {f : ε → ε'} {a : α} : x.mapError f = .ok a ↔ x = .ok a := by
  cases x <;> simp [Except.mapError]

theorem mapError_error {x : Except ε α} {f : ε → ε'} {e : ε'} :
    x.mapError f = .error e ↔ ∃ e', x = .error e' ∧ f e' = e := by
  cases x <;> simp [Except.mapError]

theorem pure_ok {a b : α} : (pure a : Except ε α) = .ok b ↔ a = b := by simp [pure, Except.pure]

theorem mapM_ok {f : α → Except ε β} {xs : List α} {ys : List β} :
    xs.mapM f = .ok ys ↔ List.Forall₂ (fun x y => f x = .ok y) xs ys := by
  induction xs generalizing ys with
  | nil => rw [List.mapM_nil, pure_ok, List.forall₂_nil_left_iff, eq_comm]
  | cons x xs ih =>
    simp only [List.mapM_cons, bind_ok, pure_ok, ih, List.forall₂_cons_left_iff]
    constructor
    · rintro ⟨y, first, ys, rest, rfl⟩
      exact ⟨y, ys, first, rest, rfl⟩
    · rintro ⟨y, ys, first, rest, rfl⟩
      exact ⟨y, first, ys, rest, rfl⟩

theorem forall₂_at {R : α → β → Prop} {xs : List α} {ys : List β}
    (all : List.Forall₂ R xs ys) {k : Nat} {x : α} (here : xs[k]? = some x) :
    ∃ y, ys[k]? = some y ∧ R x y := by
  obtain ⟨length, related⟩ := List.forall₂_iff_get.mp all
  obtain ⟨low, rfl⟩ := List.getElem?_eq_some_iff.mp here
  exact ⟨ys[k], List.getElem?_eq_getElem _, related k low (length ▸ low)⟩

end Results

/-! ### Lists of blocks -/

namespace Image

/-- The image with blocks added in order, if every one can be added. -/
def addAll (i : Image) (bs : List Block) : Except BlockError Image := bs.foldlM addBlock i

theorem addAll_nil {i j : Image} : i.addAll [] = .ok j ↔ i = j := pure_ok

theorem addAll_cons {i j : Image} {b : Block} {bs : List Block} :
    i.addAll (b :: bs) = .ok j ↔ ∃ i', i.addBlock b = .ok i' ∧ i'.addAll bs = .ok j := by
  unfold addAll
  rw [List.foldlM_cons, bind_ok]

end Image

/-! ### Labels -/

namespace SymbolTable

theorem place_fresh {label : String} {a : Word} {es : List (String × Word)}
    (fresh : label ∉ es.map Prod.fst) :
    ∃ es', place label a es = some es' ∧ es'.Perm ((label, a) :: es) := by
  induction es with
  | nil => exact ⟨[(label, a)], rfl, .refl _⟩
  | cons e es ih =>
    simp only [List.map_cons, List.mem_cons, not_or] at fresh
    obtain ⟨es', placed, perm⟩ := ih fresh.2
    by_cases low : label < e.1
    · exact ⟨(label, a) :: e :: es, by simp [place, fresh.1, low], .refl _⟩
    · exact ⟨e :: es', by simp [place, fresh.1, low, placed], (perm.cons e).trans (.swap _ _ _)⟩

/-- The labels are new and differ from each other, whatever their case. -/
def Fresh (t : SymbolTable) (es : List (String × Word)) : Prop :=
  (es.map (fun e => Text.upper e.1) ++ t.entries.map Prod.fst).Nodup

/-- The second table has the labels of the first one and further ones. -/
def Gains (t : SymbolTable) (es : List (String × Word)) (t' : SymbolTable) : Prop :=
  t'.entries.Perm (es.map (fun e => (Text.upper e.1, e.2)) ++ t.entries)

variable {t t' t'' : SymbolTable} {es es' : List (String × Word)}

theorem Gains.refl (t : SymbolTable) : t.Gains [] t := List.Perm.refl _

theorem Gains.trans (h : t.Gains es t') (h' : t'.Gains es' t'') : t.Gains (es ++ es') t'' := by
  unfold Gains at *
  rw [List.map_append, List.append_assoc]
  exact (h'.trans (h.append_left _)).trans (List.perm_append_comm_assoc _ _ _)

theorem Fresh.left (h : t.Fresh (es ++ es')) : t.Fresh es := by
  unfold Fresh at *
  rw [List.map_append, List.append_assoc] at h
  exact h.sublist ((List.sublist_append_right _ _).append_left _)

/- What is still to be defined is new to the table with the labels before it. -/
theorem Fresh.right (h : t.Fresh (es ++ es')) (gains : t.Gains es t') : t'.Fresh es' := by
  have keys := gains.map Prod.fst
  simp only [List.map_append, List.map_map] at keys
  unfold Fresh at *
  rw [List.map_append, List.append_assoc] at h
  exact ((keys.append_left _).trans (List.perm_append_comm_assoc _ _ _)).nodup_iff.mpr h

theorem insert?_fresh {label : String} {a : Word} (fresh : t.Fresh [(label, a)]) :
    ∃ t', t.insert? label a = some t' ∧ t.Gains [(label, a)] t' := by
  have absent : Text.upper label ∉ t.entries.map Prod.fst := (List.nodup_cons.mp fresh).1
  obtain ⟨entries, placed, perm⟩ := place_fresh (a := a) absent
  exact ⟨⟨entries⟩, by simp [insert?, placed], perm⟩

theorem address?_of_mem (distinct : (t.entries.map Prod.fst).Nodup) {label : String} {a : Word}
    (member : (Text.upper label, a) ∈ t.entries) : t.address? label = some a := by
  obtain ⟨entries⟩ := t
  unfold address?
  induction entries with
  | nil => cases member
  | cons e es ih =>
    obtain ⟨name, b⟩ := e
    simp only [List.map_cons, List.nodup_cons] at distinct
    rcases List.mem_cons.mp member with here | later
    · cases here
      simp
    · have other : Text.upper label ≠ name := by
        rintro rfl
        exact distinct.1 (List.mem_map_of_mem later)
      rw [List.lookup_cons, beq_false_of_ne other]
      exact ih distinct.2 later

/- New labels stand for their addresses. -/
theorem Gains.address? (gains : t.Gains es t') (fresh : t.Fresh es) {label : String} {a : Word}
    (member : (label, a) ∈ es) : t'.address? label = some a := by
  have keys := gains.map Prod.fst
  simp only [List.map_append, List.map_map] at keys
  have entry : (Text.upper label, a) ∈ es.map fun e => (Text.upper e.1, e.2) :=
    List.mem_map.mpr ⟨(label, a), member, rfl⟩
  exact address?_of_mem (keys.nodup_iff.mpr fresh) (gains.mem_iff.mpr (List.mem_append_left _ entry))

/-- The labels stand in increasing order. -/
def Sorted (t : SymbolTable) : Prop := t.entries.Pairwise fun e f => e.1 < f.1

theorem Sorted.distinct {t : SymbolTable} (sorted : t.Sorted) : (t.entries.map Prod.fst).Nodup := by
  refine List.pairwise_map.mpr (sorted.imp ?_)
  intro e f before same
  rw [same] at before
  exact String.lt_irrefl _ before

/- In a table in order the search for a place meets the label if it is there. -/
theorem place_sorted {label : String} {a : Word} {es es' : List (String × Word)}
    (sorted : es.Pairwise fun e f => e.1 < f.1) (placed : place label a es = some es') :
    label ∉ es.map Prod.fst ∧ es'.Pairwise fun e f => e.1 < f.1 := by
  induction es generalizing es' with
  | nil =>
    cases placed
    simp
  | cons e es ih =>
    obtain ⟨first, rest⟩ := List.pairwise_cons.mp sorted
    by_cases taken : label = e.1
    · simp [place, taken] at placed
    by_cases low : label < e.1
    · simp only [place, taken, low, if_true, if_false, Option.some.injEq] at placed
      subst placed
      have lowest : ∀ f ∈ e :: es, label < f.1 := by
        intro f hf
        rcases List.mem_cons.mp hf with rfl | later
        · exact low
        · exact String.lt_trans low (first f later)
      refine ⟨?_, List.pairwise_cons.mpr ⟨lowest, sorted⟩⟩
      intro present
      obtain ⟨f, hf, rfl⟩ := List.mem_map.mp present
      exact String.lt_irrefl _ (lowest f hf)
    · simp only [place, taken, low, if_false] at placed
      obtain ⟨es', behind, rfl⟩ := Option.map_eq_some_iff.mp placed
      obtain ⟨fresh, sorted'⟩ := ih rest behind
      obtain ⟨es'', behind', perm⟩ := place_fresh (a := a) fresh
      rw [behind] at behind'
      cases behind'
      have high : e.1 < label := by
        apply String.not_le.mp
        intro reverse
        exact taken (String.le_antisymm reverse (String.not_lt.mp low))
      refine ⟨by simpa [taken] using fresh, List.pairwise_cons.mpr ⟨?_, sorted'⟩⟩
      intro f hf
      rcases List.mem_cons.mp (perm.mem_iff.mp hf) with rfl | later
      · exact high
      · exact first f later

theorem insert?_sorted {t t' : SymbolTable} {label : String} {a : Word} (sorted : t.Sorted)
    (inserted : t.insert? label a = some t') : t.Gains [(label, a)] t' ∧ t'.Sorted := by
  obtain ⟨es, placed, rfl⟩ := Option.map_eq_some_iff.mp inserted
  obtain ⟨absent, sorted'⟩ := place_sorted sorted placed
  have fresh : t.Fresh [(label, a)] := List.nodup_cons.mpr ⟨absent, sorted.distinct⟩
  obtain ⟨t', inserted', gains⟩ := insert?_fresh fresh
  rw [inserted] at inserted'
  cases inserted'
  exact ⟨gains, sorted'⟩

end SymbolTable

/-! ### The first pass -/

namespace Draft

theorem mapM_id_ok (ts : List Token) :
    (ts.map (Except.ok : Token → Except LexError Token)).mapM id = .ok ts :=
  mapM_ok.mpr (List.forall₂_map_left_iff.mpr (List.forall₂_same.mpr fun _ _ => rfl))

theorem readTokens_plain (d : Draft) (line : Nat) {ts : List Token}
    (plain : ∀ t ∈ ts, t.isComment = false) :
    d.readTokens line (ts.map .ok) = d.readLine line ts := by
  have all : ts.filter (fun t => !t.isComment) = ts := by simpa using plain
  rw [readTokens, mapM_id_ok]
  simp [Except.mapError, bind, Except.bind, all]

theorem readLines_cons {d d' : Draft} {line : Nat} {l : List (Except LexError Token)}
    {ls : List (List (Except LexError Token))} :
    d.readLines line (l :: ls) = .ok d' ↔
      ∃ e, d.readTokens line l = .ok e ∧ e.readLines (line + 1) ls = .ok d' := by
  simp only [readLines, bind_ok, mapError_ok]

theorem readLines_append (d : Draft) (line : Nat) (ls ls' : List (List (Except LexError Token))) :
    d.readLines line (ls ++ ls') =
      d.readLines line ls >>= fun e => e.readLines (line + ls.length) ls' := by
  induction ls generalizing d line with
  | nil => rfl
  | cons l ls ih =>
    have count : line + 1 + ls.length = line + (l :: ls).length := by
      rw [List.length_cons]
      omega
    simp only [List.cons_append, readLines, ih, count, bind_assoc]

end Draft

/-! ### The second pass -/

namespace Draft

/-- The block that a block of a draft denotes, with its labels looked up. -/
def Denotes (d : Draft) (b : DraftBlock) (c : Block) : Prop :=
  c.start = b.start ∧ b.values.mapM d.resolve = .ok c.words

variable {d : Draft} {i j : Image}

theorem addBlock_ok {b : DraftBlock} :
    d.addBlock i b = .ok j ↔ ∃ c, d.Denotes b c ∧ i.addBlock c = .ok j := by
  unfold addBlock Denotes
  simp only [bind_ok, mapError_ok]
  constructor
  · rintro ⟨words, resolved, added⟩
    exact ⟨⟨b.start, words⟩, ⟨rfl, resolved⟩, added⟩
  · rintro ⟨⟨start, words⟩, ⟨rfl, resolved⟩, added⟩
    exact ⟨words, resolved, added⟩

theorem addBlocks_ok {ds : List DraftBlock} :
    ds.foldlM d.addBlock i = .ok j ↔ ∃ bs, List.Forall₂ d.Denotes ds bs ∧ i.addAll bs = .ok j := by
  induction ds generalizing i with
  | nil => simp [pure_ok, Image.addAll_nil]
  | cons b ds ih =>
    simp only [List.foldlM_cons, bind_ok, addBlock_ok, ih]
    constructor
    · rintro ⟨i', ⟨c, denotes, placed⟩, bs, rest, added⟩
      exact ⟨c :: bs, .cons denotes rest, Image.addAll_cons.mpr ⟨i', placed, added⟩⟩
    · rintro ⟨bs, all, added⟩
      obtain ⟨c, bs, denotes, rest, rfl⟩ := List.forall₂_cons_left_iff.mp all
      obtain ⟨i', placed, added⟩ := Image.addAll_cons.mp added
      exact ⟨i', ⟨c, denotes, placed⟩, bs, rest, added⟩

/-- A draft becomes an image exactly if its blocks denote blocks that can be added, and its entry
has an address. -/
theorem finish_ok :
    d.finish = .ok j ↔ ∃ bs i entry, List.Forall₂ d.Denotes (d.closed ++ d.current.toList) bs ∧
      Image.addAll {} bs = .ok i ∧ d.entry.mapM d.resolve = .ok entry ∧
      j = { i with chosenEntry := entry, symbols := d.symbols } := by
  unfold finish
  simp only [bind_ok, addBlocks_ok, pure_ok]
  constructor
  · rintro ⟨i, ⟨bs, denotes, placed⟩, entry, found, rfl⟩
    exact ⟨bs, i, entry, denotes, placed, found, rfl⟩
  · rintro ⟨bs, i, entry, denotes, placed, found, rfl⟩
    exact ⟨i, ⟨bs, denotes, placed⟩, entry, found, rfl⟩

end Draft

end Lc3
