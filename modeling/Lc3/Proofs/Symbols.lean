import Lc3.Proofs.ByteOrder
import Lc3.Proofs.Casing
import Lc3.Proofs.Drafts

/-!
# The history of a symbol table

Labels are inserted one after the other into an empty table. What the table answers is read off this
history: an insertion defines its label unless an earlier one has, whatever the case, and later ones
leave it alone. The search from an address back to a label meets the labels in the order of their
bytes, and what it finds leads back to the address (`SymbolTable.insertAll_faithful`).
-/

namespace Lc3.SymbolTable

/-- The table after an insertion, which changes nothing if the label is already defined. -/
def insert (t : SymbolTable) (label : String) (a : Word) : SymbolTable := (t.insert? label a).getD t

/-- The table after insertions, the first one first. -/
def insertAll (t : SymbolTable) (es : List (String × Word)) : SymbolTable :=
  es.foldl (fun t e => t.insert e.1 e.2) t

/-- Among the insertions is one that defined a label as an address. -/
def Defines (t : SymbolTable) (es : List (String × Word)) (label : String) (a : Word) : Prop :=
  ∃ before after, es = before ++ (label, a) :: after ∧
    ((t.insertAll before).insert? label a).isSome = true

variable {t : SymbolTable} {label : String} {a : Word}

/-! ### What a table answers -/

theorem address?_eq_some_iff (sorted : t.Sorted) :
    t.address? label = some a ↔ (Text.upper label, a) ∈ t.entries := by
  refine ⟨fun found => ?_, address?_of_mem sorted.distinct⟩
  obtain ⟨before, after, entries, -⟩ := List.lookup_eq_some_iff.mp found
  simp [entries]

theorem address?_eq_none_iff : t.address? label = none ↔ Text.upper label ∉ t.entries.map Prod.fst := by
  rw [address?, List.lookup_eq_none_iff, List.mem_map]
  constructor
  · rintro absent ⟨e, member, same⟩
    simpa [same] using absent e member
  · intro absent e member
    rw [bne_iff_ne]
    exact fun same => absent ⟨e, member, same.symm⟩

/- The search goes through the labels in order, so what it finds is the least. -/
theorem label?_eq_some_iff (sorted : t.Sorted) :
    t.label? a = some label ↔
      (label, a) ∈ t.entries ∧ ∀ other, (other, a) ∈ t.entries → label ≤ other := by
  obtain ⟨entries⟩ := t
  unfold label? Sorted at *
  dsimp only at *
  induction entries with
  | nil => simp
  | cons e es ih =>
    obtain ⟨name, b⟩ := e
    obtain ⟨lowest, rest⟩ := List.pairwise_cons.mp sorted
    by_cases here : b = a
    · subst here
      rw [List.find?_cons_of_pos (by simp), Option.map_some, Option.some_inj]
      constructor
      · rintro rfl
        refine ⟨List.mem_cons_self .., fun other member => ?_⟩
        rcases List.mem_cons.mp member with same | later
        · obtain ⟨rfl, -⟩ := Prod.mk.inj same
          exact String.le_refl _
        · exact String.not_lt.mp fun below => String.lt_irrefl _ (String.lt_trans (lowest _ later) below)
      · rintro ⟨member, least⟩
        rcases List.mem_cons.mp member with same | later
        · exact (Prod.mk.inj same).1.symm
        · exact absurd (lowest _ later) (String.not_lt.mpr (least _ (List.mem_cons_self ..)))
    · have behind (other : String) : (other, a) ∈ (name, b) :: es ↔ (other, a) ∈ es := by
        simp [Ne.symm here]
      rw [List.find?_cons_of_neg (by simpa using here), ih rest]
      simp only [behind]

theorem label?_eq_none_iff : t.label? a = none ↔ ∀ other, (other, a) ∉ t.entries := by
  simp only [label?, Option.map_eq_none_iff, List.find?_eq_none, beq_iff_eq]
  constructor
  · intro absent other member
    exact absent _ member rfl
  · rintro absent ⟨other, b⟩ member rfl
    exact absent other member

/-! ### One insertion -/

theorem insert?_isSome_iff (sorted : t.Sorted) :
    (t.insert? label a).isSome = true ↔ t.address? label = none := by
  rw [address?_eq_none_iff]
  constructor
  · intro accepted
    obtain ⟨t', inserted⟩ := Option.isSome_iff_exists.mp accepted
    obtain ⟨es, placed, -⟩ := Option.map_eq_some_iff.mp inserted
    exact (place_sorted sorted placed).1
  · intro absent
    have fresh : t.Fresh [(label, a)] := List.nodup_cons.mpr ⟨absent, sorted.distinct⟩
    obtain ⟨t', inserted, -⟩ := insert?_fresh fresh
    rw [inserted, Option.isSome_some]

theorem insert_sorted (sorted : t.Sorted) (label : String) (a : Word) : (t.insert label a).Sorted := by
  unfold insert
  cases inserted : t.insert? label a with
  | none => exact sorted
  | some t' => exact (insert?_sorted sorted inserted).2

/- An insertion adds its label in upper case, if it is not refused, and nothing else. -/
theorem mem_insert (sorted : t.Sorted) (label : String) (a : Word) (e : String × Word) :
    e ∈ (t.insert label a).entries ↔
      e ∈ t.entries ∨ (t.insert? label a).isSome = true ∧ e = (Text.upper label, a) := by
  unfold insert
  cases inserted : t.insert? label a with
  | none => simp
  | some t' =>
    have gains := (insert?_sorted sorted inserted).1
    rw [Option.getD_some, List.Perm.mem_iff gains]
    simp [or_comm]

theorem address?_insert (sorted : t.Sorted) (added : String) (b : Word) (label : String) :
    (t.insert added b).address? label =
      (t.address? label).or (if Text.upper added = Text.upper label then some b else none) := by
  ext a
  rw [address?_eq_some_iff (insert_sorted sorted added b), mem_insert sorted, insert?_isSome_iff sorted,
    Option.or_eq_some_iff, address?_eq_some_iff sorted]
  by_cases same : Text.upper added = Text.upper label
  · have found : t.address? added = t.address? label := by rw [address?, address?, same]
    simp [same, found, eq_comm]
  · simp [same, Ne.symm same]

/-! ### Insertions one after the other -/

theorem insertAll_sorted (sorted : t.Sorted) (es : List (String × Word)) : (t.insertAll es).Sorted := by
  induction es generalizing t with
  | nil => exact sorted
  | cons e es ih => exact ih (insert_sorted sorted e.1 e.2)

theorem defines_cons (e : String × Word) (es : List (String × Word)) :
    Defines t (e :: es) label a ↔
      e = (label, a) ∧ (t.insert? label a).isSome = true ∨ Defines (t.insert e.1 e.2) es label a := by
  unfold Defines
  constructor
  · rintro ⟨before, after, split, accepted⟩
    cases before with
    | nil =>
      cases split
      exact .inl ⟨rfl, accepted⟩
    | cons first before =>
      cases split
      exact .inr ⟨before, after, rfl, accepted⟩
  · rintro (⟨rfl, accepted⟩ | ⟨before, after, rfl, accepted⟩)
    · exact ⟨[], es, rfl, accepted⟩
    · exact ⟨e :: before, after, rfl, accepted⟩

/- The entries are the labels that the insertions defined. -/
theorem mem_insertAll (sorted : t.Sorted) (es : List (String × Word)) (name : String) (a : Word) :
    (name, a) ∈ (t.insertAll es).entries ↔
      (name, a) ∈ t.entries ∨ ∃ label, Defines t es label a ∧ Text.upper label = name := by
  induction es generalizing t with
  | nil => simp [insertAll, Defines]
  | cons e es ih =>
    obtain ⟨label, b⟩ := e
    have head : (t.insert? label b).isSome = true ∧ (name, a) = (Text.upper label, b) ↔
        ∃ l, ((label, b) = (l, a) ∧ (t.insert? l a).isSome = true) ∧ Text.upper l = name := by
      constructor
      · rintro ⟨accepted, same⟩
        cases same
        exact ⟨label, ⟨rfl, accepted⟩, rfl⟩
      · rintro ⟨l, ⟨same, accepted⟩, rfl⟩
        cases same
        exact ⟨accepted, rfl⟩
    change _ ∈ ((t.insert label b).insertAll es).entries ↔ _
    rw [ih (insert_sorted sorted label b), mem_insert sorted, or_assoc, head]
    simp only [defines_cons, or_and_right, exists_or]

theorem address?_insertAll (sorted : t.Sorted) (es : List (String × Word)) (label : String) :
    (t.insertAll es).address? label =
      (t.address? label).or ((es.find? fun e => Text.upper e.1 == Text.upper label).map Prod.snd) := by
  induction es generalizing t with
  | nil => simp [insertAll]
  | cons e es ih =>
    change ((t.insert e.1 e.2).insertAll es).address? label = _
    rw [ih (insert_sorted sorted e.1 e.2), address?_insert sorted, Option.or_assoc]
    by_cases same : Text.upper e.1 = Text.upper label
    · rw [List.find?_cons_of_pos (by simpa using same), if_pos same]
      rfl
    · rw [List.find?_cons_of_neg (by simpa using same), if_neg same, Option.none_or]

theorem empty_sorted : ({} : SymbolTable).Sorted := List.Pairwise.nil

/-- A table after any insertions into an empty one answers by their history. A further insertion is
accepted unless an earlier one has defined its label, in whatever case, and changes nothing if it is
refused. The labels in the table are those defined, in upper case. A label stands for the address of
the first insertion of it, in whatever case. For an address the table knows the least of its labels by
their bytes, or none if it has none, and that label stands for the address. -/
theorem insertAll_faithful (es : List (String × Word)) (label : String) (a : Word) :
    let t := ({} : SymbolTable).insertAll es
    ((t.insert? label a).isSome = true ↔
      ∀ earlier b, Defines {} es earlier b → Text.upper earlier ≠ Text.upper label) ∧
    (t.insert? label a = none → t.insert label a = t) ∧
    (∀ name b, (name, b) ∈ t.entries ↔ ∃ l, Defines {} es l b ∧ Text.upper l = name) ∧
    t.address? label = (es.find? fun e => Text.upper e.1 == Text.upper label).map Prod.snd ∧
    (∀ name, t.label? a = some name ↔
      (name, a) ∈ t.entries ∧
      ∀ other, (other, a) ∈ t.entries → Text.encodeUtf8 name ≤ Text.encodeUtf8 other) ∧
    (t.label? a = none ↔ ∀ name, (name, a) ∉ t.entries) ∧
    ∀ name, t.label? a = some name → t.address? name = some a := by
  intro t
  have sorted : t.Sorted := insertAll_sorted empty_sorted es
  have stored (name : String) (b : Word) :
      (name, b) ∈ t.entries ↔ ∃ l, Defines {} es l b ∧ Text.upper l = name := by
    rw [mem_insertAll empty_sorted]
    simp
  refine ⟨?_, ?_, stored, ?_, ?_, label?_eq_none_iff, ?_⟩
  · rw [insert?_isSome_iff sorted, address?_eq_none_iff, List.mem_map]
    constructor
    · intro absent earlier b defined same
      exact absent ⟨(Text.upper earlier, b), (stored _ _).mpr ⟨earlier, defined, rfl⟩, same⟩
    · rintro free ⟨⟨name, b⟩, member, same⟩
      obtain ⟨earlier, defined, spelled⟩ := (stored name b).mp member
      exact free earlier b defined (spelled.trans same)
  · intro refused
    rw [insert, refused, Option.getD_none]
  · rw [address?_insertAll empty_sorted]
    rfl
  · intro name
    rw [label?_eq_some_iff sorted]
    simp only [Text.encodeUtf8_le_iff]
  · intro name found
    have member := ((label?_eq_some_iff sorted).mp found).1
    obtain ⟨l, -, spelled⟩ := (stored name a).mp member
    rw [address?_eq_some_iff sorted, ← spelled, Text.upper_upper, spelled]
    exact member

theorem insertAll_faithful_sharp :
    let t := ({} : SymbolTable).insertAll [("Straße", 0x3000), ("aaa", 0x3000)]
    t.insert? "STRASSE" 0x3005 = none ∧ t.insert "STRASSE" 0x3005 = t ∧
    t.label? 0x3000 = some "AAA" ∧ t.address? "AAA" = some 0x3000 := by
  intro t
  have refused : t.insert? "STRASSE" 0x3005 = none := by decide +kernel
  have least : t.label? 0x3000 = some "AAA" := by decide +kernel
  have history := insertAll_faithful [("Straße", 0x3000), ("aaa", 0x3000)]
  exact ⟨refused, (history "STRASSE" 0x3005).2.1 refused, least,
    (history "AAA" 0x3000).2.2.2.2.2.2 "AAA" least⟩

end Lc3.SymbolTable
