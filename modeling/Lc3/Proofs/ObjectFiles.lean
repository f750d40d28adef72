import Lc3.Proofs.Blocks

/-!
# Object files

An object file is its origin and the words of one block, each as two bytes. Every origin and list of
words that fits behind it has such a file, which is read back as that block
(`Image.ofObject_bytesOfWords`). Nothing else is read: an even number of bytes are the bytes of some
words (`bytesOfWords_of_wordsOfBytes`), so what is refused has an odd number of bytes, or no origin, or
too many words (`Image.ofObject_reads`).
-/

namespace Lc3

/-! ### Words as bytes -/

/- The first byte counts for 256. -/
theorem toNat_bytes (w : Word) :
    w.toNat = 256 * (w.extractLsb' 8 8).toNat + (w.extractLsb' 0 8).toNat := by
  have bound := w.isLt
  rw [BitVec.extractLsb'_toNat, BitVec.extractLsb'_toNat, Nat.shiftRight_eq_div_pow,
    Nat.shiftRight_eq_div_pow]
  omega

theorem bytesOfWords_cons (w : Word) (ws : List Word) :
    bytesOfWords (w :: ws) = w.extractLsb' 8 8 :: w.extractLsb' 0 8 :: bytesOfWords ws := rfl

theorem length_bytesOfWords (ws : List Word) : (bytesOfWords ws).length = 2 * ws.length := by
  induction ws with
  | nil => rfl
  | cons w ws ih =>
    rw [bytesOfWords_cons]
    simp only [List.length_cons]
    omega

theorem wordsOfBytes_bytesOfWords (ws : List Word) : wordsOfBytes (bytesOfWords ws) = some ws := by
  induction ws with
  | nil => rfl
  | cons w ws ih =>
    rw [bytesOfWords_cons, wordsOfBytes, ih]
    exact congrArg (fun v => some (v :: ws)) BitVec.extractLsb'_append_extractLsb'

/- Bytes that are read as words are the bytes of these words. -/
theorem bytesOfWords_of_wordsOfBytes {bytes : List Byte} {ws : List Word}
    (read : wordsOfBytes bytes = some ws) : bytes = bytesOfWords ws := by
  induction bytes using wordsOfBytes.induct generalizing ws with
  | case1 =>
    cases read
    rfl
  | case2 b => cases read
  | case3 high low rest ih =>
    rw [wordsOfBytes] at read
    obtain ⟨tail, later, rfl⟩ := Option.map_eq_some_iff.mp read
    rw [bytesOfWords_cons, BitVec.extractLsb'_append_eq_left, BitVec.extractLsb'_append_eq_right,
      ← ih later]

theorem wordsOfBytes_eq_none_iff (bytes : List Byte) :
    wordsOfBytes bytes = none ↔ bytes.length % 2 = 1 := by
  induction bytes using wordsOfBytes.induct with
  | case1 => simp [wordsOfBytes]
  | case2 b => simp [wordsOfBytes]
  | case3 high low rest ih =>
    rw [wordsOfBytes, Option.map_eq_none_iff, ih]
    simp only [List.length_cons]
    omega

/- Where the bytes of a word are. -/
theorem getElem?_bytesOfWords {ws : List Word} {k : Nat} {w : Word} (h : ws[k]? = some w) :
    (bytesOfWords ws)[2 * k]? = some (w.extractLsb' 8 8) ∧
      (bytesOfWords ws)[2 * k + 1]? = some (w.extractLsb' 0 8) := by
  induction ws generalizing k with
  | nil => cases h
  | cons v ws ih =>
    rw [bytesOfWords_cons]
    cases k with
    | zero =>
      cases h
      exact ⟨rfl, rfl⟩
    | succ k => exact ih h

/-! ### Files -/

namespace Image

/-- The image of an object file. -/
def single (origin : Word) (words : List Word) : Image where
  blocks := if words = [] then [] else [⟨origin, words⟩]
  first := if words = [] then none else some origin
  chosenEntry := some origin

theorem addBlock_single (origin : Word) (words : List Word) :
    (({} : Image).addBlock ⟨origin, words⟩).map (·.withEntry origin) =
      if origin.toNat + words.length ≤ 65536 then .ok (single origin words)
      else .error (.outOfRange origin words.length) := by
  let b : Block := ⟨origin, words⟩
  unfold single
  by_cases empty : words = []
  · have fits : origin.toNat + words.length ≤ 65536 := by
      have low := origin.isLt
      rw [empty]
      simp only [List.length_nil]
      omega
    have added : ({} : Image).addBlock b = .ok {} := addBlock_of_empty empty
    rw [added, if_pos fits, if_pos empty, if_pos empty]
    rfl
  · by_cases fits : origin.toNat + words.length ≤ 65536
    · have laid : Laid ({} : Image).blocks := .nil
      have apart : ∀ c ∈ ({} : Image).blocks, b.Apart c := fun c hc => (List.not_mem_nil hc).elim
      rw [addBlock_of_apart (b := b) laid empty fits apart, if_pos fits, if_neg empty, if_neg empty]
      rfl
    · have outside : 65536 < b.stop := Nat.lt_of_not_le fits
      rw [addBlock_of_outside (b := b) empty outside, if_neg fits]
      rfl

theorem ofObject_bytesOfWords (origin : Word) (words : List Word) :
    ofObject (bytesOfWords (origin :: words)) =
      if origin.toNat + words.length ≤ 65536 then .ok (single origin words)
      else .error (.block (.outOfRange origin words.length)) := by
  unfold ofObject
  rw [wordsOfBytes_bytesOfWords]
  dsimp only
  rw [addBlock_single]
  split <;> rfl

/- Bytes are odd in number, or none, or those of an origin and words behind it. -/
theorem ofObject_cases (bytes : List Byte) :
    (bytes.length % 2 = 1 ∧ ofObject bytes = .error .oddLength) ∨
      (bytes = [] ∧ ofObject bytes = .error .missingOrigin) ∨
        ∃ origin words, bytes = bytesOfWords (origin :: words) := by
  cases read : wordsOfBytes bytes with
  | none =>
    refine Or.inl ⟨(wordsOfBytes_eq_none_iff bytes).mp read, ?_⟩
    unfold ofObject
    rw [read]
  | some ws =>
    have written := bytesOfWords_of_wordsOfBytes read
    cases ws with
    | nil =>
      refine Or.inr (Or.inl ⟨written, ?_⟩)
      unfold ofObject
      rw [read]
    | cons origin words => exact Or.inr (Or.inr ⟨origin, words, written⟩)

theorem ofObject_accepts (bytes : List Byte) :
    (∃ i, ofObject bytes = .ok i) ↔ ∃ origin words,
      bytes = bytesOfWords (origin :: words) ∧ origin.toNat + words.length ≤ 65536 := by
  constructor
  · intro h
    obtain ⟨i, read⟩ := h
    obtain ⟨-, refused⟩ | ⟨-, refused⟩ | ⟨origin, words, written⟩ := ofObject_cases bytes
    · rw [refused] at read
      cases read
    · rw [refused] at read
      cases read
    · refine ⟨origin, words, written, ?_⟩
      by_contra outside
      rw [written, ofObject_bytesOfWords, if_neg outside] at read
      cases read
  · intro h
    obtain ⟨origin, words, written, fits⟩ := h
    exact ⟨single origin words, by rw [written, ofObject_bytesOfWords, if_pos fits]⟩

theorem ofObject_refuses (bytes : List Byte) (e : ObjectError) :
    ofObject bytes = .error e ↔
      (bytes.length % 2 = 1 ∧ e = .oddLength) ∨ (bytes = [] ∧ e = .missingOrigin) ∨
        ∃ origin words, bytes = bytesOfWords (origin :: words) ∧
          65536 < origin.toNat + words.length ∧ e = .block (.outOfRange origin words.length) := by
  constructor
  · intro refused
    obtain ⟨odd, reason⟩ | ⟨empty, reason⟩ | ⟨origin, words, written⟩ := ofObject_cases bytes
    · rw [reason] at refused
      cases refused
      exact Or.inl ⟨odd, rfl⟩
    · rw [reason] at refused
      cases refused
      exact Or.inr (Or.inl ⟨empty, rfl⟩)
    · rw [written, ofObject_bytesOfWords] at refused
      split at refused
      · cases refused
      · next outside =>
        cases refused
        exact Or.inr (Or.inr ⟨origin, words, written, Nat.lt_of_not_le outside, rfl⟩)
  · rintro (⟨odd, rfl⟩ | ⟨rfl, rfl⟩ | ⟨origin, words, rfl, outside, rfl⟩)
    · unfold ofObject
      rw [(wordsOfBytes_eq_none_iff bytes).mpr odd]
    · rfl
    · rw [ofObject_bytesOfWords, if_neg (by omega)]

/-- Which bytes are object files, and what they hold. The bytes of an origin and of words that fit
behind it, two for each word and the high byte first, are read as an image that is entered at the
origin, has no labels, and has the words as its only block, or no block without words. No other bytes
are read. Bytes are refused for their odd number, for a missing origin if there are none, and else if
and only if the words that they stand for run past the last address. -/
theorem ofObject_reads :
    (∀ origin words, origin.toNat + words.length ≤ 65536 →
      ∃ i, ofObject (bytesOfWords (origin :: words)) = .ok i ∧ i.entry = origin ∧ i.symbols = {} ∧
        i.blocks = if words = [] then [] else [⟨origin, words⟩]) ∧
    (∀ words, (bytesOfWords words).length = 2 * words.length ∧
      ∀ k w, words[k]? = some w → ∃ high low, (bytesOfWords words)[2 * k]? = some high ∧
        (bytesOfWords words)[2 * k + 1]? = some low ∧ w.toNat = 256 * high.toNat + low.toNat) ∧
    (∀ bytes, (∃ i, ofObject bytes = .ok i) ↔ ∃ origin words,
      bytes = bytesOfWords (origin :: words) ∧ origin.toNat + words.length ≤ 65536) ∧
    ∀ bytes e, ofObject bytes = .error e ↔
      (bytes.length % 2 = 1 ∧ e = .oddLength) ∨ (bytes = [] ∧ e = .missingOrigin) ∨
        ∃ origin words, bytes = bytesOfWords (origin :: words) ∧
          65536 < origin.toNat + words.length ∧ e = .block (.outOfRange origin words.length) := by
  refine ⟨?_, ?_, ofObject_accepts, ofObject_refuses⟩
  · intro origin words fits
    refine ⟨single origin words, ?_, rfl, rfl, rfl⟩
    rw [ofObject_bytesOfWords, if_pos fits]
  · intro words
    refine ⟨length_bytesOfWords words, ?_⟩
    intro k w here
    obtain ⟨high, low⟩ := getElem?_bytesOfWords here
    exact ⟨_, _, high, low, toNat_bytes w⟩

theorem ofObject_reads_lastAddress :
    0xFFFE + [0x0041, 0xF025].length ≤ 65536 ∧
      ∃ i, ofObject [0xFF, 0xFE, 0x00, 0x41, 0xF0, 0x25] = .ok i ∧ i.entry = 0xFFFE ∧
        i.symbols = {} ∧ i.blocks = [⟨0xFFFE, [0x0041, 0xF025]⟩] :=
  ⟨by decide, ofObject_reads.1 0xFFFE [0x0041, 0xF025] (by decide)⟩

end Image

end Lc3
