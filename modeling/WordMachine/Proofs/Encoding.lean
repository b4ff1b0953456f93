import WordMachine.Image

/-! # Images of words

An image says the same as the words it was made of, and nothing else but a last odd byte gets lost
when the words of an image are read.

* `Image.encode?_eq_some_iff`: exactly the rows of words have an image.
* `Image.wordAt_iff`: word `i` is made of the bytes `2 * i` and `2 * i + 1`, the low one first.
* `Image.encode?_append` and `Image.decode_append`: images are put together as rows are.
* `Image.encode_decode` is the account of both directions.
-/

namespace WordMachine.Image

variable {values : List Int} {words : List Word} {data : Bytes} {i : Nat} {w : Word}

/-! ## From words to bytes -/

/-- The words of a row of integers, if all of them are words. -/
theorem mapM_ofInt?_eq_some_iff :
    values.mapM Word.ofInt? = some words ↔ values = words.map Word.toInt := by
  induction values generalizing words with
  | nil => simp [eq_comm]
  | cons v rest ih =>
    rw [List.mapM_cons]
    simp only [Option.pure_def, Option.bind_eq_bind, Option.bind_eq_some_iff, Option.some.injEq,
      Word.ofInt?_eq_some_iff]
    constructor
    · rintro ⟨w, rfl, ws, hrest, rfl⟩
      rw [List.map_cons, ← ih.1 hrest]
    · intro h
      cases words with
      | nil => cases h
      | cons w ws =>
        obtain ⟨rfl, rfl⟩ := List.cons.inj h
        exact ⟨w, rfl, ws, ih.2 rfl, rfl⟩

/-- The image of a row of integers is that of the words that they are. -/
theorem encode?_eq_some_iff :
    encode? values = some data ↔ ∃ words, values = words.map Word.toInt ∧ data = ofWords words := by
  simp only [encode?, Option.map_eq_some_iff, mapM_ofInt?_eq_some_iff, eq_comm (a := data)]

/-- Integers are words if none of them is out of range. -/
theorem exists_words (h : ∀ v ∈ values, 0 ≤ v ∧ v ≤ 65535) :
    ∃ words : List Word, values = words.map Word.toInt := by
  induction values with
  | nil => exact ⟨[], rfl⟩
  | cons v rest ih =>
    obtain ⟨w, hw⟩ := Option.isSome_iff_exists.1 ((Word.ofInt?_isSome_iff v).2 (h v (by simp)))
    obtain ⟨ws, hws⟩ := ih fun x hx => h x (List.mem_cons_of_mem v hx)
    exact ⟨w :: ws, by rw [List.map_cons, Word.ofInt?_eq_some_iff.1 hw, ← hws]⟩

/-- Exactly the rows of integers from 0 to 65535 have an image. -/
theorem encode?_isSome_iff : (encode? values).isSome ↔ ∀ v ∈ values, 0 ≤ v ∧ v ≤ 65535 := by
  rw [Option.isSome_iff_exists]
  simp only [encode?_eq_some_iff]
  constructor
  · rintro ⟨-, words, rfl, -⟩ v hv
    obtain ⟨w, -, rfl⟩ := List.mem_map.1 hv
    exact ⟨w.toInt_nonneg, w.toInt_le⟩
  · intro h
    obtain ⟨words, hwords⟩ := exists_words h
    exact ⟨_, words, hwords, rfl⟩

@[simp] theorem encode?_map_toInt (words : List Word) :
    encode? (words.map Word.toInt) = some (ofWords words) :=
  encode?_eq_some_iff.2 ⟨words, rfl, rfl⟩

/-- A word takes two bytes. -/
theorem length_ofWords (words : List Word) : (ofWords words).length = 2 * words.length := by
  induction words with
  | nil => rfl
  | cons w rest ih =>
    rw [ofWords, List.flatMap_cons, List.length_append, List.length_cons]
    have hrest : (rest.flatMap bytesOf).length = 2 * rest.length := ih
    have htwo : (bytesOf w).length = 2 := rfl
    omega

theorem encode?_append (u v : List Int) :
    encode? (u ++ v) = (encode? u).bind fun x => (encode? v).map (x ++ ·) := by
  have hwords : ∀ us vs : List Word, ofWords (us ++ vs) = ofWords us ++ ofWords vs :=
    fun us vs => List.flatMap_append
  rw [encode?, List.mapM_append, encode?, encode?]
  cases u.mapM Word.ofInt? with
  | none => rfl
  | some us =>
    cases v.mapM Word.ofInt? with
    | none => rfl
    | some vs => exact congrArg some (hwords us vs)

/-! ## From bytes to words -/

/-- What is left when there is no pair to read is at most one byte. -/
theorem eq_nil_or_singleton
    (h : ∀ (low high : UInt8) (rest : List UInt8), data = low :: high :: rest → False) :
    data = [] ∨ ∃ byte, data = [byte] :=
  match data, h with
  | [], _ => .inl rfl
  | [byte], _ => .inr ⟨byte, rfl⟩
  | low :: high :: rest, h => (h low high rest rfl).elim

/-- Bytes are read in pairs, so a row that ends with a pair can be read by itself. -/
theorem decode_append (x y : Bytes) (hx : 2 ∣ x.length) :
    decode (x ++ y) = decode x ++ decode y := by
  fun_induction decode x with
  | case1 low high rest ih =>
    have hrest : 2 ∣ rest.length := by
      simp only [List.length_cons] at hx
      omega
    rw [List.cons_append, List.cons_append, decode, ih hrest, List.cons_append]
  | case2 bytes hshort =>
    -- A single byte would be completed by the first one behind it.
    rcases eq_nil_or_singleton hshort with rfl | ⟨byte, rfl⟩
    · rfl
    · simp at hx

/-- What was read is written again as it was, but for a last odd byte. -/
theorem ofWords_decode (data : Bytes) :
    ofWords (decode data) = data.take (2 * (data.length / 2)) := by
  fun_induction decode data with
  | case1 low high rest ih =>
    have hlength : 2 * ((low :: high :: rest).length / 2) = 2 * (rest.length / 2) + 2 := by
      simp only [List.length_cons]
      omega
    rw [hlength, List.take_succ_cons, List.take_succ_cons, ← ih, ofWords, List.flatMap_cons,
      bytesOf_wordOf]
    rfl
  | case2 bytes hshort =>
    rcases eq_nil_or_singleton hshort with rfl | ⟨byte, rfl⟩
    · rfl
    · simp [ofWords]

/-- Word `i` of an image is `w`: two bytes, the low one first. -/
def WordAt (data : Bytes) (i : Nat) (w : Word) : Prop :=
  ∃ low high : UInt8, data[2 * i]? = some low ∧ data[2 * i + 1]? = some high ∧
    w.toNat = low.toNat + 256 * high.toNat

/-- The word of two bytes is the only one that is their number. -/
theorem eq_wordOf_iff {low high : UInt8} :
    w = wordOf low high ↔ w.toNat = low.toNat + 256 * high.toNat := by
  have hl := low.toNat_lt
  have hh := high.toNat_lt
  rw [← UInt16.toNat_inj, wordOf, UInt16.toNat_ofNat', Nat.mod_eq_of_lt (by omega)]

theorem wordAt_iff : WordAt data i w ↔ (decode data)[i]? = some w := by
  fun_induction decode data generalizing i with
  | case1 low high rest ih =>
    cases i with
    | zero => simp [WordAt, ← eq_wordOf_iff, eq_comm]
    | succ i =>
      rw [List.getElem?_cons_succ, ← ih]
      rfl
  | case2 bytes hshort =>
    rcases eq_nil_or_singleton hshort with rfl | ⟨byte, rfl⟩
    · simp [WordAt]
    · simp [WordAt]

/-- An image has a word for every two bytes. -/
theorem exists_wordAt_iff : (∃ w, WordAt data i w) ↔ i < data.length / 2 := by
  simp only [wordAt_iff, ← length_decode, List.getElem?_eq_some_iff]
  constructor
  · rintro ⟨w, hi, -⟩
    exact hi
  · intro hi
    exact ⟨_, hi, rfl⟩

/-! ## Both ways -/

/-- A row of integers has an image exactly if each of them is a word. The image has two bytes for each
and gives the row back; bytes that are read and written again are the same but for a last odd one.

Two rows have the image that theirs make together, and so it is with the words of two images if the
first does not end in the middle of a word. A word is two bytes, the low one first. -/
theorem encode_decode :
    (∀ values : List Int, (encode? values).isSome ↔ ∀ v ∈ values, 0 ≤ v ∧ v ≤ 65535) ∧
    (∀ (values : List Int) (data : Bytes), encode? values = some data →
      data.length = 2 * values.length ∧ (decode data).map Word.toInt = values) ∧
    (∀ data : Bytes,
      encode? ((decode data).map Word.toInt) = some (data.take (2 * (data.length / 2)))) ∧
    (∀ u v : List Int, encode? (u ++ v) = (encode? u).bind fun x => (encode? v).map (x ++ ·)) ∧
    (∀ x y : Bytes, 2 ∣ x.length → decode (x ++ y) = decode x ++ decode y) ∧
    ∀ (data : Bytes) (i : Nat) (w : Word), (decode data)[i]? = some w ↔
      ∃ low high : UInt8, data[2 * i]? = some low ∧ data[2 * i + 1]? = some high ∧
        w.toNat = low.toNat + 256 * high.toNat := by
  refine ⟨fun values => encode?_isSome_iff, ?_, ?_, encode?_append, decode_append,
    fun data i w => wordAt_iff.symm⟩
  · intro values data h
    obtain ⟨words, rfl, rfl⟩ := encode?_eq_some_iff.1 h
    rw [length_ofWords, List.length_map, decode_ofWords]
    exact ⟨rfl, rfl⟩
  · intro data
    rw [encode?_map_toInt, ofWords_decode]

/-- Two words, the second of them the largest, and an odd byte behind their image. -/
theorem encode_decode_largest :
    encode? [258, 65535] = some [2, 1, 255, 255] ∧
      (decode [2, 1, 255, 255]).map Word.toInt = [258, 65535] ∧
      2 ∣ ([2, 1] : Bytes).length ∧ decode ([2, 1] ++ [255, 255, 7]) = [258, 65535] ∧
      encode? ((decode [2, 1, 255, 255, 7]).map Word.toInt) = some [2, 1, 255, 255] := by
  obtain ⟨-, hback, hagain, -, happend, -⟩ := encode_decode
  have himage : encode? [258, 65535] = some [2, 1, 255, 255] := by decide
  have heven : 2 ∣ ([2, 1] : Bytes).length := by decide
  exact ⟨himage, (hback _ _ himage).2, heven, happend _ [255, 255, 7] heven,
    hagain [2, 1, 255, 255, 7]⟩

end WordMachine.Image
