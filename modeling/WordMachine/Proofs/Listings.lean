import WordMachine.Proofs.Decoding
import WordMachine.Proofs.Loading

/-! # Listings

Decoding one instruction after the other reads memory word by word: nothing is skipped, and nothing is
read twice. A program that was written down as opcodes with operands is read back as it was.

* `Machine.Holds`: integers stand in memory one behind the other. An instruction is decoded exactly
  where its words stand (`decode_of_holds`, `holds_of_decode`).
* `Machine.Decodes`: decoding goes through a row of instructions. `Sized.exists_decodes` follows it to
  the end of memory, and `Decodes.listing` says what a listing makes of it.
* `linear_decoding` is the account of both directions.
-/

namespace WordMachine

/-- Each instruction stands behind the one before it, the first at `p`, and `q` is behind the last. -/
def Instruction.Laid : Int → List Instruction → Int → Prop
  | p, [], q => p = q
  | p, i :: is, q => i.address = .number p ∧ Laid (p + 1 + i.operands.length) is q

/-- A program as it is written down: opcodes, each with its operands. -/
abbrev Code := List (Opcode × List Int)

namespace Code

/-- The words of a program. -/
def words (code : Code) : List Int := code.flatMap fun (op, operands) => op.number :: operands

/-- The instructions of a program that stands at `p` in memory. -/
def instructions : Int → Code → List Instruction
  | _, [] => []
  | p, (opcode, operands) :: code =>
    { opcode, operands, address := .number p, raw := opcode.number } ::
      instructions (p + 1 + operands.length) code

/-- Every opcode is one that words encode, and has as many words for operands as it takes. -/
def Encodable (code : Code) : Prop :=
  ∀ op operands, (op, operands) ∈ code → op ≠ .invalid ∧ operands.length = op.operandCount ∧
    ∀ v ∈ operands, 0 ≤ v ∧ v ≤ 65535

theorem length_instructions (p : Int) (code : Code) :
    (code.instructions p).length = code.length := by
  induction code generalizing p with
  | nil => rfl
  | cons statement code ih =>
    obtain ⟨op, operands⟩ := statement
    rw [instructions, List.length_cons, List.length_cons, ih]

end Code

namespace Machine

variable {m m' m₁ : Machine} {p q : Int} {i : Instruction} {is : List Instruction}
  {values : List Int} {n : Nat} {code : Code}

/-! ## Integers in a row of cells -/

/-- Memory holds the integers one behind the other, the first at `p`. -/
def Holds (m : Machine) : Int → List Int → Prop
  | _, [] => True
  | p, v :: rest => (∃ w, m.readMemory p = .ok w ∧ w.toInt = v) ∧ Holds m (p + 1) rest

theorem holds_append {u v : List Int} :
    m.Holds p (u ++ v) ↔ m.Holds p u ∧ m.Holds (p + u.length) v := by
  induction u generalizing p with
  | nil => simp [Holds]
  | cons x rest ih =>
    have hlength : p + 1 + (rest.length : Int) = p + (x :: rest).length := by
      rw [List.length_cons]
      omega
    rw [List.cons_append, Holds, Holds, ih, hlength, and_assoc]

/-- What memory holds can be said cell by cell. -/
theorem holds_iff :
    m.Holds p values ↔ ∀ (k : Nat) (v : Int), values[k]? = some v →
      ∃ w, m.readMemory (p + k) = .ok w ∧ w.toInt = v := by
  induction values generalizing p with
  | nil => simp [Holds]
  | cons x rest ih =>
    rw [Holds, ih]
    constructor
    · rintro ⟨hfirst, hrest⟩ k v hv
      cases k with
      | zero =>
        cases hv
        rw [Int.natCast_zero, Int.add_zero]
        exact hfirst
      | succ k =>
        rw [show p + ((k + 1 : Nat) : Int) = p + 1 + k by omega]
        exact hrest k v hv
    · intro h
      constructor
      · have hfirst := h 0 x rfl
        rwa [Int.natCast_zero, Int.add_zero] at hfirst
      · intro k v hv
        rw [show p + 1 + (k : Int) = p + ((k + 1 : Nat) : Int) by omega]
        exact h (k + 1) v hv

/-- Nothing else than memory matters. -/
theorem Holds.of_memory (h : m.Holds p values) (hm : m'.memory = m.memory) :
    m'.Holds p values := by
  rw [holds_iff] at h ⊢
  intro k v hv
  obtain ⟨w, hw, hv⟩ := h k v hv
  refine ⟨w, ?_, hv⟩
  rw [readMemory_eq_ok_iff] at hw ⊢
  rwa [hm]

/-- They are the words that a look at these cells shows. -/
theorem Holds.peek (h : m.Holds p values) (h₀ : 0 ≤ p) :
    (m.peek p values.length).map Word.toInt = values := by
  induction values generalizing p with
  | nil =>
    rw [List.length_nil, Int.natCast_zero, peek_zero]
    rfl
  | cons v rest ih =>
    obtain ⟨⟨w, hw, rfl⟩, hrest⟩ := h
    rw [List.length_cons, peek_succ h₀ hw, List.map_cons, ih hrest (by omega)]

/-- Words in a row end with memory at the latest. -/
theorem Holds.le_memorySize (h : m.Holds p values) (hne : values ≠ []) :
    0 ≤ p ∧ p + values.length ≤ memorySize := by
  have hpos : 0 < values.length := List.length_pos_iff.2 hne
  have hcell : ∀ k < values.length, ∃ j : Nat, p + (k : Int) = j ∧ j < memorySize := by
    intro k hk
    obtain ⟨w, hw, -⟩ := holds_iff.1 h k values[k] (List.getElem?_eq_getElem hk)
    obtain ⟨j, hj, hlt, -⟩ := readMemory_eq_ok_iff.1 hw
    exact ⟨j, hj, hlt⟩
  obtain ⟨first, hfirst, -⟩ := hcell 0 hpos
  obtain ⟨last, hlast, hlt⟩ := hcell (values.length - 1) (by omega)
  omega

/-! ## One instruction -/

theorem fetchOperands_of_holds (hp : m.pc = .number p) (h : m.Holds p values) :
    fetchOperands values.length m = .done values { m with pc := .number (p + values.length) } := by
  induction values generalizing m p with
  | nil =>
    have hm : ({ m with pc := .number (p + (0 : Nat)) } : Machine) = m := by
      rw [Int.natCast_zero, Int.add_zero, ← hp]
    rw [List.length_nil, hm]
    rfl
  | cons v rest ih =>
    obtain ⟨⟨w, hw, rfl⟩, hrest⟩ := h
    have hfetch : m.fetch = .done w { m with pc := .number (p + 1) } :=
      fetch_eq_done_iff.2 ⟨p, by rw [hp, addressOf_number], hw, rfl⟩
    have hcells : Holds { m with pc := .number (p + 1) } (p + 1) rest := hrest.of_memory rfl
    rw [List.length_cons, fetchOperands, hfetch, Outcome.andThen_done, ih rfl hcells,
      Outcome.andThen_done, show p + 1 + (rest.length : Int) = p + (rest.length + 1 : Nat) by omega]

theorem holds_of_fetchOperands (hp : m.pc = .number p)
    (h : fetchOperands n m = .done values m') : m.Holds p values := by
  induction n generalizing m m' p values with
  | zero =>
    cases h
    exact trivial
  | succ n ih =>
    simp only [fetchOperands, Outcome.andThen_eq_done_iff, Outcome.done.injEq] at h
    obtain ⟨w, m₁, hfetch, rest, m₂, hrest, rfl, -⟩ := h
    obtain ⟨address, ha, hw, rfl⟩ := fetch_eq_done_iff.1 hfetch
    rw [hp, addressOf_number] at ha
    cases ha
    exact ⟨⟨w, hw, rfl⟩, (ih rfl hrest).of_memory rfl⟩

/-- Where a word stands with as many others behind it as its opcode takes, an instruction is decoded
that consists of these words. -/
theorem decode_of_words {raw : Int} {operands : List Int} (hp : addressOf m.pc = .ok p)
    (h : m.Holds p (raw :: operands)) (hlength : operands.length = (Opcode.ofWord raw).operandCount) :
    m.decode = .done ⟨.ofWord raw, operands, m.pc, raw⟩
      { m with pc := .number (p + 1 + operands.length) } := by
  obtain ⟨⟨w, hw, hraw⟩, hrest⟩ := h
  have hfetch : m.fetch = .done w { m with pc := .number (p + 1) } :=
    fetch_eq_done_iff.2 ⟨p, hp, hw, rfl⟩
  have hoperands := fetchOperands_of_holds (m := { m with pc := .number (p + 1) }) rfl
    (hrest.of_memory rfl)
  rw [hlength] at hoperands
  rw [decode, hfetch, Outcome.andThen_done]
  simp only [hraw, hoperands, Outcome.andThen_done, hlength]

/-- Where the words of an instruction stand, it is decoded, with its operands as they are. -/
theorem decode_of_holds (op : Opcode) {operands : List Int} (hp : m.pc = .number p)
    (h : m.Holds p (op.number :: operands)) (hlength : operands.length = op.operandCount) :
    m.decode = .done ⟨op, operands, .number p, op.number⟩
      { m with pc := .number (p + 1 + operands.length) } := by
  have hopcode : Opcode.ofWord op.number = op := by
    rw [Opcode.ofWord, Opcode.ofNumber?_number, Option.getD_some]
  have hwords := decode_of_words (by rw [hp, addressOf_number]) h (by rw [hopcode, hlength])
  rwa [hopcode, hp] at hwords

/-- What is decoded stands in memory word by word, and the counter is moved behind it. -/
theorem holds_of_decode (h : m.decode = .done i m') :
    ∃ p, addressOf m.pc = .ok p ∧ m.Holds p i.words ∧ i.address = m.pc ∧
      i.opcode = .ofWord i.raw ∧ m' = { m with pc := .number (p + 1 + i.operands.length) } := by
  have hlength : i.operands.length = i.opcode.operandCount := length_of_decode h
  obtain ⟨pc, rfl⟩ := frame_of_decode_done h
  obtain ⟨p, hp, hpc⟩ := pc_of_decode h
  have haddress := address_of_decode h
  simp only [decode, Outcome.andThen_eq_done_iff, Outcome.done.injEq] at h
  obtain ⟨w, m₁, hfetch, operands, m₂, hoperands, rfl, -⟩ := h
  obtain ⟨address, ha, hw, rfl⟩ := fetch_eq_done_iff.1 hfetch
  cases hp.symm.trans ha
  have hrest := holds_of_fetchOperands rfl hoperands
  refine ⟨p, hp, ⟨⟨w, hw, rfl⟩, hrest.of_memory rfl⟩, haddress, rfl, ?_⟩
  rw [hlength, show pc = .number (p + 1 + (Opcode.ofWord w.toInt).operandCount) from hpc]

/-! ## Rows of instructions -/

/-- Decoding goes through the instructions, one behind the other, and leaves `m'`. -/
inductive Decodes : Machine → List Instruction → Machine → Prop where
  | nil {m : Machine} : Decodes m [] m
  | cons {m m₁ m' : Machine} {i : Instruction} {is : List Instruction}
      (head : m.decode = .done i m₁) (rest : Decodes m₁ is m') : Decodes m (i :: is) m'

namespace Decodes

/-- A listing has the instructions that decoding goes through, and what comes behind them. -/
theorem listing (h : m.Decodes is m') (n : Nat) :
    m.listing (is.length + n) =
      ({ (m'.listing n).1 with instructions := is ++ (m'.listing n).1.instructions },
        (m'.listing n).2) := by
  induction h with
  | nil => rw [List.length_nil, Nat.zero_add, List.nil_append]
  | @cons m m₁ m' i is head rest ih =>
    rw [List.length_cons, Nat.add_right_comm, Machine.listing, head]
    simp only [ih, List.cons_append]

theorem listing_length (h : m.Decodes is m') : m.listing is.length = (⟨is, none⟩, m') := by
  have hn := h.listing 0
  rw [Nat.add_zero] at hn
  rw [hn, Machine.listing, List.append_nil]

/-- A listing that is asked for more ends where an instruction is not decoded. -/
theorem listing_of_failed {e : Error} (h : m.Decodes is m') (hfailed : m'.decode = .failed e m₁)
    (hn : is.length < n) : m.listing n = (⟨is, some e⟩, m₁) := by
  obtain ⟨k, rfl⟩ : ∃ k, n = is.length + (k + 1) := ⟨n - is.length - 1, by omega⟩
  rw [h.listing, Machine.listing, hfailed, List.append_nil]

/-- Every listing has instructions that decoding goes through. -/
theorem exists_of_listing (n : Nat) (m : Machine) :
    ∃ m', m.Decodes (m.listing n).1.instructions m' := by
  induction n generalizing m with
  | zero => exact ⟨m, .nil⟩
  | succ n ih =>
    rw [Machine.listing]
    cases hd : m.decode with
    | failed e m₁ => exact ⟨m, .nil⟩
    | done i m₁ =>
      obtain ⟨m', hrest⟩ := ih m₁
      exact ⟨m', .cons hd hrest⟩

/-- Decoding goes through the first instructions of a row before it does through the others. -/
theorem take (h : m.Decodes is m') (n : Nat) : ∃ m₁, m.Decodes (is.take n) m₁ := by
  induction h generalizing n with
  | nil => exact ⟨_, by rw [List.take_nil]; exact .nil⟩
  | @cons m m₁ m' i is head rest ih =>
    cases n with
    | zero => exact ⟨m, .nil⟩
    | succ n =>
      obtain ⟨m₂, hrest⟩ := ih n
      exact ⟨m₂, .cons head hrest⟩

theorem frame (h : m.Decodes is m') : ∃ pc, m' = { m with pc := pc } := by
  induction h with
  | @nil m => exact ⟨m.pc, rfl⟩
  | cons head rest ih =>
    obtain ⟨pc, rfl⟩ := frame_of_decode_done head
    exact ih

/-- Nothing else than memory and the counter matters to what is decoded. -/
theorem of_memory {d : Machine} (h : m.Decodes is m') (hd : d.memory = m.memory)
    (hpc : d.pc = m.pc) : d.Decodes is { d with pc := m'.pc } := by
  induction h generalizing d with
  | nil =>
    rw [← hpc]
    exact .nil
  | @cons m m₁ m' i is head rest ih =>
    obtain ⟨p, hp, hwords, haddress, hopcode, rfl⟩ := holds_of_decode head
    have hlength := length_of_decode head
    rw [hopcode] at hlength
    have hdecode := decode_of_words (by rwa [hpc]) (hwords.of_memory hd) hlength
    rw [← hopcode, hpc, ← haddress] at hdecode
    exact .cons hdecode (ih (d := { d with pc := _ }) hd rfl)

/-- The counter stays an integer. -/
theorem pc (h : m.Decodes is m') (hp : m.pc = .number p) : ∃ q, m'.pc = .number q := by
  induction h generalizing p with
  | nil => exact ⟨p, hp⟩
  | cons head rest ih =>
    obtain ⟨address, -, -, -, -, rfl⟩ := holds_of_decode head
    exact ih rfl

/-- The instructions stand in memory one behind the other, word by word. -/
theorem holds (h : m.Decodes is m') (hp : m.pc = .number p) (hq : m'.pc = .number q) :
    m.Holds p (is.flatMap Instruction.words) ∧ Instruction.Laid p is q ∧
      q = p + (is.flatMap Instruction.words).length ∧
      ∀ i ∈ is, i.opcode = .ofWord i.raw ∧ i.operands.length = i.opcode.operandCount := by
  induction h generalizing p with
  | nil =>
    cases hp.symm.trans hq
    refine ⟨trivial, rfl, by simp, ?_⟩
    intro i hi
    cases hi
  | @cons m m₁ m' i is head rest ih =>
    obtain ⟨address, ha, hwords, haddress, hopcode, rfl⟩ := holds_of_decode head
    rw [hp, addressOf_number] at ha
    cases ha
    obtain ⟨hrest, hlaid, hend, hall⟩ := ih rfl hq
    have hlength : (i.words.length : Int) = 1 + i.operands.length := by
      rw [Instruction.words, List.length_cons]
      omega
    rw [List.flatMap_cons]
    refine ⟨?_, ⟨haddress.trans hp, hlaid⟩, ?_, ?_⟩
    · rw [holds_append, hlength, ← Int.add_assoc]
      exact ⟨hwords, hrest.of_memory rfl⟩
    · rw [hend, List.length_append]
      omega
    · intro j hj
      rcases List.mem_cons.1 hj with rfl | hj
      · exact ⟨hopcode, length_of_decode head⟩
      · exact hall j hj

end Decodes

/-! ## To the end of memory -/

/-- The instruction at `p` begins in memory and does not end there. -/
def CutAt (m : Machine) (p : Int) : Prop :=
  ∃ w, m.readMemory p = .ok w ∧ memorySize < p + 1 + (Opcode.ofWord w.toInt).operandCount

/-- At the end of memory, and at an instruction that is cut off there, nothing is decoded. -/
theorem Sized.decode_of_end (h : m.Sized) (hp : m.pc = .number p) (h₀ : 0 ≤ p)
    (hend : p = memorySize ∨ m.CutAt p) :
    m.decode = .failed (.ofCause (.addressOutOfRange (.number memorySize)))
      { m with pc := .number memorySize } := by
  rcases hend with rfl | ⟨w, hw, hcut⟩
  · rw [decode_of_outOfRange hp (.inr (Int.le_refl _)), Error.naming_memorySize, ← hp]
  · exact h.decode_of_cut hp h₀ hw hcut

/-- Decoding goes on until it comes to the end of memory. -/
theorem Sized.exists_decodes (h : m.Sized) (hp : m.pc = .number p) (h₀ : 0 ≤ p)
    (h₁ : p ≤ memorySize) :
    ∃ is q, m.Decodes is { m with pc := .number q } ∧ p + is.length ≤ q ∧ q ≤ memorySize ∧
      (q = memorySize ∨ m.CutAt q) := by
  -- Every instruction has a word at least, so there is less and less memory left.
  generalize hleft : (memorySize - p).toNat = left
  induction left using Nat.strongRecOn generalizing m p with
  | ind left ih =>
    by_cases hend : p = memorySize ∨ m.CutAt p
    · have hm : ({ m with pc := .number p } : Machine) = m := by rw [← hp]
      exact ⟨[], p, by rw [hm]; exact .nil, by simp, h₁, hend⟩
    · rw [not_or] at hend
      obtain ⟨hend, hcut⟩ := hend
      have hlt : p < memorySize := by omega
      obtain ⟨w, hw⟩ := h.readMemory h₀ hlt
      have hfits : p + 1 + (Opcode.ofWord w.toInt).operandCount ≤ memorySize := by
        apply Int.not_lt.1
        intro hcut'
        exact hcut ⟨w, hw, hcut'⟩
      have hdecode := h.decode_of_fits hp h₀ hw hfits
      have hsized : ({ m with
          pc := .number (p + 1 + (Opcode.ofWord w.toInt).operandCount) } : Machine).Sized :=
        ⟨h.memory, h.registers⟩
      have hless : (memorySize - (p + 1 + (Opcode.ofWord w.toInt).operandCount)).toNat < left := by
        omega
      obtain ⟨is, q, hrest, hcount, hq, hend'⟩ := ih _ hless hsized rfl (by omega) hfits rfl
      refine ⟨_ :: is, q, .cons hdecode hrest, ?_, hq, hend'⟩
      rw [List.length_cons]
      omega

/-! ## Programs -/

/-- Where the words of a program stand, decoding goes through its instructions. -/
theorem decodes_of_holds (hp : m.pc = .number p) (h : m.Holds p code.words)
    (hcode : code.Encodable) :
    m.Decodes (code.instructions p) { m with pc := .number (p + code.words.length) } := by
  -- The words of the first statement stand in front of those of the others.
  induction code generalizing m p with
  | nil =>
    have hm : ({ m with pc := .number (p + (0 : Nat)) } : Machine) = m := by
      rw [Int.natCast_zero, Int.add_zero, ← hp]
    rw [Code.words, List.flatMap_nil, List.length_nil, hm]
    exact .nil
  | cons statement code ih =>
    obtain ⟨op, operands⟩ := statement
    have hwords : Code.words ((op, operands) :: code) =
        (op.number :: operands) ++ Code.words code := rfl
    obtain ⟨-, hlength, -⟩ := hcode op operands List.mem_cons_self
    rw [hwords, holds_append] at h
    obtain ⟨hfirst, hrest⟩ := h
    have hbehind : p + ((op.number :: operands).length : Int) = p + 1 + operands.length := by
      rw [List.length_cons]
      omega
    rw [hbehind] at hrest
    have hlater := ih (m := { m with pc := .number (p + 1 + operands.length) }) rfl
      (hrest.of_memory rfl)
      fun op' operands' hmem => hcode op' operands' (List.mem_cons_of_mem _ hmem)
    have hend : p + 1 + (operands.length : Int) + (Code.words code).length =
        p + (Code.words ((op, operands) :: code)).length := by
      rw [hwords, List.length_append]
      omega
    rw [hend] at hlater
    exact .cons (decode_of_holds op hp hfirst hlength) hlater

/-- Words that encode a program are words. -/
theorem word_of_encodable (hcode : code.Encodable) {v : Int} (hv : v ∈ code.words) :
    0 ≤ v ∧ v ≤ 65535 := by
  obtain ⟨⟨op, operands⟩, hmem, hv⟩ := List.mem_flatMap.1 hv
  obtain ⟨hvalid, -, hoperands⟩ := hcode op operands hmem
  rcases List.mem_cons.1 hv with rfl | hv
  · have hnumber : ∀ op : Opcode, op ≠ .invalid → 0 ≤ op.number ∧ op.number ≤ 65535 := by
      intro op
      cases op <;> decide
    exact hnumber op hvalid
  · exact hoperands v hv

/-- Words that are laid over memory stand there from its first cell on. -/
theorem holds_of_overlay {memory : Array Word} {words : List Word}
    (h : m.memory = overlay memory words) (hsize : words.length ≤ memorySize) :
    m.Holds 0 (words.map Word.toInt) := by
  apply holds_iff.2
  intro k v hv
  rw [List.getElem?_map, Option.map_eq_some_iff] at hv
  obtain ⟨w, hw, rfl⟩ := hv
  have hk : k < words.length := (List.getElem?_eq_some_iff.1 hw).1
  rw [Int.zero_add]
  exact ⟨w, readMemory_of_overlay h hw (by omega), rfl⟩

/-- So do integers that are loaded. -/
theorem holds_of_loadWords (hvalues : ∀ v ∈ values, 0 ≤ v ∧ v ≤ 65535)
    (hsize : values.length ≤ memorySize) :
    ∃ memory, m.loadWords values =
        .done (2 * values.length)
          { m with memory := memory, bytesLoaded := 2 * values.length } ∧
      (m.Sized → memory.size = memorySize) ∧
      ∀ m' : Machine, m'.memory = memory → m'.Holds 0 values := by
  obtain ⟨words, rfl⟩ := Image.exists_words hvalues
  rw [List.length_map] at hsize ⊢
  have hlength : (Image.ofWords words).length = 2 * words.length := Image.length_ofWords words
  have hfits : (Image.ofWords words).length ≤ maxImageBytes := by
    rw [hlength]
    exact Nat.mul_le_mul_left 2 hsize
  have hload := Load.perform_of_fits (m := m) (.words (Image.encode?_map_toInt words)) hfits
  refine ⟨(m.install (Image.ofWords words)).memory, ?_,
    fun h => Load.size_install (m := m) h.memory hfits, ?_⟩
  · rw [Machine.install, hlength] at hload
    exact hload
  · intro m' hmemory
    rw [Machine.install, Image.decode_ofWords] at hmemory
    exact holds_of_overlay hmemory hsize

/-! ## Both ways -/

/-- From any cell on, or from behind the last one, decoding without executing comes to the end of
memory after so many instructions and not more than there are cells. Each of them stands behind the
one before it, and their words are the cells that they cover, up to an instruction that is cut off if
there is one. The counter is then at the end of memory, and nothing else has changed.

The other way round, a program that was written down and fits into memory is read back as it was. -/
theorem linear_decoding :
    (∀ (m : Machine) (p : Int), m.Sized → m.pc = .number p → 0 ≤ p → p ≤ 32768 →
      ∃ (is : List Instruction) (q : Int),
        (is.length : Int) ≤ 32768 - p ∧ q ≤ 32768 ∧ Instruction.Laid p is q ∧
        (∀ i ∈ is, i.opcode = .ofWord i.raw ∧ i.operands.length = i.opcode.operandCount) ∧
        is.flatMap Instruction.words = (m.peek p (q - p)).map Word.toInt ∧
        (q = 32768 ∨ m.CutAt q) ∧
        (∀ n ≤ is.length, ∃ pc, m.listing n = (⟨is.take n, none⟩, { m with pc := pc })) ∧
        ∀ n, is.length < n → m.listing n =
          (⟨is, some (.ofCause (.addressOutOfRange (.number 32768)))⟩,
            { m with pc := .number 32768 })) ∧
    ∀ (m : Machine) (code : Code), code.Encodable → code.words.length ≤ 32768 →
      ∃ m₁, m.loadWords code.words = .done (2 * code.words.length) m₁ ∧
        Machine.listing code.length { m₁ with pc := .number 0 } =
          (⟨code.instructions 0, none⟩, { m₁ with pc := .number code.words.length }) := by
  constructor
  · intro m p hsized hp h₀ h₁
    obtain ⟨is, q, hdecodes, hcount, hq, hend⟩ := hsized.exists_decodes hp h₀ h₁
    obtain ⟨hholds, hlaid, hlength, hall⟩ := hdecodes.holds hp rfl
    have hpeek := hholds.peek h₀
    have hwidth : q - p = (is.flatMap Instruction.words).length := by omega
    have hsize : ({ m with pc := .number q } : Machine).Sized := ⟨hsized.memory, hsized.registers⟩
    have hfailed := hsize.decode_of_end rfl (by omega) hend
    refine ⟨is, q, Int.le_sub_left_of_add_le (Int.le_trans hcount hq), hq, hlaid, hall,
      by rw [hwidth, hpeek], hend, ?_, ?_⟩
    · intro n hn
      obtain ⟨m₁, hfirst⟩ := hdecodes.take n
      obtain ⟨pc, rfl⟩ := hfirst.frame
      have hlisting := hfirst.listing_length
      rw [List.length_take, Nat.min_eq_left hn] at hlisting
      exact ⟨pc, hlisting⟩
    · intro n hn
      exact hdecodes.listing_of_failed hfailed hn
  · intro m code hcode hfits
    obtain ⟨memory, hload, -, hholds⟩ :=
      holds_of_loadWords (m := m) (fun v hv => word_of_encodable hcode hv) hfits
    refine ⟨_, hload, ?_⟩
    have hcells : Holds
        { m with memory := memory, bytesLoaded := 2 * code.words.length, pc := .number 0 } 0
        code.words := hholds _ rfl
    have hlisting := (decodes_of_holds rfl hcells hcode).listing_length
    rw [Code.length_instructions, Int.zero_add] at hlisting
    exact hlisting

/-- Eight blank cells in front of the end, and an addition in front of a halt. -/
theorem linear_decoding_blank_and_sum :
    (∃ is : List Instruction, (is.length : Int) ≤ 8 ∧
      ∀ n, is.length < n → Machine.listing n { pc := .number 32760 } =
        (⟨is, some (.ofCause (.addressOutOfRange (.number 32768)))⟩, { pc := .number 32768 })) ∧
    ∃ m₁, Machine.loadWords {} [9, 32768, 32768, 5, 0] = .done 10 m₁ ∧
      Machine.listing 2 { m₁ with pc := .number 0 } =
        (⟨[⟨.add, [32768, 32768, 5], .number 0, 9⟩, ⟨.halt, [], .number 4, 0⟩], none⟩,
          { m₁ with pc := .number 5 }) := by
  constructor
  · have hsized : Machine.Sized { pc := .number 32760 } :=
      ⟨Array.size_replicate, Array.size_replicate⟩
    obtain ⟨is, q, hcount, -, -, -, -, -, -, hend⟩ :=
      linear_decoding.1 _ 32760 hsized rfl (by decide) (by decide)
    exact ⟨is, by omega, hend⟩
  · have hcode : Code.Encodable [(.add, [32768, 32768, 5]), (.halt, [])] := by
      intro op operands hmem
      rcases List.mem_pair.1 hmem with h | h
      · cases h
        decide
      · cases h
        decide
    exact linear_decoding.2 {} _ hcode (by decide)

end Machine

end WordMachine
