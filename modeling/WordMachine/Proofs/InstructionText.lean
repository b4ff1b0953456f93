import Mathlib.Data.List.Basic
import WordMachine.Proofs.Listings
import WordMachine.Proofs.Numerals

/-! # The lines of a listing

What a listing shows of an instruction says which instruction it is, up to its place.

* `Text.eq_of_intercalate_eq`: pieces can be told from the line that they make, if none of them has
  the character in it that separates them.
* `Instruction.arguments_injective`: so operands can be told from how they are written, and
  `Instruction.text_eq_iff` says when two instructions have the same line.
* `Instruction.eq_of_texts`: two rows of decoded instructions that begin at one place and have the same
  lines are the same row.
* `text_unambiguous` is the account of lines, and of the memories that they were decoded from.
-/

namespace WordMachine

/-! ## Lines that break -/

namespace Text

variable {c : Char} {sep u v s t : List Char} {xs ys : List (List Char)}

/-- A line breaks at the first place where a character is, and in no other way. -/
theorem eq_of_append_cons_eq (hu : c ∉ u) (hv : c ∉ v) (h : u ++ c :: s = v ++ c :: t) :
    u = v ∧ s = t := by
  induction u generalizing v with
  | nil =>
    cases v with
    | nil => exact ⟨rfl, List.tail_eq_of_cons_eq h⟩
    | cons d v =>
      cases h
      exact absurd List.mem_cons_self hv
  | cons d u ih =>
    cases v with
    | nil =>
      cases h
      exact absurd List.mem_cons_self hu
    | cons d' v =>
      obtain ⟨rfl, hrest⟩ := List.cons.inj h
      obtain ⟨rfl, rfl⟩ := ih (List.not_mem_of_not_mem_cons hu) (List.not_mem_of_not_mem_cons hv) hrest
      exact ⟨rfl, rfl⟩

/-- Pieces that do not have a character in them can be told from the line in which a separator that
begins with it stands between them. -/
theorem eq_of_intercalate_eq (hxs : ∀ x ∈ xs, c ∉ x) (hys : ∀ y ∈ ys, c ∉ y) (hx : xs ≠ [])
    (hy : ys ≠ []) (h : (c :: sep).intercalate xs = (c :: sep).intercalate ys) : xs = ys := by
  induction xs generalizing ys with
  | nil => exact absurd rfl hx
  | cons x xs ih =>
    obtain ⟨y, ys, rfl⟩ := List.exists_cons_of_ne_nil hy
    have hcx : c ∉ x := hxs x List.mem_cons_self
    have hcy : c ∉ y := hys y List.mem_cons_self
    -- The line of one piece has no separator in it.
    cases xs with
    | nil =>
      cases ys with
      | nil => simpa using h
      | cons y₂ ys =>
        rw [List.intercalate_singleton, List.intercalate_cons_cons] at h
        rw [h] at hcx
        simp at hcx
    | cons x₂ xs =>
      cases ys with
      | nil =>
        rw [List.intercalate_singleton, List.intercalate_cons_cons] at h
        rw [← h] at hcy
        simp at hcy
      | cons y₂ ys =>
        rw [List.intercalate_cons_cons, List.intercalate_cons_cons, List.append_assoc,
          List.append_assoc, List.cons_append, List.cons_append] at h
        obtain ⟨rfl, hrest⟩ := eq_of_append_cons_eq hcx hcy h
        have hlater := ih (fun x' hx' => hxs x' (List.mem_cons_of_mem x hx'))
          (fun y' hy' => hys y' (List.mem_cons_of_mem x hy')) (by simp) (by simp)
          (List.append_cancel_left hrest)
        rw [hlater]

end Text

/-! ## One instruction -/

/-- What a line begins with, up to its first blank. -/
def Opcode.keyword : Opcode → String
  | .invalid => "<invalid"
  | op => op.mnemonic

/-- That is the mnemonic, unless the word starts no instruction. -/
theorem Opcode.keyword_of_valid {op : Opcode} (h : op ≠ .invalid) : op.keyword = op.mnemonic := by
  cases op with
  | invalid => exact absurd rfl h
  | _ => rfl

/-- There is no blank in it. -/
theorem Opcode.not_mem_keyword (op : Opcode) : ' ' ∉ op.keyword.toList := by
  cases op <;> decide

theorem Opcode.keyword_injective : Function.Injective Opcode.keyword := by
  have hkeywords : ∀ op ∈ Opcode.all, ∀ op' ∈ Opcode.all, op.keyword = op'.keyword → op = op' := by
    decide
  intro op op' h
  exact hkeywords op op.mem_all op' op'.mem_all h

namespace Instruction

variable {i j : Instruction} {is js : List Instruction} {p q q' : Int}

/-- How operands are written behind a mnemonic. -/
def arguments : List Int → String
  | [] => ""
  | operands => " " ++ ", ".intercalate (operands.map toString)

/-- The line of an instruction is its mnemonic with its operands. -/
theorem text_of_valid (h : i.opcode ≠ .invalid) :
    i.text = i.opcode.keyword ++ arguments i.operands := by
  rw [Opcode.keyword_of_valid h]
  unfold text
  split
  · rename_i hinvalid
    exact absurd hinvalid h
  · rename_i hnone _
    rw [hnone, arguments, String.append_empty]
  · rename_i hsome
    rw [arguments, String.append_assoc]
    exact hsome

/-- The line of a word that starts no instruction shows the word. -/
theorem text_of_invalid (h : i.opcode = .invalid) :
    i.text = i.opcode.keyword ++ (" " ++ (toString i.raw ++ ">")) := by
  have hline : i.text = Opcode.keyword .invalid ++ " " ++ toString i.raw ++ ">" := by
    rw [text, h]
    rfl
  rw [hline, h, String.append_assoc, String.append_assoc]

/-- The line says which opcode it is that the instruction has. -/
theorem opcode_eq_of_text_eq (h : i.text = j.text) : i.opcode = j.opcode := by
  have hkeyword : ∀ i : Instruction,
      i.text.toList.takeWhile (· != ' ') = i.opcode.keyword.toList := by
    intro i
    have hblank : ∀ c ∈ i.opcode.keyword.toList, (c != ' ') = true :=
      fun c hc => bne_iff_ne.2 (ne_of_mem_of_not_mem hc i.opcode.not_mem_keyword)
    by_cases hi : i.opcode = .invalid
    · rw [text_of_invalid hi, String.toList_append, List.takeWhile_append_of_pos hblank]
      simp
    · rw [text_of_valid hi, String.toList_append, List.takeWhile_append_of_pos hblank]
      cases i.operands with
      | nil => simp [arguments]
      | cons v operands => simp [arguments]
  apply Opcode.keyword_injective
  rw [← String.toList_inj, ← hkeyword i, ← hkeyword j, h]

/-- Operands can be told from how they are written. -/
theorem arguments_injective : Function.Injective arguments := by
  have hcomma : ∀ values : List Int, ∀ x ∈ (values.map toString).map String.toList, ',' ∉ x := by
    intro values x hx
    rw [List.map_map] at hx
    obtain ⟨v, -, rfl⟩ := List.mem_map.1 hx
    exact Text.not_mem_toString_int rfl (by decide) v
  intro xs ys h
  have hempty : ∀ (v : Int) (rest : List Int), arguments (v :: rest) ≠ arguments [] := by
    intro v rest heq
    have hlist := congrArg String.toList heq
    simp [arguments] at hlist
  cases xs with
  | nil =>
    cases ys with
    | nil => rfl
    | cons y ys => exact absurd h.symm (hempty y ys)
  | cons x xs =>
    cases ys with
    | nil => exact absurd h (hempty x xs)
    | cons y ys =>
      have hline := congrArg String.toList ((String.append_right_inj " ").1 h)
      rw [String.toList_intercalate, String.toList_intercalate] at hline
      have hpieces := Text.eq_of_intercalate_eq (hcomma _) (hcomma _) (by simp) (by simp) hline
      rw [List.map_inj_right fun _ _ => String.toList_inj.1,
        List.map_inj_right fun _ _ => Text.toString_int_inj.1] at hpieces
      exact hpieces

/-- Two instructions have one line exactly if they have the same opcode and operands, or come from the
same word that starts no instruction. -/
theorem text_eq_iff :
    i.text = j.text ↔
      (i.opcode ≠ .invalid ∧ j.opcode ≠ .invalid ∧ i.opcode = j.opcode ∧ i.operands = j.operands) ∨
        (i.opcode = .invalid ∧ j.opcode = .invalid ∧ i.raw = j.raw) := by
  constructor
  · intro h
    have hopcode := opcode_eq_of_text_eq h
    by_cases hi : i.opcode = .invalid
    · right
      have hj : j.opcode = .invalid := hopcode ▸ hi
      rw [text_of_invalid hi, text_of_invalid hj, hopcode, String.append_right_inj,
        String.append_right_inj, String.append_left_inj, Text.toString_int_inj] at h
      exact ⟨hi, hj, h⟩
    · left
      have hj : j.opcode ≠ .invalid := hopcode ▸ hi
      rw [text_of_valid hi, text_of_valid hj, hopcode, String.append_right_inj] at h
      exact ⟨hi, hj, hopcode, arguments_injective h⟩
  · rintro (⟨hi, hj, hopcode, hoperands⟩ | ⟨hi, hj, hraw⟩)
    · rw [text_of_valid hi, text_of_valid hj, hopcode, hoperands]
    · rw [text_of_invalid hi, text_of_invalid hj, hi, hj, hraw]

/-! ## Rows of instructions -/

/-- Of two instructions that were read from words, one line leaves nothing open but the address. -/
theorem eq_of_text_eq (hi : i.opcode = .ofWord i.raw ∧ i.operands.length = i.opcode.operandCount)
    (hj : j.opcode = .ofWord j.raw ∧ j.operands.length = j.opcode.operandCount)
    (haddress : i.address = j.address) (h : i.text = j.text) : i = j := by
  have hfields : i.opcode = j.opcode ∧ i.operands = j.operands ∧ i.raw = j.raw := by
    rcases text_eq_iff.1 h with ⟨hi', hj', hopcode, hoperands⟩ | ⟨hi', hj', hraw⟩
    · -- An instruction was read from the number of its opcode.
      rw [hi.1] at hi'
      rw [hj.1] at hj'
      have hraw : i.raw = j.raw := by
        rw [← Opcode.number_ofWord hi', ← Opcode.number_ofWord hj', ← hi.1, ← hj.1, hopcode]
      exact ⟨hopcode, hoperands, hraw⟩
    · -- A word that starts none takes no operands.
      have hnone : i.operands = [] := List.eq_nil_of_length_eq_zero (by rw [hi.2, hi']; rfl)
      have hnone' : j.operands = [] := List.eq_nil_of_length_eq_zero (by rw [hj.2, hj']; rfl)
      exact ⟨hi'.trans hj'.symm, hnone.trans hnone'.symm, hraw⟩
  obtain ⟨op, operands, address, raw⟩ := i
  obtain ⟨op', operands', address', raw'⟩ := j
  obtain ⟨rfl, rfl, rfl⟩ := hfields
  cases haddress
  rfl

/-- So two rows of them that begin at one place and have the same lines are one row. -/
theorem eq_of_texts
    (his : ∀ i ∈ is, i.opcode = .ofWord i.raw ∧ i.operands.length = i.opcode.operandCount)
    (hjs : ∀ j ∈ js, j.opcode = .ofWord j.raw ∧ j.operands.length = j.opcode.operandCount)
    (hlaid : Laid p is q) (hlaid' : Laid p js q') (h : is.map text = js.map text) : is = js := by
  induction is generalizing js p with
  | nil => exact (List.map_eq_nil_iff.1 h.symm).symm
  | cons i is ih =>
    cases js with
    | nil => cases h
    | cons j js =>
      obtain ⟨hline, hlines⟩ := List.cons.inj h
      have hfirst : i = j := eq_of_text_eq (his i List.mem_cons_self) (hjs j List.mem_cons_self)
        (hlaid.1.trans hlaid'.1.symm) hline
      subst hfirst
      -- The same operands follow, so the others begin at one place too.
      have hrest := ih (fun i' hi' => his i' (List.mem_cons_of_mem i hi'))
        (fun j' hj' => hjs j' (List.mem_cons_of_mem i hj')) hlaid.2 hlaid'.2 hlines
      rw [hrest]

end Instruction

/-! ## Lines and memories -/

namespace Machine

variable {m m₁ m₂ : Machine} {p : Int} {values : List Int}

/-- Where two memories hold the same integers, the same words are read. -/
theorem Holds.exists_readMemory (h₁ : m₁.Holds p values) (h₂ : m₂.Holds p values) {a : Int}
    (ha : p ≤ a) (ha' : a < p + values.length) :
    ∃ w, m₁.readMemory a = .ok w ∧ m₂.readMemory a = .ok w := by
  obtain ⟨k, rfl⟩ := Int.le.dest ha
  have hk : k < values.length := by omega
  obtain ⟨w₁, hw₁, hv₁⟩ := holds_iff.1 h₁ k values[k] (List.getElem?_eq_getElem hk)
  obtain ⟨w₂, hw₂, hv₂⟩ := holds_iff.1 h₂ k values[k] (List.getElem?_eq_getElem hk)
  have hsame : w₁ = w₂ := by
    have hsome := Word.ofInt?_eq_some_iff.2 (hv₁.trans hv₂.symm)
    rw [Word.ofInt?_toInt] at hsome
    exact (Option.some.inj hsome).symm
  exact ⟨w₁, hw₁, hsame ▸ hw₂⟩

/-- The instructions of a listing stand in memory one behind the other, from the counter on. -/
theorem holds_listing (hp : m.pc = .number p) (n : Nat) :
    ∃ q, Instruction.Laid p (m.listing n).1.instructions q ∧
      q = p + ((m.listing n).1.instructions.flatMap Instruction.words).length ∧
      m.Holds p ((m.listing n).1.instructions.flatMap Instruction.words) ∧
      ∀ i ∈ (m.listing n).1.instructions,
        i.opcode = .ofWord i.raw ∧ i.operands.length = i.opcode.operandCount := by
  obtain ⟨m', hdecodes⟩ := Decodes.exists_of_listing n m
  obtain ⟨q, hq⟩ := hdecodes.pc hp
  obtain ⟨hholds, hlaid, hend, hall⟩ := hdecodes.holds hp hq
  exact ⟨q, hlaid, hend, hholds, hall⟩

/-- Two instructions with any operands have one line exactly if they have the same opcode and the same
operands, or come from the same word that starts no instruction.

So if two memories are listed from one place on, and their lists have the same lines, then they have
the same instructions at the same places, and in every cell from the first of their words to the last
both memories hold the same word. -/
theorem text_unambiguous :
    (∀ i j : Instruction, i.text = j.text ↔
      (i.isValid = true ∧ j.isValid = true ∧ i.opcode = j.opcode ∧ i.operands = j.operands) ∨
        (i.isValid = false ∧ j.isValid = false ∧ i.raw = j.raw)) ∧
    ∀ (m₁ m₂ : Machine) (p : Int) (n₁ n₂ : Nat), m₁.pc = .number p → m₂.pc = .number p →
      (m₁.listing n₁).1.instructions.map Instruction.text =
        (m₂.listing n₂).1.instructions.map Instruction.text →
      (m₁.listing n₁).1.instructions = (m₂.listing n₂).1.instructions ∧
      ∃ q, Instruction.Laid p (m₁.listing n₁).1.instructions q ∧
        ∀ a, p ≤ a → a < q → ∃ w, m₁.readMemory a = .ok w ∧ m₂.readMemory a = .ok w := by
  constructor
  · intro i j
    simp only [Instruction.isValid, bne_iff_ne, bne_eq_false_iff_eq]
    exact Instruction.text_eq_iff
  · intro m₁ m₂ p n₁ n₂ hp₁ hp₂ htexts
    obtain ⟨q, hlaid, hend, hholds₁, hall₁⟩ := holds_listing hp₁ n₁
    obtain ⟨q₂, hlaid₂, -, hholds₂, hall₂⟩ := holds_listing hp₂ n₂
    have hsame := Instruction.eq_of_texts hall₁ hall₂ hlaid hlaid₂ htexts
    rw [← hsame] at hholds₂
    refine ⟨hsame, q, hlaid, fun a ha ha' => ?_⟩
    exact hholds₁.exists_readMemory hholds₂ ha (hend ▸ ha')

/-- One operand is not two; and two memories with the same two instructions agree on a cell of them,
whatever stands behind. -/
theorem text_unambiguous_ten_and_sum :
    Instruction.text ⟨.add, [10], .number 0, 9⟩ ≠ Instruction.text ⟨.add, [1, 0], .number 0, 9⟩ ∧
    let m₁ : Machine := { memory := #[9, 32768, 1, 2, 0, 77] }
    let m₂ : Machine := { memory := #[9, 32768, 1, 2, 0] }
    m₁.pc = .number 0 ∧ m₂.pc = .number 0 ∧
      (m₁.listing 2).1.instructions.map Instruction.text =
        (m₂.listing 9).1.instructions.map Instruction.text ∧
      ∃ w, m₁.readMemory 4 = .ok w ∧ m₂.readMemory 4 = .ok w := by
  constructor
  · intro h
    rcases (text_unambiguous.1 _ _).1 h with ⟨-, -, -, hoperands⟩ | ⟨hinvalid, -, -⟩
    · cases hoperands
    · cases hinvalid
  · intro m₁ m₂
    have hrow : (m₁.listing 2).1.instructions =
        [⟨.add, [32768, 1, 2], .number 0, 9⟩, ⟨.halt, [], .number 4, 0⟩] := by decide
    have hrow₂ : (m₂.listing 9).1.instructions = (m₁.listing 2).1.instructions := by decide
    have htexts : (m₁.listing 2).1.instructions.map Instruction.text =
        (m₂.listing 9).1.instructions.map Instruction.text := by rw [hrow₂]
    obtain ⟨-, q, hlaid, hcells⟩ := text_unambiguous.2 m₁ m₂ 0 2 9 rfl rfl htexts
    rw [hrow] at hlaid
    obtain ⟨-, -, rfl⟩ := hlaid
    exact ⟨rfl, rfl, htexts, hcells 4 (by decide) (by decide)⟩

end Machine

end WordMachine
