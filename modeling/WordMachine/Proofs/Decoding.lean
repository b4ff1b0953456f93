import WordMachine.Decode
import WordMachine.Proofs.Storage

/-! # What decoding reads and where it ends

* On any machine decoding moves the counter and changes nothing else (`machine_decode`).
* On a machine of full size it is known in advance whether an instruction is cut off by the end of
  memory (`Sized.decode_of_cut`), and which cells it consists of if it is not
  (`Sized.decode_of_fits`).
-/

namespace WordMachine.Machine

variable {m m' : Machine} {p : Int} {i : Instruction} {e : Error}

/-! ## Any machine -/

theorem machine_fetch (m : Machine) : ∃ pc, m.fetch.machine = { m with pc := pc } := by
  cases h : m.fetch with
  | done w m' =>
    rcases fetch_eq_done_iff.1 h with ⟨address, -, -, rfl⟩
    exact ⟨_, rfl⟩
  | failed e m' =>
    rw [fetch_eq_failed h]
    exact ⟨m.pc, rfl⟩

/-- What moves the counter, followed by something else that does, moves the counter. -/
theorem machine_andThen {α β : Type} {o : Outcome α} {f : α → Machine → Outcome β}
    (ho : ∃ pc, o.machine = { m with pc := pc })
    (hf : ∀ a m₁, ∃ pc, (f a m₁).machine = { m₁ with pc := pc }) :
    ∃ pc, (o.andThen f).machine = { m with pc := pc } := by
  rcases ho with ⟨pc, hpc⟩
  cases o with
  | failed e m₁ => exact ⟨pc, hpc⟩
  | done a m₁ =>
    rcases hf a m₁ with ⟨pc', hpc'⟩
    refine ⟨pc', ?_⟩
    rw [Outcome.andThen_done, hpc', show m₁ = { m with pc := pc } from hpc]

theorem machine_fetchOperands (n : Nat) (m : Machine) :
    ∃ pc, (fetchOperands n m).machine = { m with pc := pc } := by
  induction n generalizing m with
  | zero => exact ⟨m.pc, rfl⟩
  | succ n ih =>
    apply machine_andThen (machine_fetch m)
    intro w m₁
    exact machine_andThen (ih m₁) fun rest m₂ => ⟨m₂.pc, rfl⟩

/-- Decoding moves the counter, whether it succeeds or not, and changes nothing else. -/
theorem machine_decode (m : Machine) : ∃ pc, m.decode.machine = { m with pc := pc } := by
  apply machine_andThen (machine_fetch m)
  intro w m₁
  exact machine_andThen (machine_fetchOperands _ m₁) fun operands m₂ => ⟨m₂.pc, rfl⟩

theorem frame_of_decode_done (h : m.decode = .done i m') : ∃ pc, m' = { m with pc := pc } := by
  rcases machine_decode m with ⟨pc, hpc⟩
  rw [h] at hpc
  exact ⟨pc, hpc⟩

theorem frame_of_decode_failed (h : m.decode = .failed e m') :
    ∃ pc, m' = { m with pc := pc } := by
  rcases machine_decode m with ⟨pc, hpc⟩
  rw [h] at hpc
  exact ⟨pc, hpc⟩

/-- So decoding changes no source and no cell. -/
theorem resolve_of_decode (h : m.decode = .done i m') (operand : Int) :
    m'.resolve operand = m.resolve operand := by
  rcases frame_of_decode_done h with ⟨pc, rfl⟩
  rfl

theorem readMemory_of_decode (h : m.decode = .done i m') (address : Int) :
    m'.readMemory address = m.readMemory address := by
  rcases frame_of_decode_done h with ⟨pc, rfl⟩
  rfl

/-- The counter of a decoded instruction is its address. -/
theorem address_of_decode (h : m.decode = .done i m') : i.address = m.pc := by
  simp only [decode, Outcome.andThen_eq_done_iff, Outcome.done.injEq] at h
  rcases h with ⟨w, m₁, -, operands, m₂, -, rfl, -⟩
  rfl

theorem length_of_fetchOperands {n : Nat} {operands : List Int}
    (h : fetchOperands n m = .done operands m') : operands.length = n := by
  induction n generalizing m m' operands with
  | zero =>
    cases h
    rfl
  | succ n ih =>
    simp only [fetchOperands, Outcome.andThen_eq_done_iff, Outcome.done.injEq] at h
    rcases h with ⟨w, m₁, -, rest, m₂, hrest, rfl, -⟩
    rw [List.length_cons, ih hrest]

/-- A decoded instruction has as many operands as its opcode takes. -/
theorem length_of_decode (h : m.decode = .done i m') :
    i.operands.length = i.opcode.operandCount := by
  simp only [decode, Outcome.andThen_eq_done_iff, Outcome.done.injEq] at h
  rcases h with ⟨w, m₁, -, operands, m₂, hoperands, rfl, -⟩
  exact length_of_fetchOperands hoperands

theorem pc_of_fetchOperands {n : Nat} {operands : List Int} (hp : m.pc = .number p)
    (h : fetchOperands n m = .done operands m') : m'.pc = .number (p + n) := by
  induction n generalizing m m' operands p with
  | zero =>
    cases h
    rw [hp, Int.natCast_zero, Int.add_zero]
  | succ n ih =>
    simp only [fetchOperands, Outcome.andThen_eq_done_iff, Outcome.done.injEq] at h
    rcases h with ⟨w, m₁, hfetch, rest, m₂, hrest, -, rfl⟩
    rcases fetch_eq_done_iff.1 hfetch with ⟨address, ha, -, rfl⟩
    rw [hp, addressOf_number] at ha
    cases ha
    rw [ih rfl hrest, Datum.number.injEq]
    omega

/-- The counter is moved behind the operands. -/
theorem pc_of_decode (h : m.decode = .done i m') :
    ∃ address, addressOf m.pc = .ok address ∧
      m'.pc = .number (address + 1 + i.opcode.operandCount) := by
  simp only [decode, Outcome.andThen_eq_done_iff, Outcome.done.injEq] at h
  rcases h with ⟨w, m₁, hfetch, operands, m₂, hoperands, rfl, rfl⟩
  rcases fetch_eq_done_iff.1 hfetch with ⟨address, ha, -, rfl⟩
  exact ⟨address, ha, pc_of_fetchOperands rfl hoperands⟩

theorem words_of_fetchOperands {n : Nat} {operands : List Int}
    (h : fetchOperands n m = .done operands m') : ∃ ws : List Word, operands = ws.map Word.toInt := by
  induction n generalizing m m' operands with
  | zero =>
    cases h
    exact ⟨[], rfl⟩
  | succ n ih =>
    simp only [fetchOperands, Outcome.andThen_eq_done_iff, Outcome.done.injEq] at h
    rcases h with ⟨w, m₁, -, rest, m₂, hrest, rfl, -⟩
    rcases ih hrest with ⟨ws, rfl⟩
    exact ⟨w :: ws, rfl⟩

/-- A decoded instruction consists of words. -/
theorem words_of_decode (h : m.decode = .done i m') : ∃ ws : List Word, i.words = ws.map Word.toInt := by
  simp only [decode, Outcome.andThen_eq_done_iff, Outcome.done.injEq] at h
  rcases h with ⟨w, m₁, -, operands, m₂, hoperands, rfl, -⟩
  rcases words_of_fetchOperands hoperands with ⟨ws, rfl⟩
  exact ⟨w :: ws, rfl⟩

/-- So an error can name each of them. -/
theorem isWritable_of_decode (h : m.decode = .done i m') :
    ∀ a ∈ i.words, Text.isWritable a = true := by
  intro a ha
  rcases words_of_decode h with ⟨ws, hws⟩
  rw [hws] at ha
  rcases List.mem_map.1 ha with ⟨w, -, rfl⟩
  exact Error.isWritable_of_bounds w.toInt_nonneg w.toInt_le

/-- Nothing but the address of a missing word makes decoding fail, though that address may have too
many digits to be named. -/
theorem error_of_fetch (h : m.fetch = .failed e m') :
    e = .notNumber ∨ e = .missingCell ∨ e = .tooManyDigits ∨
      ∃ d, e = .ofCause (.addressOutOfRange d) := by
  simp only [fetch, given_eq_failed_iff, reduceCtorEq, and_false, exists_false, or_false] at h
  rcases h with ⟨he, -⟩ | ⟨address, -, he, -⟩
  · unfold addressOf at he
    split at he
    · cases he
    · split at he
      · cases he
        exact .inr (.inr (.inr ⟨_, rfl⟩))
      · cases he
        exact .inl rfl
  · rcases readMemory_eq_error he with ⟨-, rfl⟩ | ⟨rfl, -⟩
    · rcases Error.naming_cases .addressOutOfRange address with hname | hname
      · exact .inr (.inr (.inr ⟨_, hname⟩))
      · exact .inr (.inr (.inl hname))
    · exact .inr (.inl rfl)

theorem error_of_fetchOperands {n : Nat} (h : fetchOperands n m = .failed e m') :
    e = .notNumber ∨ e = .missingCell ∨ e = .tooManyDigits ∨
      ∃ d, e = .ofCause (.addressOutOfRange d) := by
  induction n generalizing m with
  | zero => cases h
  | succ n ih =>
    simp only [fetchOperands, Outcome.andThen_eq_failed_iff, reduceCtorEq, and_false,
      exists_false, or_false] at h
    rcases h with h | ⟨w, m₁, -, h⟩
    · exact error_of_fetch h
    · exact ih h

theorem error_of_decode (h : m.decode = .failed e m') :
    e = .notNumber ∨ e = .missingCell ∨ e = .tooManyDigits ∨
      ∃ d, e = .ofCause (.addressOutOfRange d) := by
  simp only [decode, Outcome.andThen_eq_failed_iff, reduceCtorEq, and_false, exists_false,
    or_false] at h
  rcases h with h | ⟨w, m₁, -, h⟩
  · exact error_of_fetch h
  · exact error_of_fetchOperands h

/-! ## Cells in a row -/

/-- No cells are no words. -/
@[simp] theorem peek_zero (m : Machine) (p : Int) : m.peek p 0 = [] := by
  simp [peek]

/-- Cells in a row are the first of them and those behind it. -/
theorem peek_succ {w : Word} (h₀ : 0 ≤ p) (hw : m.readMemory p = .ok w) (n : Nat) :
    m.peek p (n + 1 : Nat) = w :: m.peek (p + 1) n := by
  rcases readMemory_eq_ok_iff.1 hw with ⟨k, rfl, -, hk⟩
  have hstart : ((k : Int) + 1).toNat = k + 1 := by omega
  have hstop : ((k : Int) + (n + 1 : Nat)).toNat = k + 1 + n := by omega
  have hstop' : ((k : Int) + 1 + n).toNat = k + 1 + n := by omega
  rcases Array.getElem?_eq_some_iff.1 hk with ⟨hlt, rfl⟩
  simp only [peek, hstart, hstop, hstop', Int.toNat_natCast, Array.toList_extract,
    List.extract_eq_take_drop]
  rw [List.drop_eq_getElem_cons (by simpa using hlt), show k + 1 + n - k = n + 1 by omega,
    List.take_succ_cons, Array.getElem_toList, show k + 1 + n - (k + 1) = n by omega]

/-- A machine of full size has as many cells in a row as fit below the end of memory. -/
theorem Sized.length_peek (h : m.Sized) (h₀ : 0 ≤ p) {n : Nat} (hn : p + n ≤ memorySize) :
    (m.peek p n).length = n := by
  simp only [peek, Array.length_toList, Array.size_extract, h.memory]
  omega

/-! ## Machines of full size -/

/-- Operands that end before memory does are read as they stand. -/
theorem Sized.fetchOperands_of_fits (h : m.Sized) (hp : m.pc = .number p) (h₀ : 0 ≤ p) {n : Nat}
    (hn : p + n ≤ memorySize) :
    fetchOperands n m =
      .done ((m.peek p n).map Word.toInt) { m with pc := .number (p + n) } := by
  induction n generalizing m p with
  | zero =>
    have hm : ({ m with pc := .number (p + (0 : Nat)) } : Machine) = m := by
      rw [Int.natCast_zero, Int.add_zero, ← hp]
    rw [hm]
    simp [fetchOperands]
  | succ n ih =>
    rcases h.fetch hp h₀ (by omega) with ⟨w, hw, hfetch⟩
    -- The other operands are read from the cell behind the first one.
    have hrest := ih (m := { m with pc := .number (p + 1) }) ⟨h.memory, h.registers⟩ rfl
      (by omega) (by omega)
    rw [fetchOperands, hfetch, Outcome.andThen_done, hrest, Outcome.andThen_done,
      peek_succ h₀ hw, List.map_cons, show p + 1 + (n : Int) = p + (n + 1 : Nat) by omega]
    rfl

/-- Operands that do not are not read, and the counter stays at the end. -/
theorem Sized.fetchOperands_of_cut (h : m.Sized) (hp : m.pc = .number p) (h₀ : 0 ≤ p)
    (h₁ : p ≤ memorySize) {n : Nat} (hn : memorySize < p + n) :
    fetchOperands n m = .failed (.ofCause (.addressOutOfRange (.number memorySize)))
      { m with pc := .number memorySize } := by
  induction n generalizing m p with
  | zero => omega
  | succ n ih =>
    -- Either this operand is still there, and a later one is not, or the end is reached.
    rcases Int.lt_or_eq_of_le h₁ with hlt | rfl
    · rcases h.fetch hp h₀ hlt with ⟨w, -, hfetch⟩
      have hrest := ih (m := { m with pc := .number (p + 1) }) ⟨h.memory, h.registers⟩ rfl
        (by omega) (by omega) (by omega)
      rw [fetchOperands, hfetch, Outcome.andThen_done, hrest, Outcome.andThen_failed]
    · rw [fetchOperands, fetch_of_outOfRange hp (.inr (Int.le_refl _)), Outcome.andThen_failed,
        Error.naming_memorySize, ← hp]

/-- Where no cell is, nothing is decoded. -/
theorem decode_of_outOfRange (hp : m.pc = .number p) (h : p < 0 ∨ memorySize ≤ p) :
    m.decode = .failed (.naming .addressOutOfRange p) m := by
  rw [decode, fetch_of_outOfRange hp h, Outcome.andThen_failed]

/-- An instruction that ends before memory does consists of the cells from the counter on. -/
theorem Sized.decode_of_fits (h : m.Sized) (hp : m.pc = .number p) (h₀ : 0 ≤ p) {w : Word}
    (hw : m.readMemory p = .ok w)
    (hn : p + 1 + (Opcode.ofWord w.toInt).operandCount ≤ memorySize) :
    m.decode = .done
      { opcode := Opcode.ofWord w.toInt
        operands := (m.peek (p + 1) (Opcode.ofWord w.toInt).operandCount).map Word.toInt
        address := m.pc
        raw := w.toInt }
      { m with pc := .number (p + 1 + (Opcode.ofWord w.toInt).operandCount) } := by
  rcases h.fetch hp h₀ (by omega) with ⟨w', hw', hfetch⟩
  cases hw.symm.trans hw'
  -- The first word says how many operands follow it.
  have hoperands := Sized.fetchOperands_of_fits (m := { m with pc := .number (p + 1) })
    ⟨h.memory, h.registers⟩ rfl (by omega) hn
  rw [decode, hfetch, Outcome.andThen_done]
  simp only [hoperands, Outcome.andThen_done, peek]

/-- An instruction that does not is not decoded, and the counter stays at the end. -/
theorem Sized.decode_of_cut (h : m.Sized) (hp : m.pc = .number p) (h₀ : 0 ≤ p) {w : Word}
    (hw : m.readMemory p = .ok w)
    (hn : memorySize < p + 1 + (Opcode.ofWord w.toInt).operandCount) :
    m.decode = .failed (.ofCause (.addressOutOfRange (.number memorySize)))
      { m with pc := .number memorySize } := by
  rcases readMemory_eq_ok_iff.1 hw with ⟨k, hk, hlt, -⟩
  rcases h.fetch hp h₀ (by omega) with ⟨w', hw', hfetch⟩
  cases hw.symm.trans hw'
  have hoperands := Sized.fetchOperands_of_cut (m := { m with pc := .number (p + 1) })
    ⟨h.memory, h.registers⟩ rfl (by omega) (by omega) hn
  rw [decode, hfetch, Outcome.andThen_done]
  simp only [hoperands, Outcome.andThen_failed]

/-- An instruction with one operand consists of two cells. -/
theorem Sized.decode_one (h : m.Sized) (hp : m.pc = .number p) (h₀ : 0 ≤ p) {w x : Word}
    (hw : m.readMemory p = .ok w) (hcount : (Opcode.ofWord w.toInt).operandCount = 1)
    (hx : m.readMemory (p + 1) = .ok x) :
    m.decode = .done ⟨Opcode.ofWord w.toInt, [x.toInt], m.pc, w.toInt⟩
      { m with pc := .number (p + 2) } := by
  rcases readMemory_eq_ok_iff.1 hx with ⟨k, hk, hlt, -⟩
  have hpeek : m.peek (p + 1) (1 : Nat) = [x] := by
    have hone := peek_succ (by omega) hx 0
    rwa [Int.natCast_zero, peek_zero] at hone
  have hd := h.decode_of_fits hp h₀ hw (by omega)
  have hbehind : p + 1 + ((1 : Nat) : Int) = p + 2 := by omega
  rw [hcount, hpeek, hbehind] at hd
  exact hd

/-- What a success says: the instruction has the length of its opcode and ends within memory. -/
theorem Sized.decode_eq_done (h : m.Sized) (hp : m.pc = .number p) (hd : m.decode = .done i m') :
    0 ≤ p ∧ p + 1 + i.opcode.operandCount ≤ memorySize ∧
      i.operands.length = i.opcode.operandCount ∧
      m' = { m with pc := .number (p + 1 + i.opcode.operandCount) } := by
  by_cases hrange : p < 0 ∨ memorySize ≤ p
  · rw [decode_of_outOfRange hp hrange] at hd
    cases hd
  · have hread : ∃ w, m.readMemory p = .ok w := h.readMemory (by omega) (by omega)
    rcases hread with ⟨w, hw⟩
    by_cases hn : p + 1 + (Opcode.ofWord w.toInt).operandCount ≤ memorySize
    · rw [h.decode_of_fits hp (by omega) hw hn] at hd
      cases hd
      refine ⟨by omega, hn, ?_, rfl⟩
      rw [List.length_map, h.length_peek (by omega) hn]
    · rw [h.decode_of_cut hp (by omega) hw (by omega)] at hd
      cases hd

/-- A call consists of two words, and the counter is then the address that it saves. -/
theorem Sized.decode_call (h : m.Sized) (hp : m.pc = .number p) (hd : m.decode = .done i m')
    (op : i.opcode = .call) :
    0 ≤ p ∧ p + 2 ≤ memorySize ∧ m' = { m with pc := .number (p + 2) } := by
  rcases h.decode_eq_done hp hd with ⟨h₀, hend, -, rfl⟩
  have hcount : i.opcode.operandCount = 1 := by
    rw [op]
    rfl
  rw [hcount] at hend ⊢
  have hbehind : p + 1 + ((1 : Nat) : Int) = p + 2 := by omega
  rw [hbehind] at hend ⊢
  exact ⟨h₀, hend, rfl⟩

/-- What a failure says: it is about the address that is out of range, and the counter is there. That
is the counter itself, or the end of memory if an instruction is cut off. -/
theorem Sized.decode_eq_failed (h : m.Sized) (hp : m.pc = .number p)
    (hd : m.decode = .failed e m') :
    ∃ q, e = .naming .addressOutOfRange q ∧ m' = { m with pc := .number q } ∧
      ((q = p ∧ (p < 0 ∨ memorySize ≤ p)) ∨ (q = memorySize ∧ 0 ≤ p ∧ p < memorySize)) := by
  by_cases hrange : p < 0 ∨ memorySize ≤ p
  · rw [decode_of_outOfRange hp hrange] at hd
    cases hd
    exact ⟨p, rfl, by rw [← hp], .inl ⟨rfl, hrange⟩⟩
  · have hread : ∃ w, m.readMemory p = .ok w := h.readMemory (by omega) (by omega)
    rcases hread with ⟨w, hw⟩
    by_cases hn : p + 1 + (Opcode.ofWord w.toInt).operandCount ≤ memorySize
    · rw [h.decode_of_fits hp (by omega) hw hn] at hd
      cases hd
    · rw [h.decode_of_cut hp (by omega) hw (by omega)] at hd
      cases hd
      exact ⟨memorySize, Error.naming_memorySize.symm, rfl, .inr ⟨rfl, by omega, by omega⟩⟩

end WordMachine.Machine
