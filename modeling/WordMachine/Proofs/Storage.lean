import WordMachine.Machine.Storage

/-! # What storage operations do

Each operation of a machine is described by what it answers and what it leaves, so that nothing
built on it has to be unfolded down to the checks on addresses and selectors.

* An operation that asks several questions succeeds exactly when each of them has an answer.
* A machine is `Sized` if it has all the cells and registers that addresses and selectors can name.
* Words move from place to place: what is read was stored, and what is written is stored.
-/

namespace WordMachine

/-! ## Opening an outcome -/

namespace Machine

variable {α β : Type} {m m' : Machine}

/-- A question and what follows succeed exactly when the question has an answer. -/
theorem given_eq_done_iff {answer : Except Error α} {f : α → Outcome β} {b : β} :
    m.given answer f = .done b m' ↔ ∃ a, answer = .ok a ∧ f a = .done b m' := by
  cases answer with
  | ok a => simp
  | error e => simp

/-- A question without an answer fails there and then. -/
theorem given_eq_failed_iff {answer : Except Error α} {f : α → Outcome β} {e : Error} :
    m.given answer f = .failed e m' ↔
      (answer = .error e ∧ m' = m) ∨ ∃ a, answer = .ok a ∧ f a = .failed e m' := by
  cases answer with
  | ok a => simp
  | error e' =>
    simp only [given_error, Outcome.failed.injEq, Except.error.injEq, reduceCtorEq, false_and,
      exists_false, or_false]
    exact and_congr_right fun _ => eq_comm

end Machine

namespace Outcome

variable {α β : Type} {m : Machine}

theorem andThen_eq_failed_iff {o : Outcome α} {f : α → Machine → Outcome β} {e : Error} :
    o.andThen f = failed e m ↔
      o = failed e m ∨ ∃ a m₁, o = done a m₁ ∧ f a m₁ = failed e m := by
  cases o with
  | done a m₁ =>
    constructor
    · exact fun h => .inr ⟨a, m₁, rfl, h⟩
    · intro hx
      rcases hx with h | ⟨_, _, h, h'⟩
      · cases h
      · cases h
        exact h'
  | failed e₁ m₁ => simp

theorem map_eq_done_iff {f : α → β} {o : Outcome α} {b : β} :
    o.map f = done b m ↔ ∃ a, o = done a m ∧ f a = b := by
  cases o with
  | done a m₁ =>
    simp only [map_done, done.injEq]
    constructor
    · intro hx
      rcases hx with ⟨rfl, rfl⟩
      exact ⟨a, ⟨rfl, rfl⟩, rfl⟩
    · intro hx
      rcases hx with ⟨_, ⟨rfl, rfl⟩, rfl⟩
      exact ⟨rfl, rfl⟩
  | failed e m₁ => simp

@[simp] theorem machine_map (f : α → β) (o : Outcome α) : (o.map f).machine = o.machine := by
  cases o with
  | done a m => rfl
  | failed e m => rfl

theorem map_eq_failed_iff {f : α → β} {o : Outcome α} {e : Error} :
    o.map f = failed e m ↔ o = failed e m := by
  cases o with
  | done a m₁ => simp
  | failed e₁ m₁ => simp

end Outcome

/-! ## Sizes -/

/-- A machine with every cell and every register that a program can name. -/
structure Machine.Sized (m : Machine) : Prop where
  memory : m.memory.size = memorySize
  registers : m.registers.size = registerCount

namespace Machine.Sized

variable {m : Machine}

theorem setRegister (hm : m.Sized) (r : Nat) (w : Word) :
    ({ m with registers := m.registers.setIfInBounds r w } : Machine).Sized where
  memory := hm.memory
  registers := by rw [Array.size_setIfInBounds, hm.registers]

theorem setCell (hm : m.Sized) (k : Nat) (w : Word) :
    ({ m with memory := m.memory.setIfInBounds k w } : Machine).Sized where
  memory := by rw [Array.size_setIfInBounds, hm.memory]
  registers := hm.registers

end Machine.Sized

/-! ## Words -/

/-- An integer that fits no cell has no word. -/
theorem wordOf_of_outOfRange {value : Int} (h : value < 0 ∨ 65535 < value) :
    wordOf value = .error .outOfRange := by
  have hmask : (wordMask : Int) = 65535 := rfl
  rw [wordOf, Word.ofInt?, if_neg (by omega)]

theorem wordOf_of_inRange {value : Int} (h : ¬ (value < 0 ∨ 65535 < value)) :
    wordOf value = .ok (.ofNat value.toNat) := by
  have hmask : (wordMask : Int) = 65535 := rfl
  rw [wordOf, Word.ofInt?, if_pos (by omega)]

/-! ## The end of input -/

/-- What a reader meets when all input has been read. -/
def InputEnd.error : InputEnd → Error
  | .exhausted => .ofCause .inputExhausted
  | .interrupt => .interrupted

/-- The machine after a byte was read that left `rest` unread. -/
def Machine.afterRead (m : Machine) (rest : Bytes) : Machine :=
  { m with console :=
      { m.console.flush with unread := rest, bytesRead := m.console.bytesRead + 1 } }

namespace Machine

variable {m m' : Machine} {e : Error} {w : Word}

/-! ## Operands and registers -/

/-- Exactly the operands from 32768 to 32775 select a register. -/
theorem registerNumber_eq_ok_iff {selector : Int} {r : Nat} :
    registerNumber selector = .ok r ↔ selector = registerBase + r ∧ r < registerCount := by
  unfold registerNumber
  split
  · rw [Except.ok.injEq]
    omega
  · simp only [reduceCtorEq, false_iff]
    omega

/-- Any other operand is refused by name. -/
theorem registerNumber_eq_error {selector : Int} (h : registerNumber selector = .error e) :
    e = .naming .invalidOperand selector := by
  unfold registerNumber at h
  split at h
  · cases h
  · cases h
    rfl

/-- An operand of too many digits cannot be named. -/
theorem registerNumber_of_not_isWritable {selector : Int}
    (h : Text.isWritable selector = false) : registerNumber selector = .error .tooManyDigits := by
  have hlong := Text.natAbs_of_not_isWritable h
  have hbase : (registerBase : Int) = 32768 := rfl
  have hcount : (registerCount : Int) = 8 := rfl
  rw [registerNumber, if_neg (by omega), Error.naming_of_not_isWritable h]

theorem outside_of_registerNumber {selector : Int} (h : registerNumber selector = .error e) :
    selector < 32768 ∨ 32775 < selector := by
  have hbase : (registerBase : Int) = 32768 := rfl
  have hcount : (registerCount : Int) = 8 := rfl
  unfold registerNumber at h
  split at h
  · cases h
  · omega

theorem readRegister_eq_ok {selector : Int} (h : m.readRegister selector = .ok w) :
    w ∈ m.registers := by
  unfold readRegister at h
  split at h
  · cases h
  · split at h
    · rename_i hw
      cases h
      exact Array.mem_of_getElem? hw
    · cases h

/-- Only a machine of less than full size lacks a register that can be selected. -/
theorem not_sized_of_registerNumber {selector : Int} {r : Nat}
    (hr : registerNumber selector = .ok r) (h : m.registers.size ≤ r) : ¬ m.Sized := by
  intro hsized
  have hlt : r < registerCount := (registerNumber_eq_ok_iff.1 hr).2
  have hsize : m.registers.size = registerCount := hsized.registers
  omega

theorem readRegister_eq_error {selector : Int} (h : m.readRegister selector = .error e) :
    e = .naming .invalidOperand selector ∨ (e = .missingCell ∧ ¬ m.Sized) := by
  unfold readRegister at h
  split at h
  · rename_i he
    cases h
    exact .inl (registerNumber_eq_error he)
  · rename_i r hr
    split at h
    · cases h
    · rename_i hnone
      cases h
      exact .inr ⟨rfl, not_sized_of_registerNumber hr (Array.getElem?_eq_none_iff.1 hnone)⟩

/-- The value of a source is a literal of 15 bits or what some register holds. -/
theorem resolve_eq_ok {operand : Int} (h : m.resolve operand = .ok w) :
    w.toNat < registerBase ∨ w ∈ m.registers := by
  unfold resolve at h
  split at h
  · left
    cases h
    rw [UInt16.toNat_ofNat']
    omega
  · exact .inr (readRegister_eq_ok h)

theorem resolve_eq_error {operand : Int} (h : m.resolve operand = .error e) :
    e = .naming .invalidOperand operand ∨ (e = .missingCell ∧ ¬ m.Sized) := by
  unfold resolve at h
  split at h
  · cases h
  · exact readRegister_eq_error h

theorem resolve_of_not_isWritable {operand : Int} (h : Text.isWritable operand = false) :
    m.resolve operand = .error .tooManyDigits := by
  have hlong := Text.natAbs_of_not_isWritable h
  have hbase : (registerBase : Int) = 32768 := rfl
  rw [resolve, if_neg (by omega), readRegister, registerNumber_of_not_isWritable h]

/-- Writing a register succeeds exactly when there is such a register and the value fits. -/
theorem writeRegister_eq_done_iff {selector : Int} {value : Except Error Word} {u : Unit} :
    m.writeRegister selector value = .done u m' ↔
      ∃ r w, registerNumber selector = .ok r ∧ r < m.registers.size ∧ value = .ok w ∧
        m' = { m with registers := m.registers.setIfInBounds r w } := by
  unfold writeRegister
  cases hr : registerNumber selector with
  | error e => simp
  | ok r =>
    simp only [Except.ok.injEq, exists_and_left, exists_eq_left']
    split
    · rename_i hsize
      cases value with
      | error e => simp
      | ok w => simp [hsize, eq_comm]
    · rename_i hsize
      simp [hsize]

/-- A register that is not written stays as it was, and so does the rest of the machine. -/
theorem writeRegister_eq_failed {selector : Int} {value : Except Error Word}
    (h : m.writeRegister selector value = .failed e m') :
    m' = m ∧
      (registerNumber selector = .error e ∨ (e = .missingCell ∧ ¬ m.Sized) ∨ value = .error e) := by
  unfold writeRegister at h
  -- The selector is checked first, then that the register exists, then that the value fits.
  cases hr : registerNumber selector with
  | error e' =>
    rw [hr] at h
    cases h
    exact ⟨rfl, .inl rfl⟩
  | ok r =>
    simp only [hr] at h
    split at h
    · cases value with
      | ok w => cases h
      | error e' =>
        cases h
        exact ⟨rfl, .inr (.inr rfl)⟩
    · rename_i hsize
      cases h
      exact ⟨rfl, .inr (.inl ⟨rfl, not_sized_of_registerNumber hr (Nat.le_of_not_lt hsize)⟩)⟩

/-- On a machine of full size the selector alone is checked before the value is. -/
theorem Sized.writeRegister_eq (h : m.Sized) (selector value : Int) :
    m.writeRegister selector (wordOf value) =
      if selector < 32768 ∨ 32775 < selector then
        .failed (.naming .invalidOperand selector) m
      else if value < 0 ∨ 65535 < value then .failed .outOfRange m
      else .done () { m with
        registers := m.registers.setIfInBounds (selector - 32768).toNat (.ofNat value.toNat) } := by
  have hbase : (registerBase : Int) = 32768 := rfl
  have hcount : (registerCount : Int) = 8 := rfl
  by_cases hselector : selector < 32768 ∨ 32775 < selector
  · rw [if_pos hselector, writeRegister, registerNumber, if_neg (by omega)]
  rw [if_neg hselector]
  have hr : registerNumber selector = .ok (selector - 32768).toNat := by
    rw [registerNumber, if_pos (by omega), hbase]
  have hlt : (selector - 32768).toNat < m.registers.size := by
    rw [h.registers]
    exact (registerNumber_eq_ok_iff.1 hr).2
  simp only [writeRegister, hr, if_pos hlt]
  by_cases hvalue : value < 0 ∨ 65535 < value
  · rw [if_pos hvalue, wordOf_of_outOfRange hvalue]
  · rw [if_neg hvalue, wordOf_of_inRange hvalue]

/-! ## Memory -/

/-- Exactly the addresses from 0 to 32767 are those of cells. -/
theorem cellNumber_eq_ok_iff {address : Int} {k : Nat} :
    cellNumber address = .ok k ↔ address = k ∧ k < memorySize := by
  unfold cellNumber
  split
  · rw [Except.ok.injEq]
    omega
  · simp only [reduceCtorEq, false_iff]
    omega

theorem cellNumber_eq_error_iff {address : Int} :
    cellNumber address = .error e ↔
      (address < 0 ∨ memorySize ≤ address) ∧
        e = .naming .addressOutOfRange address := by
  unfold cellNumber
  split
  · simp only [reduceCtorEq, false_iff]
    omega
  · rw [Except.error.injEq, eq_comm]
    constructor
    · exact fun h => ⟨by omega, h⟩
    · exact fun h => h.2

theorem readMemory_eq_ok_iff {address : Int} :
    m.readMemory address = .ok w ↔
      ∃ k : Nat, address = k ∧ k < memorySize ∧ m.memory[k]? = some w := by
  unfold readMemory
  cases hk : cellNumber address with
  | error e =>
    simp only [reduceCtorEq, false_iff]
    intro hx
    rcases hx with ⟨k, ha, hlt, _⟩
    -- The address is that of a cell, so it was not refused.
    rw [cellNumber_eq_ok_iff.2 ⟨ha, hlt⟩] at hk
    cases hk
  | ok k =>
    rcases cellNumber_eq_ok_iff.1 hk with ⟨rfl, hlt⟩
    have hcell : ∀ j : Nat, (k : Int) = j ↔ k = j := fun j => Int.ofNat_inj
    simp only [hcell, exists_eq_left', hlt, true_and]
    cases m.memory[k]? with
    | none => simp
    | some v => simp

/-- A machine of full size has a word at every address that is in range. -/
theorem Sized.readMemory (h : m.Sized) {address : Int} (h₀ : 0 ≤ address)
    (h₁ : address < memorySize) : ∃ w, m.readMemory address = .ok w := by
  have hlt : address.toNat < m.memory.size := by rw [h.memory]; omega
  refine ⟨m.memory[address.toNat], readMemory_eq_ok_iff.2 ⟨address.toNat, by omega, by omega, ?_⟩⟩
  exact Array.getElem?_eq_getElem hlt

/-- Only a machine of less than full size lacks a cell that has an address. -/
theorem not_sized_of_cellNumber {address : Int} {k : Nat} (hk : cellNumber address = .ok k)
    (h : m.memory.size ≤ k) : ¬ m.Sized := by
  intro hsized
  have hlt : k < memorySize := (cellNumber_eq_ok_iff.1 hk).2
  have hsize : m.memory.size = memorySize := hsized.memory
  omega

theorem readMemory_eq_error {address : Int} (h : m.readMemory address = .error e) :
    ((address < 0 ∨ memorySize ≤ address) ∧ e = .naming .addressOutOfRange address) ∨
      (e = .missingCell ∧ ¬ m.Sized) := by
  unfold Machine.readMemory at h
  split at h
  · rename_i he
    cases h
    exact .inl (cellNumber_eq_error_iff.1 he)
  · rename_i k hk
    split at h
    · cases h
    · rename_i hnone
      cases h
      exact .inr ⟨rfl, not_sized_of_cellNumber hk (Array.getElem?_eq_none_iff.1 hnone)⟩

/-- An address out of range is refused, whatever the size of the memory. -/
theorem readMemory_of_outOfRange {address : Int} (h : address < 0 ∨ memorySize ≤ address) :
    m.readMemory address = .error (.naming .addressOutOfRange address) := by
  have he := cellNumber_eq_error_iff.2 ⟨h, rfl⟩
  simp only [Machine.readMemory, he]

/-- Writing a cell succeeds exactly when there is such a cell and the value fits. -/
theorem writeMemory_eq_done_iff {address : Int} {value : Except Error Word} {u : Unit} :
    m.writeMemory address value = .done u m' ↔
      ∃ k w, cellNumber address = .ok k ∧ k < m.memory.size ∧ value = .ok w ∧
        m' = { m with memory := m.memory.setIfInBounds k w } := by
  unfold writeMemory
  cases hk : cellNumber address with
  | error e => simp
  | ok k =>
    simp only [Except.ok.injEq, exists_and_left, exists_eq_left']
    split
    · rename_i hsize
      cases value with
      | error e => simp
      | ok w => simp [hsize, eq_comm]
    · rename_i hsize
      simp [hsize]

theorem writeMemory_eq_failed {address : Int} {value : Except Error Word}
    (h : m.writeMemory address value = .failed e m') :
    m' = m ∧
      (cellNumber address = .error e ∨ (e = .missingCell ∧ ¬ m.Sized) ∨ value = .error e) := by
  unfold writeMemory at h
  cases hk : cellNumber address with
  | error e' =>
    rw [hk] at h
    cases h
    exact ⟨rfl, .inl rfl⟩
  | ok k =>
    simp only [hk] at h
    split at h
    · cases value with
      | ok w => cases h
      | error e' =>
        cases h
        exact ⟨rfl, .inr (.inr rfl)⟩
    · rename_i hsize
      cases h
      exact ⟨rfl, .inr (.inl ⟨rfl, not_sized_of_cellNumber hk (Nat.le_of_not_lt hsize)⟩)⟩

/-- On a machine of full size the address alone is checked before the value is. -/
theorem Sized.writeMemory_eq (h : m.Sized) (address value : Int) :
    m.writeMemory address (wordOf value) =
      if address < 0 ∨ 32767 < address then
        .failed (.naming .addressOutOfRange address) m
      else if value < 0 ∨ 65535 < value then .failed .outOfRange m
      else .done () { m with
        memory := m.memory.setIfInBounds address.toNat (.ofNat value.toNat) } := by
  have hsize : (memorySize : Int) = 32768 := rfl
  by_cases haddress : address < 0 ∨ 32767 < address
  · rw [if_pos haddress, writeMemory, cellNumber, if_neg (by omega)]
  rw [if_neg haddress]
  have hk : cellNumber address = .ok address.toNat := by rw [cellNumber, if_pos (by omega)]
  have hlt : address.toNat < m.memory.size := by
    rw [h.memory]
    exact (cellNumber_eq_ok_iff.1 hk).2
  simp only [writeMemory, hk, if_pos hlt]
  by_cases hvalue : value < 0 ∨ 65535 < value
  · rw [if_pos hvalue, wordOf_of_outOfRange hvalue]
  · rw [if_neg hvalue, wordOf_of_inRange hvalue]

/-! ## The word at the counter -/

/-- A fetch gives the word at the counter and moves the counter on. -/
theorem fetch_eq_done_iff :
    m.fetch = .done w m' ↔
      ∃ address, addressOf m.pc = .ok address ∧ m.readMemory address = .ok w ∧
        m' = { m with pc := .number (address + 1) } := by
  simp only [fetch, given_eq_done_iff, Outcome.done.injEq]
  constructor
  · intro hx
    rcases hx with ⟨address, ha, w', hw, rfl, rfl⟩
    exact ⟨address, ha, hw, rfl⟩
  · intro hx
    rcases hx with ⟨address, ha, hw, rfl⟩
    exact ⟨address, ha, w, hw, rfl, rfl⟩

/-- A fetch that fails leaves the machine as it was. -/
theorem fetch_eq_failed (h : m.fetch = .failed e m') : m' = m := by
  simp only [fetch, given_eq_failed_iff, reduceCtorEq, and_false, exists_false, or_false] at h
  rcases h with ⟨_, hm⟩ | ⟨_, _, _, hm⟩
  · exact hm
  · exact hm

/-- In range, a machine of full size always has a next word. -/
theorem Sized.fetch (h : m.Sized) {p : Int} (hp : m.pc = .number p) (h₀ : 0 ≤ p)
    (h₁ : p < memorySize) :
    ∃ w, m.readMemory p = .ok w ∧ m.fetch = .done w { m with pc := .number (p + 1) } := by
  rcases h.readMemory h₀ h₁ with ⟨w, hw⟩
  exact ⟨w, hw, fetch_eq_done_iff.2 ⟨p, by rw [hp, addressOf_number], hw, rfl⟩⟩

/-- Out of range there is none, and the refusal names the counter. -/
theorem fetch_of_outOfRange {p : Int} (hp : m.pc = .number p) (h : p < 0 ∨ memorySize ≤ p) :
    m.fetch = .failed (.naming .addressOutOfRange p) m := by
  simp only [Machine.fetch, hp, addressOf_number, given_ok, readMemory_of_outOfRange h, given_error]

/-! ## Console -/

/-- A byte that is read is taken from a flushed console; nothing else changes. -/
theorem readByte_eq_done_iff {byte : UInt8} :
    m.readByte = .done byte m' ↔
      ∃ console, m.console.flush.read? = some (byte, console) ∧
        m' = { m with console := console } := by
  unfold readByte
  simp only [flush]
  -- What the device answers at its end is an error either way.
  cases hread : m.console.flush.read? with
  | none =>
    cases m.console.flush.inputEnd with
    | exhausted => simp
    | interrupt => simp
  | some read =>
    rcases read with ⟨byte', console⟩
    simp only [Outcome.done.injEq, Option.some.injEq, Prod.mk.injEq]
    constructor
    · intro hx
      rcases hx with ⟨rfl, rfl⟩
      exact ⟨console, ⟨rfl, rfl⟩, rfl⟩
    · intro hx
      rcases hx with ⟨_, ⟨rfl, rfl⟩, rfl⟩
      exact ⟨rfl, rfl⟩

/-- There is a byte as long as there is unread input, and then the console has one less. -/
theorem readByte_of_cons {byte : UInt8} {rest : Bytes} (h : m.console.unread = byte :: rest) :
    m.readByte = .done byte (m.afterRead rest) := by
  apply readByte_eq_done_iff.2
  exact ⟨_, Console.read?_eq_some_iff.2 ⟨rest, h, rfl⟩, rfl⟩

/-- At the end of input only the output is flushed. -/
theorem readByte_of_nil (h : m.console.unread = []) :
    m.readByte = .failed m.console.inputEnd.error m.flush := by
  have hread : m.console.flush.read? = none := by
    unfold Console.read?
    rw [Console.unread_flush, h]
  unfold readByte
  simp only [flush, hread]
  cases hend : m.console.inputEnd with
  | exhausted => simp only [Console.flush, hend, InputEnd.error]
  | interrupt => simp only [Console.flush, hend, InputEnd.error]

/-- Nothing else makes a read fail. -/
theorem readByte_eq_failed (h : m.readByte = .failed e m') :
    m.console.unread = [] ∧ e = m.console.inputEnd.error ∧ m' = m.flush := by
  cases hunread : m.console.unread with
  | nil =>
    rw [readByte_of_nil hunread] at h
    cases h
    exact ⟨rfl, rfl, rfl⟩
  | cons byte rest =>
    rw [readByte_of_cons hunread] at h
    cases h

end Machine

end WordMachine
