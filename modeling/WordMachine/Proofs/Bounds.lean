import Mathlib.Algebra.Group.Nat.Defs
import WordMachine.Image
import WordMachine.Proofs.Stepping

/-! # How wide words get

Memory holds words of 16 bits, but literals and results are of 15 bits, so a program can be held to
narrower words than memory has. `Machine.Bounded bits` says that registers and stack hold words of
so many bits only.

* `Bounded.step`: a step keeps this unless the machine `LetsIn` a wider word, which it does only by
  copying one from memory or by saving a return address. Nothing is wider than 16 bits, so a step
  always keeps `Bounded 16`.
* Loading an image keeps it too (`Bounded.load`), and so does everything that is done to a fresh
  machine.
* `Bounded.validate`: all that the checks on such a machine can find is a counter beyond memory.
-/

namespace WordMachine

variable {bits : Nat}

/-! ## Words -/

namespace Opcode

variable {op : Opcode} {x y : Word}

theorem unary?_lt {f : Word → Word} (h : op.unary? = some f) (hbits : 15 ≤ bits)
    (hx : x.toNat < 2 ^ bits) : (f x).toNat < 2 ^ bits := by
  have hpow : 2 ^ 15 ≤ 2 ^ bits := Nat.pow_le_pow_right (by decide) hbits
  cases op with
  | set =>
    cases h
    exact hx
  | not =>
    cases h
    have hmask : (Word.complement x).toNat < 2 ^ 15 := by
      rw [Word.complement, UInt16.toNat_and]
      exact Nat.lt_of_le_of_lt Nat.and_le_right (by decide)
    exact Nat.lt_of_lt_of_le hmask hpow
  | _ => cases h

theorem binary?_lt {f : Word → Word → Word} (h : op.binary? = some f) (hbits : 15 ≤ bits)
    (hx : x.toNat < 2 ^ bits) (hy : y.toNat < 2 ^ bits) : (f x y).toNat < 2 ^ bits := by
  have hpow : 2 ^ 15 ≤ 2 ^ bits := Nat.pow_le_pow_right (by decide) hbits
  have hbool : ∀ b, (Word.ofBool b).toNat < 2 ^ 15 := by decide
  have hmod : ∀ k : Nat, (UInt16.ofNat (k % modulus)).toNat < 2 ^ 15 := by
    intro k
    rw [UInt16.toNat_ofNat', Nat.mod_eq_of_lt (Nat.lt_trans (Nat.mod_lt k (by decide)) (by decide))]
    exact Nat.mod_lt k (by decide)
  cases op with
  | eq | gt =>
    cases h
    exact Nat.lt_of_lt_of_le (hbool _) hpow
  | add | multiply =>
    cases h
    exact Nat.lt_of_lt_of_le (hmod _) hpow
  | and =>
    cases h
    rw [UInt16.toNat_and]
    exact Nat.and_lt_two_pow _ hy
  | or =>
    cases h
    rw [UInt16.toNat_or]
    exact Nat.or_lt_two_pow hx hy
  | _ => cases h

end Opcode

/-! ## Images -/

theorem length_of_checkSize {image data : Bytes} (h : checkSize image = .ok data) :
    data.length ≤ maxImageBytes := by
  unfold checkSize at h
  split at h
  · cases h
  · cases h
    omega

/-- An image that was read fits into memory, wherever it came from. -/
theorem Source.length_of_read {files : FileSystem} {source : Source} {data : Bytes}
    (h : source.read files = .ok data) : data.length ≤ maxImageBytes := by
  cases source with
  | bytes image => exact length_of_checkSize h
  | stream answer =>
    cases answer with
    | ok image => exact length_of_checkSize h
    | error text => cases h
  | path text =>
    simp only [Source.read] at h
    split at h
    · cases h
    · split at h
      · exact length_of_checkSize h
      · cases h

theorem Machine.size_overlay {memory : Array Word} {words : List Word}
    (h : words.length ≤ memory.size) : (overlay memory words).size = memory.size := by
  simp only [overlay, Array.size_append, List.size_toArray, Array.size_extract]
  omega

/-- The first cells are read as the words that were laid over them. -/
theorem Machine.readMemory_of_overlay {m : Machine} {memory : Array Word} {words : List Word}
    (hm : m.memory = overlay memory words) {k : Nat} {w : Word} (hw : words[k]? = some w)
    (hk : k < memorySize) : m.readMemory k = .ok w := by
  have hlt : k < words.length := (List.getElem?_eq_some_iff.1 hw).1
  have hcell : m.memory[k]? = some w := by
    rw [hm, overlay, Array.getElem?_append_left (by simpa using hlt)]
    simpa using hw
  exact readMemory_eq_ok_iff.2 ⟨k, rfl, hk, hcell⟩

/-! ## Machines -/

/-- A machine of full size in whose registers and stack are words of `bits` bits only, and whose
counter is such a word or the end of memory. -/
structure Machine.Bounded (bits : Nat) (m : Machine) : Prop extends m.Sized where
  words : ∀ w ∈ m.registers, w.toNat < 2 ^ bits
  entries : ∀ d ∈ m.stack, ∃ w : Word, d = .number w.toInt ∧ w.toNat < 2 ^ bits
  counter : ∃ p : Nat, m.pc = .number p ∧ (p < 2 ^ bits ∨ p = memorySize)
  count : 0 ≤ m.cycles

namespace Machine

variable {m m' : Machine} {i : Instruction} {e : Error} {b : Bool} {w : Word}

/-- The next step copies a word of more than `bits` bits from memory. -/
def LoadsWide (bits : Nat) (m : Machine) : Prop :=
  ∃ i m' a b x w, Registry.Takes m i m' ∧ i.opcode = .readMemory ∧ i.operands = [a, b] ∧
    m.resolve b = .ok x ∧ m.readMemory x.toInt = .ok w ∧ 2 ^ bits ≤ w.toNat

/-- The next step is a call, and stands at `p`. -/
def CallsAt (m : Machine) (p : Nat) : Prop :=
  m.pc = .number p ∧ ∃ i m', Registry.Takes m i m' ∧ i.opcode = .call

/-- The next step puts a word of more than `bits` bits into a register or on the stack. -/
def LetsIn (bits : Nat) (m : Machine) : Prop :=
  m.LoadsWide bits ∨ ∃ p, m.CallsAt p ∧ 2 ^ bits ≤ p + 2

/-- The cell holds a word of more than `bits` bits. -/
def WideAt (bits : Nat) (m : Machine) (k : Nat) : Prop :=
  ∃ w, m.memory[k]? = some w ∧ 2 ^ bits ≤ w.toNat

/-- A machine to which nothing has happened yet. -/
def Fresh (m : Machine) : Prop :=
  m = { console := m.console, maxCycles := m.maxCycles, stopAt := m.stopAt }

namespace Bounded

/-! ### What keeps a machine bounded -/

theorem of_eq (h : m.Bounded bits) (hm : m'.memory = m.memory) (hr : m'.registers = m.registers)
    (hs : m'.stack = m.stack) (hp : m'.pc = m.pc) (hc : m'.cycles = m.cycles) :
    m'.Bounded bits where
  memory := by rw [hm, h.memory]
  registers := by rw [hr, h.registers]
  words := by rw [hr]; exact h.words
  entries := by rw [hs]; exact h.entries
  counter := by rw [hp]; exact h.counter
  count := by rw [hc]; exact h.count

theorem setRegister (h : m.Bounded bits) (hw : w.toNat < 2 ^ bits) (r : Nat) :
    ({ m with registers := m.registers.setIfInBounds r w } : Machine).Bounded bits where
  toSized := h.toSized.setRegister r w
  words := by
    intro v hv
    rcases Array.mem_or_eq_of_mem_setIfInBounds hv with hv | rfl
    · exact h.words v hv
    · exact hw
  entries := h.entries
  counter := h.counter
  count := h.count

theorem setCell (h : m.Bounded bits) (k : Nat) (w : Word) :
    ({ m with memory := m.memory.setIfInBounds k w } : Machine).Bounded bits where
  toSized := h.toSized.setCell k w
  words := h.words
  entries := h.entries
  counter := h.counter
  count := h.count

theorem push (h : m.Bounded bits) (hw : w.toNat < 2 ^ bits) :
    (m.push (.number w.toInt)).Bounded bits where
  memory := h.memory
  registers := h.registers
  words := h.words
  entries := by
    intro d hd
    rcases List.mem_cons.1 hd with rfl | hd
    · exact ⟨w, rfl, hw⟩
    · exact h.entries d hd
  counter := h.counter
  count := h.count

theorem setStack (h : m.Bounded bits) (rest : List Datum) (hs : ∀ d ∈ rest, d ∈ m.stack) :
    ({ m with stack := rest } : Machine).Bounded bits where
  memory := h.memory
  registers := h.registers
  words := h.words
  entries := fun d hd => h.entries d (hs d hd)
  counter := h.counter
  count := h.count

/-- Taking off the top gives a word, and leaves the machine bounded. -/
theorem setTail (h : m.Bounded bits) {top : Datum} {rest : List Datum}
    (hs : m.stack = top :: rest) :
    (∃ w : Word, top = .number w.toInt ∧ w.toNat < 2 ^ bits) ∧
      ({ m with stack := rest } : Machine).Bounded bits := by
  constructor
  · exact h.entries top (by rw [hs]; exact .head _)
  · exact h.setStack rest fun d hd => by rw [hs]; exact .tail _ hd

theorem setCounter (h : m.Bounded bits) {p : Nat} (hp : p < 2 ^ bits ∨ p = memorySize) :
    ({ m with pc := .number p } : Machine).Bounded bits where
  memory := h.memory
  registers := h.registers
  words := h.words
  entries := h.entries
  counter := ⟨p, rfl, hp⟩
  count := h.count

theorem counted (h : m.Bounded bits) : m.counted.Bounded bits where
  memory := h.memory
  registers := h.registers
  words := h.words
  entries := h.entries
  counter := h.counter
  count := Int.add_nonneg h.count (by decide)

/-- The value of a source is no wider than the registers, nor is a literal. -/
theorem resolve (h : m.Bounded bits) (hbits : 15 ≤ bits) {a : Int} (hw : m.resolve a = .ok w) :
    w.toNat < 2 ^ bits := by
  have hpow : 2 ^ 15 ≤ 2 ^ bits := Nat.pow_le_pow_right (by decide) hbits
  rcases resolve_eq_ok hw with hlit | hmem
  · exact Nat.lt_of_lt_of_le hlit hpow
  · exact h.words w hmem

/-! ### Decoding and the rules -/

/-- After decoding, the counter is at most at the end of memory. -/
theorem decode_done (h : m.Bounded bits) (hbits : 15 ≤ bits) (hd : m.decode = .done i m') :
    m'.Bounded bits := by
  have hpow : 2 ^ 15 ≤ 2 ^ bits := Nat.pow_le_pow_right (by decide) hbits
  have hsize : memorySize = 2 ^ 15 := rfl
  obtain ⟨p, hp, -⟩ := h.counter
  obtain ⟨-, hend, -, rfl⟩ := h.decode_eq_done hp hd
  have hq : p + 1 + i.opcode.operandCount < 2 ^ bits ∨
      p + 1 + i.opcode.operandCount = memorySize := by omega
  exact h.setCounter hq

theorem decode_failed (h : m.Bounded bits) (hd : m.decode = .failed e m') : m'.Bounded bits := by
  obtain ⟨p, hp, hbound⟩ := h.counter
  -- The counter stays out of range, or is at the end of memory, which is allowed as well.
  rcases h.decode_eq_failed hp hd with ⟨q, -, rfl, ⟨rfl, -⟩ | ⟨rfl, -⟩⟩
  · exact h.setCounter hbound
  · exact h.setCounter (.inr rfl)

/-- The rules keep a machine bounded, if a load reads no wider word and a call saves no wider one. -/
theorem executes (h : m.Bounded bits) (hbits : 15 ≤ bits) (hx : Executes i m b m')
    (hload : b = true → ∀ a c x w, i.opcode = .readMemory → i.operands = [a, c] →
      m.resolve c = .ok x → m.readMemory x.toInt = .ok w → w.toNat < 2 ^ bits)
    (hcall : b = true → i.opcode = .call →
      ∃ w : Word, m.pc = .number w.toInt ∧ w.toNat < 2 ^ bits) :
    m'.Bounded bits := by
  have hpow : 2 ^ 15 ≤ 2 ^ bits := Nat.pow_le_pow_right (by decide) hbits
  have hjump : ∀ {a t}, m.resolve a = .ok t →
      ({ m with pc := .number t.toInt } : Machine).Bounded bits := by
    intro a t ht
    exact h.setCounter (.inl (h.resolve hbits ht))
  cases hx with
  | halt op => exact h.of_eq rfl rfl rfl rfl rfl
  | noop op => exact h
  | unary op operands source dest =>
    exact h.setRegister (Opcode.unary?_lt op hbits (h.resolve hbits source)) _
  | binary op operands first second dest =>
    -- Sums and products are reduced to 15 bits, the others are no wider than their sources.
    exact h.setRegister
      (Opcode.binary?_lt op hbits (h.resolve hbits first) (h.resolve hbits second)) _
  | @modulo a b c x y r op operands first second nonzero dest =>
    refine h.setRegister ?_ r
    rw [UInt16.toNat_mod]
    exact Nat.lt_of_le_of_lt (Nat.mod_le _ _) (h.resolve hbits first)
  | load op operands address cell dest =>
    exact h.setRegister (hload rfl _ _ _ _ op operands address cell) _
  | store op operands address source cell inside => exact h.setCell _ _
  | push op operands source => exact h.push (h.resolve hbits source)
  | @pop a top rest w r op operands stack entry word dest =>
    obtain ⟨⟨v, rfl, hv⟩, hrest⟩ := h.setTail stack
    -- The entry is a word already, so nothing is lost when it is made one.
    have hw : w = v := by
      have hword : (Datum.number v.toInt).word = .ok v := by
        simp [Datum.word, wordOf]
      cases word.symm.trans hword
      rfl
    exact hrest.setRegister (hw ▸ hv) r
  | jump op operands target => exact hjump target
  | branch op operands source taken target => exact hjump target
  | pass op operands source taken => exact h
  | call op operands target =>
    -- The counter is what is saved, and it may be the end of memory.
    obtain ⟨w, hpc, hw⟩ := hcall rfl op
    have hpush := h.push hw
    rw [← hpc] at hpush
    exact hpush.setCounter (.inl (h.resolve hbits target))
  | @ret top rest op stack entry =>
    obtain ⟨⟨v, rfl, hv⟩, hrest⟩ := h.setTail stack
    exact hrest.setCounter (.inl hv)
  | @underflow rest op stack =>
    have hrest : ∀ d ∈ rest, d ∈ m.stack := by
      intro d hd
      rcases stack with ⟨-, rfl⟩ | stack
      · cases hd
      · rw [stack]
        exact .tail _ hd
    exact (h.setStack rest hrest).of_eq rfl rfl rfl rfl rfl
  | output op operands source => exact h.of_eq rfl rfl rfl rfl rfl
  | @input a byte console r op operands read dest =>
    have hbyte : byte.toUInt16.toNat < 2 ^ bits := by
      have hlt := byte.toNat_lt
      rw [UInt8.toNat_toUInt16]
      omega
    -- Input consists of bytes, which are narrow enough.
    have hread : ({ m with console := console } : Machine).Bounded bits :=
      h.of_eq rfl rfl rfl rfl rfl
    exact hread.setRegister hbyte r

theorem aborts (h : m.Bounded bits) (hx : Aborts i m e m') : m'.Bounded bits := by
  cases hx with
  | popped op operands stack entry reason =>
    exact (h.setTail stack).2
  | exhausted op empty reason => exact h.of_eq rfl rfl rfl rfl rfl
  | consumed op operands read reason => exact h.of_eq rfl rfl rfl rfl rfl
  | _ => exact h

/-! ### Steps -/

/-- A step keeps a machine bounded unless a wider word is let in. -/
theorem step (h : m.Bounded bits) (hbits : 15 ≤ bits) (hin : ¬ m.LetsIn bits) :
    (Registry.standard.step m).machine.Bounded bits := by
  apply Registry.machine_step h
  · intro e pc _ hd
    exact h.decode_failed hd
  · intro i pc b m₂ hm hd hx
    have htakes : b = true → Registry.Takes m i m₂ := by
      intro hb
      rw [hb] at hx
      exact Registry.takes_iff.2 ⟨hm, _, hd, hx⟩
    refine (h.decode_done hbits hd).counted.executes hbits hx ?_ ?_
    · intro hb a c x w op operands address cell
      rw [resolve_counted, resolve_of_decode hd] at address
      rw [readMemory_counted, readMemory_of_decode hd] at cell
      apply Nat.lt_of_not_le
      intro hwide
      exact hin (.inl ⟨i, m₂, a, c, x, w, htakes hb, op, operands, address, cell, hwide⟩)
    · intro hb op
      obtain ⟨p, hp, -⟩ := h.counter
      obtain ⟨-, hend, hpc⟩ := h.decode_call hp hd op
      have hsmall : p + 2 < 2 ^ bits := by
        apply Nat.lt_of_not_le
        intro hwide
        exact hin (.inr ⟨p, ⟨hp, i, m₂, htakes hb, op⟩, hwide⟩)
      -- The return address is at most the end of memory, and so is a word.
      have hword : (UInt16.ofNat (p + 2)).toNat = p + 2 := by
        have hsize : memorySize = 32768 := rfl
        rw [UInt16.toNat_ofNat', Nat.mod_eq_of_lt]
        omega
      refine ⟨UInt16.ofNat (p + 2), ?_, by rwa [hword]⟩
      rw [hpc, Word.toInt, hword]
      rfl
  · intro i pc e m₂ _ hd hx
    exact (h.decode_done hbits hd).counted.aborts hx
  · intro m₁ f h₁
    exact h₁.of_eq rfl rfl rfl rfl rfl

/-- No word has more than 16 bits, and memory ends long before an address would. -/
theorem not_letsIn (h : m.Bounded bits) (hbits : 16 ≤ bits) : ¬ m.LetsIn bits := by
  have hpow : 2 ^ 16 ≤ 2 ^ bits := Nat.pow_le_pow_right (by decide) hbits
  intro hin
  rcases hin with ⟨i, m', a, b, x, w, -, -, -, -, -, hwide⟩ | ⟨p, ⟨hp, i, m', htakes, op⟩, hle⟩
  · have hw : w.toNat < 2 ^ 16 := w.toNat_lt
    omega
  · rcases htakes.1 with ⟨m₁, hd⟩
    have hend := (h.decode_call hp hd op).2.1
    have hsize : memorySize = 32768 := rfl
    omega

/-- So a step always keeps a machine within 16 bits. -/
theorem step_of_le (h : m.Bounded bits) (hbits : 16 ≤ bits) :
    (Registry.standard.step m).machine.Bounded bits :=
  h.step (Nat.le_of_succ_le hbits) (h.not_letsIn hbits)

theorem after_of_le (h : m.Bounded bits) (hbits : 16 ≤ bits) (n : Nat) :
    (Registry.standard.after n m).Bounded bits := by
  apply Registry.after_induction (P := fun _ m => m.Bounded bits) h
  intro k _ hb
  exact hb.step_of_le hbits

/-! ### Fresh machines and images -/

/-- Nothing has happened to a fresh machine yet. -/
theorem of_fresh (hm : m.Fresh) : m.Bounded bits := by
  rw [hm]
  constructor
  · constructor
    · exact Array.size_replicate
    · exact Array.size_replicate
  · intro w hw
    rw [Array.eq_of_mem_replicate hw]
    exact Nat.two_pow_pos bits
  · intro d hd
    cases hd
  · exact ⟨0, rfl, .inl (Nat.two_pow_pos bits)⟩
  · exact Int.le_refl 0

/-- An image that fits replaces cells and adds none. -/
theorem install (h : m.Bounded bits) {data : Bytes} (hdata : data.length ≤ maxImageBytes) :
    (m.install data).Bounded bits where
  memory := by
    have hmax : maxImageBytes = 2 * memorySize := rfl
    rw [Machine.install, size_overlay, h.memory]
    rw [Image.length_decode, h.memory]
    omega
  registers := h.registers
  words := h.words
  entries := h.entries
  counter := h.counter
  count := h.count

/-- Loading keeps a machine bounded, whether it succeeds or not. -/
theorem load (h : m.Bounded bits) (files : FileSystem) (source : Source) :
    (m.load files source).machine.Bounded bits := by
  rw [Machine.load]
  cases hread : source.read files with
  | error e => exact h
  | ok data => exact h.install (Source.length_of_read hread)

theorem loadWords (h : m.Bounded bits) (values : List Int) :
    (m.loadWords values).machine.Bounded bits := by
  rw [Machine.loadWords]
  cases Image.encode? values with
  | none => exact h
  | some image =>
    cases hcheck : checkSize image with
    | error e =>
      simp only [hcheck]
      exact h
    | ok data =>
      simp only [hcheck]
      exact h.install (length_of_checkSize hcheck)

/-! ### The checks -/

/-- The checks on a bounded machine find nothing but a counter beyond memory. -/
theorem validate (h : m.Bounded bits) {p : Nat} (hp : m.pc = .number p) :
    m.validate = .ok (decide (p ≤ memorySize)) := by
  have hstack : m.stack.all Datum.isWord = true := by
    rw [List.all_eq_true]
    intro d hd
    obtain ⟨w, rfl, -⟩ := h.entries d hd
    have hle := w.toInt_le
    simp only [Datum.isWord, Datum.toInt?_number, Bool.and_eq_true, decide_eq_true_eq]
    exact ⟨w.toInt_nonneg, hle⟩
  rw [Machine.validate, if_pos ⟨h.memory, h.registers, hstack⟩, hp]
  simp only [Datum.compareTo?_number, Except.ok.injEq]
  have hcount := h.count
  rw [Bool.eq_iff_iff]
  simp only [Int.isGE_compare, Int.isLE_compare, Bool.and_eq_true, decide_eq_true_eq]
  omega

end Bounded

end Machine

end WordMachine
