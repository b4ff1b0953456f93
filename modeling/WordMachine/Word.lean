/-! # Words

The machine's sizes, its 16-bit words and the arithmetic that instructions do on them.

* Storage cells and registers hold a `Word`; literals and results of arithmetic are 15-bit.
* `Word.ofInt?` accepts exactly the integers that fit a cell.
-/

namespace WordMachine

/-! ## Sizes -/

/-- Number of memory cells. -/
abbrev memorySize : Nat := 32768

/-- Number of registers. -/
abbrev registerCount : Nat := 8

/-- The operand that selects the first register; the others follow it. -/
abbrev registerBase : Nat := 32768

/-- Sums and products are reduced modulo this number. -/
abbrev modulus : Nat := 32768

/-- The largest word. -/
abbrev wordMask : Nat := 0xFFFF

/-- The largest 15-bit value. -/
abbrev valueMask : Nat := 0x7FFF

/-! ## Words -/

/-- The content of one cell. -/
abbrev Word := UInt16

namespace Word

/-- The word of an integer, if it fits a cell. -/
def ofInt? (value : Int) : Option Word :=
  if 0 ≤ value ∧ value ≤ wordMask then some (UInt16.ofNat value.toNat) else none

/-- A word as an unbounded integer. -/
def toInt (w : Word) : Int := (w.toNat : Int)

/-- The low byte, which is what a console prints. -/
def lowByte (w : Word) : UInt8 := w.toUInt8

/-- One if the condition holds, else zero. -/
def ofBool (b : Bool) : Word := if b then 1 else 0

/-- Sum modulo 32768. -/
def add (b c : Word) : Word := UInt16.ofNat ((b.toNat + c.toNat) % modulus)

/-- Product modulo 32768. -/
def multiply (b c : Word) : Word := UInt16.ofNat (b.toNat * c.toNat % modulus)

/-- The 15-bit complement: the top bit of the result is clear. -/
def complement (b : Word) : Word := ~~~b &&& UInt16.ofNat valueMask

theorem toInt_nonneg (w : Word) : 0 ≤ w.toInt := Int.natCast_nonneg _

theorem toInt_le (w : Word) : w.toInt ≤ 65535 := by
  have := w.toNat_lt
  simp only [toInt]
  omega

/-- A word read back from its integer. -/
@[simp] theorem ofInt?_toInt (w : Word) : ofInt? w.toInt = some w := by
  have h : 0 ≤ w.toInt ∧ w.toInt ≤ wordMask := ⟨w.toInt_nonneg, w.toInt_le⟩
  rw [ofInt?, if_pos h]
  simp [toInt]

/-- The word of an integer reads back as that integer, and no other word does. -/
theorem ofInt?_eq_some_iff {value : Int} {w : Word} : ofInt? value = some w ↔ w.toInt = value := by
  constructor
  · intro h
    unfold ofInt? at h
    split at h
    · rename_i hv
      -- The integer lies between 0 and 65535, so it is the number of its word.
      cases h
      have hw : value ≤ 65535 := hv.2
      have : value.toNat % 2 ^ 16 = value.toNat := Nat.mod_eq_of_lt (by omega)
      simp only [toInt, UInt16.toNat_ofNat', this]
      omega
    · simp at h
  · rintro rfl
    exact ofInt?_toInt w

/-- Exactly the integers from 0 to 65535 are words. -/
theorem ofInt?_isSome_iff (value : Int) : (ofInt? value).isSome ↔ 0 ≤ value ∧ value ≤ 65535 := by
  unfold ofInt?
  split <;> simp_all

end Word

end WordMachine
