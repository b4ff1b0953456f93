/-! # Text as bytes

Texts that a program reads and writes are rows of bytes, one byte for each of the first 256
characters. Characters beyond those have no byte and are read as a question mark.
-/

namespace WordMachine

/-- A row of bytes. -/
abbrev Bytes := List UInt8

namespace Text

/-- The byte of a character. -/
def byteOf (c : Char) : UInt8 := if c.toNat < 256 then UInt8.ofNat c.toNat else UInt8.ofNat 63

/-- The character of a byte. -/
def charOf (b : UInt8) : Char := Char.ofNat b.toNat

/-- What a program reads when it is given a text. -/
def toBytes (s : String) : Bytes := s.toList.map byteOf

/-- What a program has written, as a text. -/
def ofBytes (bytes : Bytes) : String := String.ofList (bytes.map charOf)

/-- A text whose characters all have a byte is read as their codes. -/
theorem toBytes_of_forall_lt {s : String} (h : ∀ c ∈ s.toList, c.toNat < 256) :
    toBytes s = s.toList.map fun c => UInt8.ofNat c.toNat :=
  List.map_congr_left fun c hc => if_pos (h c hc)

/-- A byte is the number of its character. -/
@[simp] theorem toNat_charOf (b : UInt8) : (charOf b).toNat = b.toNat := by
  have hvalid : b.toNat.isValidChar := .inl (Nat.lt_trans b.toNat_lt (by decide))
  rw [charOf, Char.ofNat, dif_pos hvalid]
  rfl

end Text

end WordMachine
