import WordMachine.Datum
import WordMachine.Opcode

/-! # Instructions

A decoded instruction keeps its operands raw: a destination is a register selector and must not be
evaluated, and a source is evaluated only when the instruction executes.
-/

namespace WordMachine

/-- The result of decoding one instruction. -/
structure Instruction where
  /-- The opcode; `Opcode.invalid` if the word starts no instruction. -/
  opcode : Opcode
  /-- The operands as they stand in memory. -/
  operands : List Int
  /-- Address of the opcode word. -/
  address : Datum
  /-- The opcode word as it stands in memory. -/
  raw : Int
  deriving DecidableEq, Repr

namespace Instruction

/-- Whether the word starts an instruction. -/
def isValid (i : Instruction) : Bool := i.opcode != .invalid

/-- The words that an instruction was read from. -/
def words (i : Instruction) : List Int := i.raw :: i.operands

/-- The line of a listing: the mnemonic, a blank, and the operands between commas. -/
def text (i : Instruction) : String :=
  match i.opcode, i.operands with
  | .invalid, _ => s!"<invalid {i.raw}>"
  | op, [] => op.mnemonic
  | op, operands => op.mnemonic ++ " " ++ ", ".intercalate (operands.map toString)

end Instruction

end WordMachine
