import WordMachine.Machine.Storage

/-! # Decoding

Words at the program counter become instructions. The opcode alone says how many operands follow, and
they are kept raw.

* Decoding moves the counter past what it reads, and changes nothing else.
* Where memory ends inside an instruction, the counter stays at the end.
-/

namespace WordMachine

namespace Machine

/-- The next words at the counter. -/
def fetchOperands : Nat → Machine → Outcome (List Int)
  | 0, m => .done [] m
  | n + 1, m =>
    m.fetch.andThen fun w m =>
    (fetchOperands n m).andThen fun rest m =>
    .done (w.toInt :: rest) m

/-- Decodes the instruction at the counter. -/
def decode (m : Machine) : Outcome Instruction :=
  let address := m.pc
  m.fetch.andThen fun word m =>
  let opcode := Opcode.ofWord word.toInt
  (fetchOperands opcode.operandCount m).andThen fun operands m =>
  .done { opcode, operands, address, raw := word.toInt } m

/-- A row of instructions decoded one after the other, and what ended it early. -/
structure Listing where
  instructions : List Instruction
  error : Option Error
  deriving DecidableEq, Repr

/-- Decodes up to `n` instructions without executing them. -/
def listing : Nat → Machine → Listing × Machine
  | 0, m => (⟨[], none⟩, m)
  | n + 1, m =>
    match m.decode with
    | .done i m =>
      let (rest, m) := listing n m
      ({ rest with instructions := i :: rest.instructions }, m)
    | .failed e m => (⟨[], some e⟩, m)

end Machine

end WordMachine
