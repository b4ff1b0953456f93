import WordMachine.Text.Latin

/-! # The console

Where programs read and write bytes. Output is written one byte at a time; it is flushed after a
newline, before input is awaited, and whenever a caller asks.

* `output` is everything written so far, and `flushes` its length at each flush, in order.
* `bytesWritten` and `bytesRead` count what was written and consumed.
-/

namespace WordMachine

/-- What happens to a reader when all input has been read. -/
inductive InputEnd where
  /-- The input simply ends. -/
  | exhausted
  /-- Whoever gives the input interrupts the program. -/
  | interrupt
  deriving DecidableEq, Repr

/-- Byte input and output. -/
structure Console where
  /-- Input that has not been read. -/
  unread : Bytes := []
  inputEnd : InputEnd := .exhausted
  output : Array UInt8 := #[]
  flushes : Array Nat := #[]
  bytesWritten : Nat := 0
  bytesRead : Nat := 0
  deriving DecidableEq, Repr

namespace Console

/-- The byte that ends a line. -/
abbrev newline : UInt8 := 0x0A

/-- A console with the given input. -/
def ofInput (input : Bytes) : Console := { unread := input }

/-- Makes sure that everything written has left the program. -/
def flush (c : Console) : Console := { c with flushes := c.flushes.push c.output.size }

/-- Writes a byte; the end of a line is flushed. -/
def write (c : Console) (byte : UInt8) : Console :=
  let written := { c with output := c.output.push byte, bytesWritten := c.bytesWritten + 1 }
  if byte = newline then written.flush else written

/-- The next byte of input and the console without it; `none` if there is none left. -/
def read? (c : Console) : Option (UInt8 × Console) :=
  match c.unread with
  | [] => none
  | byte :: rest => some (byte, { c with unread := rest, bytesRead := c.bytesRead + 1 })

@[simp] theorem output_flush (c : Console) : c.flush.output = c.output := rfl

@[simp] theorem unread_flush (c : Console) : c.flush.unread = c.unread := rfl

@[simp] theorem bytesWritten_flush (c : Console) : c.flush.bytesWritten = c.bytesWritten := rfl

@[simp] theorem bytesRead_flush (c : Console) : c.flush.bytesRead = c.bytesRead := rfl

@[simp] theorem flushes_flush (c : Console) :
    c.flush.flushes = c.flushes.push c.output.size := rfl

@[simp] theorem output_write (c : Console) (byte : UInt8) :
    (c.write byte).output = c.output.push byte := by
  unfold write; split <;> rfl

@[simp] theorem unread_write (c : Console) (byte : UInt8) : (c.write byte).unread = c.unread := by
  unfold write; split <;> rfl

@[simp] theorem bytesWritten_write (c : Console) (byte : UInt8) :
    (c.write byte).bytesWritten = c.bytesWritten + 1 := by
  unfold write; split <;> rfl

@[simp] theorem bytesRead_write (c : Console) (byte : UInt8) :
    (c.write byte).bytesRead = c.bytesRead := by
  unfold write; split <;> rfl

/-- A byte is read exactly when there is one. -/
theorem read?_eq_some_iff {c c' : Console} {byte : UInt8} :
    c.read? = some (byte, c') ↔
      ∃ rest, c.unread = byte :: rest ∧
        c' = { c with unread := rest, bytesRead := c.bytesRead + 1 } := by
  cases h : c.unread with
  | nil => simp [read?, h]
  | cons b rest =>
    simp only [read?, h, Option.some.injEq, Prod.mk.injEq, List.cons.injEq]
    constructor
    · rintro ⟨rfl, rfl⟩
      exact ⟨rest, ⟨rfl, rfl⟩, rfl⟩
    · rintro ⟨_, ⟨rfl, rfl⟩, rfl⟩
      exact ⟨rfl, rfl⟩

end Console

end WordMachine
