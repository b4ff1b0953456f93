import WordMachine.Datum
import WordMachine.FileSystem
import WordMachine.Text.Quoted

/-! # Faults

The fatal conditions of the machine. Each has a cause, and most also the address of the instruction
that met it; a fault that is raised before that address is known gets it later.

* `Fault.text` is what a user sees; the address is appended when it is known, zero included.
* The machine finds fault with integers, and with a counter that is none; a caller who makes a fault
  may find fault with anything.
-/

namespace WordMachine

/-- Why a program image could not be loaded. -/
inductive LoadError where
  /-- The path leads to no file that can be read. -/
  | unreadable (path : String) (reason : AccessError)
  /-- The stream that should have given the image failed. -/
  | streamFailed (reason : String)
  /-- The image has more bytes than memory holds. -/
  | tooLarge (size : Nat)
  /-- A failure that a caller describes. -/
  | described (what : Datum)
  deriving DecidableEq, Repr

/-- The number of bytes that memory holds. -/
abbrev maxImageBytes : Nat := 65536

/-- The message of a load error. -/
def LoadError.message : LoadError → String
  | .unreadable path reason =>
    s!"Cannot read program image {path}: [Errno {reason.number}] {reason.text}: "
      ++ Text.quote (Path.ofText path).text
  | .streamFailed reason => s!"Cannot read program image: {reason}"
  | .tooLarge size => s!"Program image is {size} bytes, memory holds {maxImageBytes}"
  | .described what => what.shown

/-- The fatal conditions. -/
inductive Cause where
  /-- An operand that is neither a literal nor a register. -/
  | invalidOperand (operand : Datum)
  /-- A word that starts no instruction. -/
  | invalidOpcode (word : Datum)
  /-- An address outside memory. -/
  | addressOutOfRange (address : Datum)
  | moduloByZero
  /-- An instruction waits for a byte and there is none left. -/
  | inputExhausted
  | unloadable (error : LoadError)
  /-- The machine has used up the cycles that it was given. -/
  | cycleLimit (limit : Datum)
  /-- A condition that a caller describes. -/
  | described (what : Datum)
  deriving DecidableEq, Repr

/-- The message of a cause. -/
def Cause.message : Cause → String
  | .invalidOperand operand => s!"Invalid operand: {operand.shown}"
  | .invalidOpcode word => s!"Invalid opcode: {word.shown}"
  | .addressOutOfRange address => s!"Memory address out of range: {address.shown}"
  | .moduloByZero => "Modulo by zero"
  | .inputExhausted => "End of input while waiting for a byte"
  | .unloadable error => error.message
  | .cycleLimit limit => s!"Max cycles ({limit.shown}) exceeded"
  | .described what => what.shown

/-- A cause, and where it was met; the place is blank as long as it is not known. -/
structure Fault where
  cause : Cause
  pc : Datum := .blank
  deriving DecidableEq, Repr

namespace Fault

/-- The message of a fault, with the address behind it if it is known. -/
def text (f : Fault) : String :=
  match f.pc with
  | .blank => f.cause.message
  | pc => s!"{f.cause.message} (at pc={pc.shown})"

/-- Fills in the address of a fault that has none. -/
def locate (f : Fault) (address : Datum) : Fault :=
  match f.pc with
  | .blank => { f with pc := address }
  | _ => f

@[simp] theorem cause_locate (f : Fault) (address : Datum) :
    (f.locate address).cause = f.cause := by
  unfold locate; split <;> rfl

end Fault

end WordMachine
