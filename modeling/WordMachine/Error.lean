import WordMachine.Fault
import WordMachine.Instruction
import WordMachine.Text.Numeral
import WordMachine.Word

/-! # Errors

All the ways in which an operation on a machine can fail. A fault ends the program that the machine
runs; any other error is a mistake of the caller, and leaves the machine running.

* `Error.naming` is the error of a fault whose message names an integer. A number of too many digits
  cannot be written into a message, and is an error of its own before there is any fault.
-/

namespace WordMachine

/-- Why an operation on a machine failed. -/
inductive Error where
  /-- A fatal condition of the running program. -/
  | fault (fault : Fault)
  /-- A step was asked of a machine that has halted. -/
  | halted
  /-- An instruction has the wrong number of operands. -/
  | operandCount (expected given : Nat)
  /-- The registry has no primitive for the opcode. -/
  | noPrimitive (opcode : Opcode)
  /-- The value does not fit a 16-bit cell. -/
  | outOfRange
  /-- The address or selector is allowed, but this machine has no such cell. -/
  | missingCell
  /-- The value is no integer where one is needed. -/
  | notNumber
  /-- A listed word does not fit 16 bits. -/
  | unencodable
  /-- The integer that a message should name has too many digits. -/
  | tooManyDigits
  /-- There is no register of that number. -/
  | noRegister (index : Int)
  /-- There is no way of halting of that name. -/
  | unknownReason (name : Datum)
  /-- The path contains the character that ends paths. -/
  | nulInPath
  /-- Whoever was to give the next byte interrupted the program instead. -/
  | interrupted
  deriving DecidableEq, Repr

namespace Error

/-- The error of a fatal condition whose address is not yet known. -/
abbrev ofCause (c : Cause) : Error := .fault ⟨c, .blank⟩

/-- The error of a fatal condition that names an integer, if that can be written. -/
def naming (cause : Datum → Cause) (n : Int) : Error :=
  if Text.isWritable n then .ofCause (cause (.number n)) else .tooManyDigits

/-- The message of an error. -/
def message : Error → String
  | .fault f => f.text
  | .halted => "Machine is halted"
  | .operandCount expected given =>
    if given < expected then
      s!"not enough values to unpack (expected {expected}, got {given})"
    else s!"too many values to unpack (expected {expected})"
  | .noPrimitive opcode => opcode.name
  | .outOfRange => "Value does not fit a cell"
  | .missingCell => "No such cell"
  | .notNumber => "Not a number"
  | .unencodable => "Word does not fit 16 bits"
  | .tooManyDigits =>
    s!"Exceeds the limit ({Text.maxDigits} digits) for integer string conversion; "
      ++ "use sys.set_int_max_str_digits() to increase the limit"
  | .noRegister index => s!"Invalid register: {index}"
  | .unknownReason name => s!"{name.quoted} is not a valid HaltReason"
  | .nulInPath => "embedded null byte"
  | .interrupted => "Interrupted"

/-! ## Small facts -/

section

variable {cause : Datum → Cause} {n : Int}

theorem naming_of_isWritable (h : Text.isWritable n = true) :
    naming cause n = .ofCause (cause (.number n)) := if_pos h

theorem naming_of_not_isWritable (h : Text.isWritable n = false) :
    naming cause n = .tooManyDigits := if_neg (by simp [h])

theorem naming_cases (cause : Datum → Cause) (n : Int) :
    naming cause n = .ofCause (cause (.number n)) ∨ naming cause n = .tooManyDigits := by
  cases h : Text.isWritable n with
  | true => exact .inl (naming_of_isWritable h)
  | false => exact .inr (naming_of_not_isWritable h)

theorem naming_ne {e : Error} (hfault : ∀ f, e ≠ .fault f) (hdigits : e ≠ .tooManyDigits) :
    naming cause n ≠ e := by
  rintro rfl
  rcases naming_cases cause n with h | h
  · exact hfault _ h
  · exact hdigits h

/-- It is a fault exactly when the integer can be written. -/
theorem naming_eq_fault_iff {f : Fault} :
    naming cause n = .fault f ↔ Text.isWritable n = true ∧ f = ⟨cause (.number n), .blank⟩ := by
  cases h : Text.isWritable n with
  | true =>
    rw [naming_of_isWritable h, Error.fault.injEq, eq_comm]
    exact ⟨fun hf => ⟨rfl, hf⟩, fun hf => hf.2⟩
  | false => simp [naming_of_not_isWritable h]

/-- What fits a word can be named. -/
theorem isWritable_of_bounds (h₀ : 0 ≤ n) (h₁ : n ≤ 65535) : Text.isWritable n = true :=
  Text.isWritable_of_le (by omega)

theorem naming_of_bounds (h₀ : 0 ≤ n) (h₁ : n ≤ 65535) :
    naming cause n = .ofCause (cause (.number n)) :=
  naming_of_isWritable (isWritable_of_bounds h₀ h₁)

@[simp] theorem naming_toInt (w : Word) :
    naming cause w.toInt = .ofCause (cause (.number w.toInt)) :=
  naming_of_bounds w.toInt_nonneg w.toInt_le

@[simp] theorem naming_memorySize :
    naming cause memorySize = .ofCause (cause (.number memorySize)) :=
  naming_of_bounds (by decide) (by decide)

end

end Error

end WordMachine
