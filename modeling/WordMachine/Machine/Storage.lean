import WordMachine.Machine.Basic

/-! # Storage

Reading and writing registers, memory, stack and console.

* Reads are questions about a machine, so they cannot change it.
* A write checks the selector or address first, then that the cell exists, then that the value fits;
  a write that fails leaves the machine as it was.
-/

namespace WordMachine

/-- The word of an integer. -/
def wordOf (value : Int) : Except Error Word :=
  match Word.ofInt? value with
  | some w => .ok w
  | none => .error .outOfRange

/-- The word of a datum. -/
def Datum.word (d : Datum) : Except Error Word :=
  match d.toInt? with
  | some value => wordOf value
  | none => .error .notNumber

namespace Machine

/-! ## Operands and registers -/

/-- The number of the register that an operand selects. -/
def registerNumber (selector : Int) : Except Error Nat :=
  if registerBase ≤ selector ∧ selector < registerBase + registerCount then
    .ok (selector - registerBase).toNat
  else .error (.naming .invalidOperand selector)

/-- The content of the register that an operand selects. -/
def readRegister (m : Machine) (selector : Int) : Except Error Word :=
  match registerNumber selector with
  | .error e => .error e
  | .ok i =>
    match m.registers[i]? with
    | some w => .ok w
    | none => .error .missingCell

/-- The value of a source operand: a literal, or the content of a register. -/
def resolve (m : Machine) (operand : Int) : Except Error Word :=
  if 0 ≤ operand ∧ operand < registerBase then .ok (UInt16.ofNat operand.toNat)
  else m.readRegister operand

/-- The content of a register, by its number. -/
def register (m : Machine) (index : Int) : Except Error Word :=
  if 0 ≤ index ∧ index < registerCount then
    match m.registers[index.toNat]? with
    | some w => .ok w
    | none => .error .missingCell
  else .error (if Text.isWritable index then .noRegister index else .tooManyDigits)

/-- Writes the register that an operand selects. -/
def writeRegister (m : Machine) (selector : Int) (value : Except Error Word) : Outcome Unit :=
  match registerNumber selector with
  | .error e => .failed e m
  | .ok i =>
    if i < m.registers.size then
      match value with
      | .ok w => .done () { m with registers := m.registers.setIfInBounds i w }
      | .error e => .failed e m
    else .failed .missingCell m

/-! ## Memory -/

/-- The number of the cell at an address. -/
def cellNumber (address : Int) : Except Error Nat :=
  if 0 ≤ address ∧ address < memorySize then .ok address.toNat
  else .error (.naming .addressOutOfRange address)

/-- The word at an address. -/
def readMemory (m : Machine) (address : Int) : Except Error Word :=
  match cellNumber address with
  | .error e => .error e
  | .ok i =>
    match m.memory[i]? with
    | some w => .ok w
    | none => .error .missingCell

/-- Writes the word at an address. -/
def writeMemory (m : Machine) (address : Int) (value : Except Error Word) : Outcome Unit :=
  match cellNumber address with
  | .error e => .failed e m
  | .ok i =>
    if i < m.memory.size then
      match value with
      | .ok w => .done () { m with memory := m.memory.setIfInBounds i w }
      | .error e => .failed e m
    else .failed .missingCell m

/-- The address that a datum stands for. One that is not whole may still be out of range. -/
def addressOf (d : Datum) : Except Error Int :=
  match d.toInt? with
  | some address => .ok address
  | none =>
    if d.liesIn? 0 memorySize = some false then .error (.ofCause (.addressOutOfRange d))
    else .error .notNumber

@[simp] theorem addressOf_number (address : Int) : addressOf (.number address) = .ok address := rfl

/-- The word at the counter, which moves on by one. -/
def fetch (m : Machine) : Outcome Word :=
  m.given (addressOf m.pc) fun address =>
  m.given (m.readMemory address) fun w =>
  .done w { m with pc := .number (address + 1) }

/-! ## Stack -/

/-- Puts a datum on top of the stack. -/
def push (m : Machine) (d : Datum) : Machine := { m with stack := d :: m.stack }

/-- Takes the top off the stack; an empty stack gives a blank. -/
def pop (m : Machine) : Datum × Machine :=
  match m.stack with
  | [] => (.blank, m)
  | top :: rest => (top, { m with stack := rest })

/-! ## Console -/

/-- Writes a byte; output that has become long enough asks the machine to stop. -/
def emit (m : Machine) (byte : UInt8) : Machine :=
  let m := { m with console := m.console.write byte }
  { m with stopRequested :=
      m.stopRequested || m.stopAt.any fun size => decide (size ≤ (m.console.output.size : Int)) }

/-- Flushes the output. -/
def flush (m : Machine) : Machine := { m with console := m.console.flush }

/-- Flushes the output, then consumes one byte of input. -/
def readByte (m : Machine) : Outcome UInt8 :=
  let m := m.flush
  match m.console.read? with
  | some (byte, console) => .done byte { m with console := console }
  | none =>
    match m.console.inputEnd with
    | .exhausted => .failed (.ofCause .inputExhausted) m
    | .interrupt => .failed .interrupted m

end Machine

end WordMachine
