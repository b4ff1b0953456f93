import WordMachine.Console
import WordMachine.Error
import WordMachine.Word

/-! # The machine

Everything that a running program can change: storage, stack, program counter, how the machine
halted, the number of cycles, and the console.

* An `Outcome` says whether an operation failed, and either way which machine it left.
* Nothing is running any more exactly when `Machine.halt` is set.
* Stack and counter can hold any datum. Programs put integers there; what else a caller has pushed goes
  to the counter when a program returns to it, and is found to be no address only then.
-/

namespace WordMachine

/-! ## Halting -/

/-- Why a machine stopped. -/
inductive HaltReason where
  /-- The program said so. -/
  | halt
  /-- The program popped from an empty stack. -/
  | emptyStack
  /-- Somebody asked the machine to stop. -/
  | stopped
  /-- A fatal condition. -/
  | fault
  deriving DecidableEq, Repr

/-- The word for a reason. -/
def HaltReason.text : HaltReason → String
  | .halt => "halt"
  | .emptyStack => "empty_stack"
  | .stopped => "stopped"
  | .fault => "fault"

/-- How a machine halted. -/
structure Halt where
  reason : HaltReason
  /-- The fatal condition, if there was one. -/
  fault : Option Fault := none
  deriving DecidableEq, Repr

/-- Whether a datum is a 16-bit word. -/
def Datum.isWord (d : Datum) : Bool :=
  match d.toInt? with
  | some value => 0 ≤ value && value ≤ wordMask
  | none => false

/-! ## The machine -/

/-- A machine. The default is a fresh one: zero storage, empty stack, counter at zero. -/
structure Machine where
  memory : Array Word := Array.replicate memorySize 0
  registers : Array Word := Array.replicate registerCount 0
  /-- The stack, top first. -/
  stack : List Datum := []
  /-- Address of the next word to decode. -/
  pc : Datum := .number 0
  /-- How the machine halted, if it did. -/
  halt : Option Halt := none
  /-- Number of instructions executed. -/
  cycles : Int := 0
  console : Console := {}
  /-- Size of the last image loaded. -/
  bytesLoaded : Nat := 0
  /-- The limit on cycles of a run that is given none. -/
  maxCycles : Option Int := none
  /-- The length of output from which every write asks the machine to stop. -/
  stopAt : Option Int := none
  /-- Whether somebody has asked the machine to stop. -/
  stopRequested : Bool := false
  deriving DecidableEq, Repr

namespace Machine

/-- Whether the machine has halted. -/
def isHalted (m : Machine) : Bool := m.halt.isSome

/-- Why the machine halted, if it did. -/
def haltReason (m : Machine) : Option HaltReason := m.halt.map (·.reason)

/-- The fatal condition that halted the machine, if there was one. -/
def fault (m : Machine) : Option Fault := m.halt.bind (·.fault)

/-- Halts the machine. -/
def haltWith (m : Machine) (reason : HaltReason) (fault : Option Fault) : Machine :=
  { m with halt := some ⟨reason, fault⟩ }

/-- Asks the machine to stop before its next instruction. -/
def requestStop (m : Machine) : Machine := { m with stopRequested := true }

/-- The number of stack entries. -/
def stackDepth (m : Machine) : Nat := m.stack.length

/-- The checks on a machine: its sizes, its stack, its counter and its cycles. They cannot be finished
if the counter has no place among the integers. -/
def validate (m : Machine) : Except Error Bool :=
  if m.memory.size = memorySize ∧ m.registers.size = registerCount ∧ m.stack.all Datum.isWord then
    match m.pc.compareTo? 0, m.pc.compareTo? memorySize with
    | some toZero, some toEnd => .ok (toZero.isGE && toEnd.isLE && 0 ≤ m.cycles)
    | _, _ => .error .notNumber
  else .ok false

/-- Memory cells from an address on, as far as they exist. -/
def peek (m : Machine) (start count : Int) : List Word :=
  (m.memory.extract start.toNat (start + count).toNat).toList

end Machine

/-! ## Outcomes -/

/-- What an operation on a machine came to, and the machine that it left. -/
inductive Outcome (α : Type) where
  | done (value : α) (machine : Machine)
  | failed (error : Error) (machine : Machine)
  deriving DecidableEq, Repr

namespace Outcome

/-- The machine that is left. -/
def machine {α : Type} : Outcome α → Machine
  | .done _ m => m
  | .failed _ m => m

/-- The value or the error. -/
def result {α : Type} : Outcome α → Except Error α
  | .done a _ => .ok a
  | .failed e _ => .error e

/-- Goes on with the value and the machine, unless the operation failed. -/
@[inline] def andThen {α β : Type} (o : Outcome α) (f : α → Machine → Outcome β) : Outcome β :=
  match o with
  | .done a m => f a m
  | .failed e m => .failed e m

/-- Changes the value. -/
@[inline] def map {α β : Type} (f : α → β) (o : Outcome α) : Outcome β :=
  o.andThen fun a m => .done (f a) m

@[simp] theorem andThen_done {α β : Type} (a : α) (m : Machine) (f : α → Machine → Outcome β) :
    (done a m).andThen f = f a m := rfl

@[simp] theorem andThen_failed {α β : Type} (e : Error) (m : Machine)
    (f : α → Machine → Outcome β) : (failed e m : Outcome α).andThen f = failed e m := rfl

@[simp] theorem map_done {α β : Type} (f : α → β) (a : α) (m : Machine) :
    (done a m).map f = done (f a) m := rfl

@[simp] theorem map_failed {α β : Type} (f : α → β) (e : Error) (m : Machine) :
    (failed e m).map f = failed e m := rfl

/-- Going on succeeds exactly when both parts do. -/
theorem andThen_eq_done_iff {α β : Type} {o : Outcome α} {f : α → Machine → Outcome β} {b : β}
    {m : Machine} : o.andThen f = done b m ↔ ∃ a m₁, o = done a m₁ ∧ f a m₁ = done b m := by
  cases o with
  | done a m₁ =>
    constructor
    · exact fun h => ⟨a, m₁, rfl, h⟩
    · rintro ⟨_, _, h, h'⟩
      cases h
      exact h'
  | failed e m₁ => simp

end Outcome

namespace Machine

/-- Goes on with the answer to a question about the machine, unless there is none. -/
@[inline] def given {α β : Type} (m : Machine) (answer : Except Error α) (f : α → Outcome β) :
    Outcome β :=
  match answer with
  | .ok a => f a
  | .error e => .failed e m

@[simp] theorem given_ok {α β : Type} (m : Machine) (a : α) (f : α → Outcome β) :
    m.given (.ok a) f = f a := rfl

@[simp] theorem given_error {α β : Type} (m : Machine) (e : Error) (f : α → Outcome β) :
    m.given (.error e) f = .failed e m := rfl

end Machine

end WordMachine
