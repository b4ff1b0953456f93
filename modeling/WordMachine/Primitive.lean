import WordMachine.Decode

/-! # Primitives

What each opcode does. A primitive acts on a machine whose counter is already past the instruction,
and says whether the machine keeps running.

* Sources are evaluated from left to right, then the destination is looked at, then it is written;
  a remainder looks at its divisor first.
* A popped entry and a byte of input are gone even if the destination turns out to be none.
* Operands have to be as many as the opcode takes; opcodes that take none do not look at them.
-/

namespace WordMachine

/-- What an instruction does. -/
abbrev Primitive := Instruction → Machine → Outcome Bool

namespace Instruction

/-- The only operand. -/
def one (i : Instruction) : Except Error Int :=
  match i.operands with
  | [a] => .ok a
  | operands => .error (.operandCount 1 operands.length)

/-- The two operands. -/
def two (i : Instruction) : Except Error (Int × Int) :=
  match i.operands with
  | [a, b] => .ok (a, b)
  | operands => .error (.operandCount 2 operands.length)

/-- The three operands. -/
def three (i : Instruction) : Except Error (Int × Int × Int) :=
  match i.operands with
  | [a, b, c] => .ok (a, b, c)
  | operands => .error (.operandCount 3 operands.length)

end Instruction

/-- Writes a word to the register that an operand selects, and keeps running. -/
def Machine.assign (m : Machine) (selector : Int) (w : Word) : Outcome Bool :=
  (m.writeRegister selector (.ok w)).map fun _ => true

namespace Primitive

/-! ## Shapes -/

/-- A register becomes a function of one source. -/
def unary (f : Machine → Word → Except Error Word) : Primitive := fun i m =>
  m.given i.two fun (a, b) =>
  m.given (m.resolve b) fun x =>
  m.given (f m x) fun value =>
  m.assign a value

/-- A register becomes a function of two sources. -/
def binary (f : Word → Word → Word) : Primitive := fun i m =>
  m.given i.three fun (a, b, c) =>
  m.given (m.resolve b) fun x =>
  m.given (m.resolve c) fun y =>
  m.assign a (f x y)

/-- A jump if the first source passes a test; only then is the target looked at. -/
def branch (test : Word → Bool) : Primitive := fun i m =>
  m.given i.two fun (a, b) =>
  m.given (m.resolve a) fun x =>
  if test x then
    m.given (m.resolve b) fun target => .done true { m with pc := .number target.toInt }
  else .done true m

/-! ## Control -/

/-- Stops the machine. -/
def halt : Primitive := fun _ m => .done false (m.haltWith .halt none)

/-- Does nothing. -/
def noop : Primitive := fun _ m => .done true m

/-- A word that starts no instruction is always fatal. -/
def invalid : Primitive := fun i m => .failed (.naming .invalidOpcode i.raw) m

/-! ## Data movement -/

/-- A register becomes a value. -/
def set : Primitive := unary fun _ x => .ok x

/-- A value goes on top of the stack. -/
def push : Primitive := fun i m =>
  m.given i.one fun a =>
  m.given (m.resolve a) fun x =>
  .done true (m.push (.number x.toInt))

/-- The top of the stack goes to a register; an empty stack stops the machine. -/
def pop : Primitive := fun i m =>
  m.given i.one fun a =>
  match m.pop with
  | (.blank, m) => .done false (m.haltWith .emptyStack none)
  | (top, m) => (m.writeRegister a top.word).map fun _ => true

/-- A register becomes the word at an address. -/
def readMemory : Primitive := unary fun m x => m.readMemory x.toInt

/-- The word at an address becomes a value. -/
def writeMemory : Primitive := fun i m =>
  m.given i.two fun (a, b) =>
  m.given (m.resolve a) fun x =>
  m.given (m.resolve b) fun y =>
  (m.writeMemory x.toInt (.ok y)).map fun _ => true

/-! ## Comparison and arithmetic -/

/-- One if two values are equal. -/
def eq : Primitive := binary fun x y => .ofBool (x == y)

/-- One if the first of two values is larger. -/
def gt : Primitive := binary fun x y => .ofBool (y < x)

/-- Sum modulo 32768. -/
def add : Primitive := binary Word.add

/-- Product modulo 32768. -/
def multiply : Primitive := binary Word.multiply

/-- Remainder. The divisor comes first, and must not be zero. -/
def modulo : Primitive := fun i m =>
  m.given i.three fun (a, b, c) =>
  m.given (m.resolve c) fun y =>
  if y = 0 then .failed (.ofCause .moduloByZero) m
  else m.given (m.resolve b) fun x => m.assign a (x % y)

/-- Conjunction, bit by bit. -/
def and : Primitive := binary fun x y => x &&& y

/-- Disjunction, bit by bit. -/
def or : Primitive := binary fun x y => x ||| y

/-- The 15-bit complement. -/
def not : Primitive := unary fun _ x => .ok (Word.complement x)

/-! ## Control flow -/

/-- The counter becomes a value. -/
def jump : Primitive := fun i m =>
  m.given i.one fun a =>
  m.given (m.resolve a) fun target =>
  .done true { m with pc := .number target.toInt }

/-- A jump if a value is not zero. -/
def jumpIfTrue : Primitive := branch (· != 0)

/-- A jump if a value is zero. -/
def jumpIfFalse : Primitive := branch (· == 0)

/-- The counter goes on top of the stack and becomes a value. -/
def call : Primitive := fun i m =>
  m.given i.one fun a =>
  m.given (m.resolve a) fun target =>
  .done true { m.push m.pc with pc := .number target.toInt }

/-- The counter becomes the top of the stack, whatever that is; an empty stack stops the machine. -/
def ret : Primitive := fun _ m =>
  match m.pop with
  | (.blank, m) => .done false (m.haltWith .emptyStack none)
  | (address, m) => .done true { m with pc := address }

/-! ## Input and output -/

/-- The low byte of a value is written. -/
def output : Primitive := fun i m =>
  m.given i.one fun a =>
  m.given (m.resolve a) fun x =>
  .done true (m.emit x.lowByte)

/-- A register becomes the next byte of input. -/
def input : Primitive := fun i m =>
  m.given i.one fun a =>
  m.readByte.andThen fun byte m =>
  m.assign a byte.toUInt16

end Primitive

/-- The primitive of each opcode. -/
def Opcode.primitive : Opcode → Primitive
  | .halt => Primitive.halt
  | .set => Primitive.set
  | .push => Primitive.push
  | .pop => Primitive.pop
  | .eq => Primitive.eq
  | .gt => Primitive.gt
  | .jump => Primitive.jump
  | .jumpIfTrue => Primitive.jumpIfTrue
  | .jumpIfFalse => Primitive.jumpIfFalse
  | .add => Primitive.add
  | .multiply => Primitive.multiply
  | .modulo => Primitive.modulo
  | .and => Primitive.and
  | .or => Primitive.or
  | .not => Primitive.not
  | .readMemory => Primitive.readMemory
  | .writeMemory => Primitive.writeMemory
  | .call => Primitive.call
  | .ret => Primitive.ret
  | .output => Primitive.output
  | .input => Primitive.input
  | .noop => Primitive.noop
  | .invalid => Primitive.invalid

end WordMachine
