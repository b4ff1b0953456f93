/-! # Opcodes

The closed instruction set: 22 opcodes and one that marks a word no instruction starts with.

* `Opcode.ofNumber?` inverts `Opcode.number`.
* `Opcode.roles` fixes the shape of each instruction, so its length never depends on the operands.
-/

namespace WordMachine

/-- What an operand is used for. -/
inductive Role where
  /-- A register to write; never evaluated. -/
  | destination
  /-- A value, evaluated when the instruction executes. -/
  | source
  deriving DecidableEq, Repr

/-- The letter that tables show for a role. -/
def Role.letter : Role → String
  | .destination => "D"
  | .source => "S"

/-- The instruction set. -/
inductive Opcode where
  | halt | set | push | pop | eq | gt | jump | jumpIfTrue | jumpIfFalse | add | multiply | modulo
  | and | or | not | readMemory | writeMemory | call | ret | output | input | noop
  /-- Any word that starts no instruction. -/
  | invalid
  deriving DecidableEq, Repr

namespace Opcode

/-- Every opcode, in the order of the table. -/
def all : List Opcode :=
  [.halt, .set, .push, .pop, .eq, .gt, .jump, .jumpIfTrue, .jumpIfFalse, .add, .multiply, .modulo,
    .and, .or, .not, .readMemory, .writeMemory, .call, .ret, .output, .input, .noop, .invalid]

/-- The word that encodes an opcode; the invalid one has a number that no word has. -/
def number : Opcode → Int
  | .halt => 0
  | .set => 1
  | .push => 2
  | .pop => 3
  | .eq => 4
  | .gt => 5
  | .jump => 6
  | .jumpIfTrue => 7
  | .jumpIfFalse => 8
  | .add => 9
  | .multiply => 10
  | .modulo => 11
  | .and => 12
  | .or => 13
  | .not => 14
  | .readMemory => 15
  | .writeMemory => 16
  | .call => 17
  | .ret => 18
  | .output => 19
  | .input => 20
  | .noop => 21
  | .invalid => -1

/-- The opcode with a given number. -/
def ofNumber? (n : Int) : Option Opcode :=
  match n with
  | .ofNat k =>
    match k with
    | 0 => some .halt
    | 1 => some .set
    | 2 => some .push
    | 3 => some .pop
    | 4 => some .eq
    | 5 => some .gt
    | 6 => some .jump
    | 7 => some .jumpIfTrue
    | 8 => some .jumpIfFalse
    | 9 => some .add
    | 10 => some .multiply
    | 11 => some .modulo
    | 12 => some .and
    | 13 => some .or
    | 14 => some .not
    | 15 => some .readMemory
    | 16 => some .writeMemory
    | 17 => some .call
    | 18 => some .ret
    | 19 => some .output
    | 20 => some .input
    | 21 => some .noop
    | _ => none
  | .negSucc k => if k = 0 then some .invalid else none

/-- The opcode that a number stands for when it is read from memory. -/
def ofWord (n : Int) : Opcode := (ofNumber? n).getD .invalid

/-- How a listing writes an opcode. -/
def mnemonic : Opcode → String
  | .halt => "halt"
  | .set => "set"
  | .push => "push"
  | .pop => "pop"
  | .eq => "eq"
  | .gt => "gt"
  | .jump => "jmp"
  | .jumpIfTrue => "jt"
  | .jumpIfFalse => "jf"
  | .add => "add"
  | .multiply => "mult"
  | .modulo => "mod"
  | .and => "and"
  | .or => "or"
  | .not => "not"
  | .readMemory => "rmem"
  | .writeMemory => "wmem"
  | .call => "call"
  | .ret => "ret"
  | .output => "out"
  | .input => "in"
  | .noop => "noop"
  | .invalid => "invalid"

/-- The name of an opcode is its mnemonic in capitals. -/
def name (op : Opcode) : String := op.mnemonic.toUpper

/-- The operands of an opcode, in order. -/
def roles : Opcode → List Role
  | .halt | .ret | .noop | .invalid => []
  | .push | .jump | .call | .output => [.source]
  | .pop | .input => [.destination]
  | .set | .not | .readMemory => [.destination, .source]
  | .jumpIfTrue | .jumpIfFalse | .writeMemory => [.source, .source]
  | .eq | .gt | .add | .multiply | .modulo | .and | .or => [.destination, .source, .source]

/-- How many operands follow an opcode. -/
def operandCount (op : Opcode) : Nat := op.roles.length

@[simp] theorem mem_all (op : Opcode) : op ∈ all := by
  cases op <;> decide

/-- No opcode is listed twice. -/
theorem nodup_all : all.Nodup := by decide

/-- Each opcode is found again by its number. -/
@[simp] theorem ofNumber?_number (op : Opcode) : ofNumber? op.number = some op := by
  cases op <;> rfl

/-- A number stands for at most one opcode. -/
theorem number_of_ofNumber? {n : Int} {op : Opcode} (h : ofNumber? n = some op) :
    op.number = n := by
  unfold ofNumber? at h
  split at h
  · split at h <;> first | (injection h with h; subst h; rfl) | exact absurd h (by simp)
  · split at h
    · rename_i k hk
      injection h with h
      subst h hk
      rfl
    · simp at h

/-- A word that starts an instruction is the number of its opcode. -/
theorem number_ofWord {n : Int} (h : ofWord n ≠ .invalid) : (ofWord n).number = n := by
  unfold ofWord at h ⊢
  cases hn : ofNumber? n with
  | none =>
    rw [hn] at h
    exact absurd rfl h
  | some op => exact number_of_ofNumber? hn

theorem toList_name (op : Opcode) : op.name.toList = op.mnemonic.toList.map Char.toUpper :=
  String.toList_map

/-- No two opcodes have one name. -/
theorem name_injective : Function.Injective name := by
  have hletters : ∀ op ∈ all, ∀ op' ∈ all,
      op.mnemonic.toList.map Char.toUpper = op'.mnemonic.toList.map Char.toUpper → op = op' := by
    decide
  intro op op' h
  apply hletters op op.mem_all op' op'.mem_all
  rw [← toList_name, ← toList_name, h]

end Opcode

end WordMachine
