import Mathlib.Data.List.Basic
import WordMachine.Registry
import WordMachine.Proofs.Storage

/-! # What executing an instruction does

The primitives as a table of rules: `Executes` has one rule for each way in which an instruction can
succeed, and `Aborts` one for each way in which it can fail, with the machine that it leaves.

* `primitive_eq_done_iff`: an instruction succeeds exactly by one of the rules.
* `aborts_of_primitive`: one that fails does so by one of the others, and leaves everything but the
  stack and the console as it was (`Aborts.frame`).

Whatever holds of every instruction is proved from these rules, never from the primitives.
-/

namespace WordMachine

/-! ## Families of opcodes -/

namespace Opcode

/-- The function of the opcodes that make a register a function of one source. -/
def unary? : Opcode → Option (Word → Word)
  | .set => some id
  | .not => some Word.complement
  | _ => none

/-- The function of the opcodes that make a register a function of two sources. -/
def binary? : Opcode → Option (Word → Word → Word)
  | .eq => some fun x y => .ofBool (x == y)
  | .gt => some fun x y => .ofBool (y < x)
  | .add => some Word.add
  | .multiply => some Word.multiply
  | .and => some fun x y => x &&& y
  | .or => some fun x y => x ||| y
  | _ => none

/-- The test of the opcodes that jump under a condition. -/
def branch? : Opcode → Option (Word → Bool)
  | .jumpIfTrue => some (· != 0)
  | .jumpIfFalse => some (· == 0)
  | _ => none

variable {op : Opcode}

theorem primitive_of_unary? {f : Word → Word} (h : op.unary? = some f) :
    op.primitive = Primitive.unary fun _ x => .ok (f x) := by
  cases op <;> cases h <;> rfl

theorem primitive_of_binary? {f : Word → Word → Word} (h : op.binary? = some f) :
    op.primitive = Primitive.binary f := by
  cases op <;> cases h <;> rfl

theorem primitive_of_branch? {test : Word → Bool} (h : op.branch? = some test) :
    op.primitive = Primitive.branch test := by
  cases op <;> cases h <;> rfl

end Opcode

/-! ## Operands -/

namespace Instruction

variable {i : Instruction} {e : Error} {a b c : Int}

theorem one_eq_ok_iff : i.one = .ok a ↔ i.operands = [a] := by
  unfold one
  split
  · rename_i a' h
    simp [h]
  · rename_i h
    simp only [reduceCtorEq, false_iff]
    exact h a

theorem two_eq_ok_iff : i.two = .ok (a, b) ↔ i.operands = [a, b] := by
  unfold two
  split
  · rename_i a' b' h
    simp [h]
  · rename_i h
    simp only [reduceCtorEq, false_iff]
    exact h a b

theorem three_eq_ok_iff : i.three = .ok (a, b, c) ↔ i.operands = [a, b, c] := by
  unfold three
  split
  · rename_i a' b' c' h
    simp [h]
  · rename_i h
    simp only [reduceCtorEq, false_iff]
    exact h a b c

theorem one_eq_error (h : i.one = .error e) :
    e = .operandCount 1 i.operands.length ∧ i.operands.length ≠ 1 := by
  unfold one at h
  split at h
  · cases h
  · rename_i hne
    cases h
    refine ⟨rfl, fun hlen => ?_⟩
    rcases List.length_eq_one_iff.1 hlen with ⟨a, h⟩
    exact hne a h

theorem two_eq_error (h : i.two = .error e) :
    e = .operandCount 2 i.operands.length ∧ i.operands.length ≠ 2 := by
  unfold two at h
  split at h
  · cases h
  · rename_i hne
    cases h
    refine ⟨rfl, fun hlen => ?_⟩
    rcases List.length_eq_two.1 hlen with ⟨a, b, h⟩
    exact hne a b h

theorem three_eq_error (h : i.three = .error e) :
    e = .operandCount 3 i.operands.length ∧ i.operands.length ≠ 3 := by
  unfold three at h
  split at h
  · cases h
  · rename_i hne
    cases h
    refine ⟨rfl, fun hlen => ?_⟩
    rcases List.length_eq_three.1 hlen with ⟨a, b, c, h⟩
    exact hne a b c h

end Instruction

namespace Machine

variable {m m' : Machine} {selector : Int} {w : Word}

/-- The register that an operand selects, in a machine that has it. -/
def Selects (m : Machine) (selector : Int) (r : Nat) : Prop :=
  registerNumber selector = .ok r ∧ r < m.registers.size

theorem assign_eq_done_iff {b : Bool} :
    m.assign selector w = .done b m' ↔
      b = true ∧ ∃ r, m.Selects selector r ∧
        m' = { m with registers := m.registers.setIfInBounds r w } := by
  simp only [assign, Outcome.map_eq_done_iff, writeRegister_eq_done_iff, Except.ok.injEq, Selects]
  constructor
  · intro hx
    rcases hx with ⟨-, ⟨r, w', hr, hlt, rfl, rfl⟩, rfl⟩
    exact ⟨rfl, r, ⟨hr, hlt⟩, rfl⟩
  · intro hx
    rcases hx with ⟨rfl, r, ⟨hr, hlt⟩, rfl⟩
    exact ⟨(), ⟨r, w, hr, hlt, rfl, rfl⟩, rfl⟩

theorem assign_eq_failed {e : Error} (h : m.assign selector w = .failed e m') :
    m' = m ∧ (registerNumber selector = .error e ∨ (e = .missingCell ∧ ¬ m.Sized)) := by
  rcases writeRegister_eq_failed (Outcome.map_eq_failed_iff.1 h) with ⟨rfl, hr | hr | hr⟩
  · exact ⟨rfl, .inl hr⟩
  · exact ⟨rfl, .inr hr⟩
  · cases hr

end Machine

/-! ## The rules -/

/-- `Executes i m b m'`: from `m` the instruction succeeds and leaves `m'`, and `b` says whether the
machine keeps running. -/
inductive Executes (i : Instruction) (m : Machine) : Bool → Machine → Prop where
  | halt (op : i.opcode = .halt) : Executes i m false (m.haltWith .halt none)
  | noop (op : i.opcode = .noop) : Executes i m true m
  | unary {f : Word → Word} {a b : Int} {x : Word} {r : Nat} (op : i.opcode.unary? = some f)
      (operands : i.operands = [a, b]) (source : m.resolve b = .ok x) (dest : m.Selects a r) :
      Executes i m true { m with registers := m.registers.setIfInBounds r (f x) }
  | binary {f : Word → Word → Word} {a b c : Int} {x y : Word} {r : Nat}
      (op : i.opcode.binary? = some f) (operands : i.operands = [a, b, c])
      (first : m.resolve b = .ok x) (second : m.resolve c = .ok y) (dest : m.Selects a r) :
      Executes i m true { m with registers := m.registers.setIfInBounds r (f x y) }
  | modulo {a b c : Int} {x y : Word} {r : Nat} (op : i.opcode = .modulo)
      (operands : i.operands = [a, b, c]) (first : m.resolve b = .ok x)
      (second : m.resolve c = .ok y) (nonzero : y ≠ 0) (dest : m.Selects a r) :
      Executes i m true { m with registers := m.registers.setIfInBounds r (x % y) }
  | load {a b : Int} {x w : Word} {r : Nat} (op : i.opcode = .readMemory)
      (operands : i.operands = [a, b]) (address : m.resolve b = .ok x)
      (cell : m.readMemory x.toInt = .ok w) (dest : m.Selects a r) :
      Executes i m true { m with registers := m.registers.setIfInBounds r w }
  | store {a b : Int} {x y : Word} {k : Nat} (op : i.opcode = .writeMemory)
      (operands : i.operands = [a, b]) (address : m.resolve a = .ok x)
      (source : m.resolve b = .ok y) (cell : Machine.cellNumber x.toInt = .ok k)
      (inside : k < m.memory.size) :
      Executes i m true { m with memory := m.memory.setIfInBounds k y }
  | push {a : Int} {x : Word} (op : i.opcode = .push) (operands : i.operands = [a])
      (source : m.resolve a = .ok x) : Executes i m true (m.push (.number x.toInt))
  | pop {a : Int} {top : Datum} {rest : List Datum} {w : Word} {r : Nat} (op : i.opcode = .pop)
      (operands : i.operands = [a]) (stack : m.stack = top :: rest) (entry : top ≠ .blank)
      (word : top.word = .ok w) (dest : m.Selects a r) :
      Executes i m true
        { m with stack := rest, registers := m.registers.setIfInBounds r w }
  | jump {a : Int} {t : Word} (op : i.opcode = .jump) (operands : i.operands = [a])
      (target : m.resolve a = .ok t) : Executes i m true { m with pc := .number t.toInt }
  | branch {test : Word → Bool} {a b : Int} {x t : Word} (op : i.opcode.branch? = some test)
      (operands : i.operands = [a, b]) (source : m.resolve a = .ok x) (taken : test x = true)
      (target : m.resolve b = .ok t) : Executes i m true { m with pc := .number t.toInt }
  | pass {test : Word → Bool} {a b : Int} {x : Word} (op : i.opcode.branch? = some test)
      (operands : i.operands = [a, b]) (source : m.resolve a = .ok x) (taken : test x = false) :
      Executes i m true m
  | call {a : Int} {t : Word} (op : i.opcode = .call) (operands : i.operands = [a])
      (target : m.resolve a = .ok t) :
      Executes i m true { m with stack := m.pc :: m.stack, pc := .number t.toInt }
  | ret {top : Datum} {rest : List Datum} (op : i.opcode = .ret) (stack : m.stack = top :: rest)
      (entry : top ≠ .blank) : Executes i m true { m with stack := rest, pc := top }
  /-- Nothing is taken off an empty stack, nor is a blank that somebody has put there an entry. -/
  | underflow {rest : List Datum}
      (op : (i.opcode = .pop ∧ i.operands.length = 1) ∨ i.opcode = .ret)
      (stack : (m.stack = [] ∧ rest = []) ∨ m.stack = .blank :: rest) :
      Executes i m false ({ m with stack := rest }.haltWith .emptyStack none)
  | output {a : Int} {x : Word} (op : i.opcode = .output) (operands : i.operands = [a])
      (source : m.resolve a = .ok x) : Executes i m true (m.emit x.lowByte)
  | input {a : Int} {byte : UInt8} {console : Console} {r : Nat} (op : i.opcode = .input)
      (operands : i.operands = [a]) (read : m.console.flush.read? = some (byte, console))
      (dest : m.Selects a r) :
      Executes i m true
        { m with console := console, registers := m.registers.setIfInBounds r byte.toUInt16 }

/-- `Aborts i m e m'`: from `m` the instruction may fail with `e` and leave `m'`. -/
inductive Aborts (i : Instruction) (m : Machine) : Error → Machine → Prop where
  | invalid {e : Error} (op : i.opcode = .invalid) (reason : e = .naming .invalidOpcode i.raw) :
      Aborts i m e m
  | operandCount {n : Nat} (takes : i.opcode.operandCount = n) (given : i.operands.length ≠ n) :
      Aborts i m (.operandCount n i.operands.length) m
  | operand {a : Int} {e : Error} (mem : a ∈ i.operands)
      (reason : e = .naming .invalidOperand a) : Aborts i m e m
  /-- The machine is smaller than its operands assume. -/
  | missing (small : ¬ m.Sized) : Aborts i m .missingCell m
  | zero (op : i.opcode = .modulo) : Aborts i m (.ofCause .moduloByZero) m
  | address {a : Int} {x : Word} (mem : a ∈ i.operands) (source : m.resolve a = .ok x)
      (outside : memorySize ≤ x.toNat) :
      Aborts i m (.ofCause (.addressOutOfRange (.number x.toInt))) m
  /-- The entry that was taken off the stack is gone. -/
  | popped {a : Int} {top : Datum} {rest : List Datum} {e : Error} (op : i.opcode = .pop)
      (operands : i.operands = [a]) (stack : m.stack = top :: rest) (entry : top ≠ .blank)
      (reason : e = .naming .invalidOperand a ∨ (e = .missingCell ∧ ¬ m.Sized) ∨
        top.word = .error e) :
      Aborts i m e { m with stack := rest }
  | exhausted {e : Error} (op : i.opcode = .input) (empty : m.console.unread = [])
      (reason : e = m.console.inputEnd.error) : Aborts i m e m.flush
  /-- The byte that was read is gone. -/
  | consumed {a : Int} {byte : UInt8} {console : Console} {e : Error} (op : i.opcode = .input)
      (operands : i.operands = [a]) (read : m.console.flush.read? = some (byte, console))
      (reason : e = .naming .invalidOperand a ∨ (e = .missingCell ∧ ¬ m.Sized)) :
      Aborts i m e { m with console := console }

/-! ## Success -/

section Success

variable {i : Instruction} {m m' : Machine} {b : Bool}

theorem executes_of_unary {f : Word → Word} (op : i.opcode.unary? = some f)
    (h : i.opcode.primitive i m = .done b m') : Executes i m b m' := by
  rw [Opcode.primitive_of_unary? op] at h
  simp only [Primitive.unary, Machine.given_eq_done_iff, Machine.assign_eq_done_iff,
    Except.ok.injEq] at h
  rcases h with ⟨⟨a, b⟩, hi, x, hx, _, rfl, rfl, r, hr, rfl⟩
  exact .unary op (Instruction.two_eq_ok_iff.1 hi) hx hr

theorem executes_of_binary {f : Word → Word → Word} (op : i.opcode.binary? = some f)
    (h : i.opcode.primitive i m = .done b m') : Executes i m b m' := by
  rw [Opcode.primitive_of_binary? op] at h
  simp only [Primitive.binary, Machine.given_eq_done_iff, Machine.assign_eq_done_iff] at h
  rcases h with ⟨⟨a, b, c⟩, hi, x, hx, y, hy, rfl, r, hr, rfl⟩
  exact .binary op (Instruction.three_eq_ok_iff.1 hi) hx hy hr

theorem executes_of_branch {test : Word → Bool} (op : i.opcode.branch? = some test)
    (h : i.opcode.primitive i m = .done b m') : Executes i m b m' := by
  rw [Opcode.primitive_of_branch? op] at h
  simp only [Primitive.branch, Machine.given_eq_done_iff] at h
  rcases h with ⟨⟨a, b⟩, hi, x, hx, h⟩
  have operands := Instruction.two_eq_ok_iff.1 hi
  -- Only a jump that is taken looks at its target.
  split at h
  · rename_i taken
    rcases Machine.given_eq_done_iff.1 h with ⟨t, ht, h⟩
    cases h
    exact .branch op operands hx taken ht
  · rename_i taken
    cases h
    exact .pass op operands hx (Bool.eq_false_iff.2 taken)

theorem executes_of_modulo (op : i.opcode = .modulo)
    (h : Primitive.modulo i m = .done b m') : Executes i m b m' := by
  simp only [Primitive.modulo, Machine.given_eq_done_iff] at h
  -- The divisor is evaluated before the dividend.
  rcases h with ⟨⟨a, b, c⟩, hi, y, hy, h⟩
  split at h
  · cases h
  · rename_i nonzero
    simp only [Machine.given_eq_done_iff, Machine.assign_eq_done_iff] at h
    rcases h with ⟨x, hx, rfl, r, hr, rfl⟩
    exact .modulo op (Instruction.three_eq_ok_iff.1 hi) hx hy nonzero hr

theorem executes_of_load (op : i.opcode = .readMemory)
    (h : Primitive.readMemory i m = .done b m') : Executes i m b m' := by
  simp only [Primitive.readMemory, Primitive.unary, Machine.given_eq_done_iff,
    Machine.assign_eq_done_iff] at h
  rcases h with ⟨⟨a, b⟩, hi, x, hx, w, hw, rfl, r, hr, rfl⟩
  exact .load op (Instruction.two_eq_ok_iff.1 hi) hx hw hr

theorem executes_of_store (op : i.opcode = .writeMemory)
    (h : Primitive.writeMemory i m = .done b m') : Executes i m b m' := by
  simp only [Primitive.writeMemory, Machine.given_eq_done_iff, Outcome.map_eq_done_iff,
    Machine.writeMemory_eq_done_iff, Except.ok.injEq] at h
  rcases h with ⟨⟨a, b⟩, hi, x, hx, y, hy, -, ⟨k, _, hk, hlt, rfl, rfl⟩, rfl⟩
  exact .store op (Instruction.two_eq_ok_iff.1 hi) hx hy hk hlt

/-- What a pop that gives an entry says of the stack. -/
theorem stack_of_pop {top : Datum} {m₁ : Machine} (h : m.pop = (top, m₁)) (entry : top ≠ .blank) :
    ∃ rest, m.stack = top :: rest ∧ m₁ = { m with stack := rest } := by
  unfold Machine.pop at h
  split at h
  · cases h
    exact absurd rfl entry
  · rename_i top' rest hstack
    cases h
    exact ⟨rest, hstack, rfl⟩

/-- A pop gives no entry exactly when there is none, or a blank in its place. -/
theorem pop_eq_blank_iff {m₁ : Machine} :
    m.pop = (.blank, m₁) ↔
      ∃ rest, ((m.stack = [] ∧ rest = []) ∨ m.stack = .blank :: rest) ∧
        m₁ = { m with stack := rest } := by
  unfold Machine.pop
  cases hstack : m.stack with
  | nil =>
    -- An empty stack is left as it is.
    have hm : ({ m with stack := [] } : Machine) = m := by rw [← hstack]
    simp [hm, eq_comm]
  | cons top rest => simp [eq_comm]

/-- The rules of `pop` and `ret` on a stack with an entry. -/
theorem pop_of_entry {a : Int} {top : Datum} {m₁ : Machine} (hi : i.one = .ok a)
    (h : m.pop = (top, m₁)) (entry : top ≠ .blank) :
    Primitive.pop i m = (m₁.writeRegister a top.word).map fun _ => true := by
  rw [Primitive.pop, hi, Machine.given_ok]
  split
  · rename_i h'
    cases h.symm.trans h'
    exact absurd rfl entry
  · rename_i h'
    cases h.symm.trans h'
    rfl

theorem ret_of_entry {top : Datum} {m₁ : Machine} (h : m.pop = (top, m₁))
    (entry : top ≠ .blank) : Primitive.ret i m = .done true { m₁ with pc := top } := by
  rw [Primitive.ret]
  split
  · rename_i h'
    cases h.symm.trans h'
    exact absurd rfl entry
  · rename_i h'
    cases h.symm.trans h'
    rfl

theorem executes_of_pop (op : i.opcode = .pop) (h : Primitive.pop i m = .done b m') :
    Executes i m b m' := by
  simp only [Primitive.pop, Machine.given_eq_done_iff] at h
  rcases h with ⟨a, hi, h⟩
  have operands := Instruction.one_eq_ok_iff.1 hi
  split at h
  · rename_i m₁ hpop
    cases h
    rcases pop_eq_blank_iff.1 hpop with ⟨rest, stack, rfl⟩
    exact .underflow (.inl ⟨op, by rw [operands]; rfl⟩) stack
  · rename_i top m₁ entry hpop
    rcases stack_of_pop hpop entry with ⟨rest, hstack, rfl⟩
    simp only [Outcome.map_eq_done_iff, Machine.writeRegister_eq_done_iff] at h
    rcases h with ⟨-, ⟨r, w, hr, hlt, hw, rfl⟩, rfl⟩
    exact .pop op operands hstack entry hw ⟨hr, hlt⟩

theorem executes_of_ret (op : i.opcode = .ret) (h : Primitive.ret i m = .done b m') :
    Executes i m b m' := by
  unfold Primitive.ret at h
  split at h
  · rename_i m₁ hpop
    cases h
    rcases pop_eq_blank_iff.1 hpop with ⟨rest, stack, rfl⟩
    exact .underflow (.inr op) stack
  · rename_i top m₁ entry hpop
    rcases stack_of_pop hpop entry with ⟨rest, hstack, rfl⟩
    cases h
    exact .ret op hstack entry

theorem executes_of_input (op : i.opcode = .input) (h : Primitive.input i m = .done b m') :
    Executes i m b m' := by
  simp only [Primitive.input, Machine.given_eq_done_iff, Outcome.andThen_eq_done_iff,
    Machine.readByte_eq_done_iff, Machine.assign_eq_done_iff] at h
  rcases h with ⟨a, hi, byte, m₁, ⟨console, hread, rfl⟩, rfl, r, hr, rfl⟩
  exact .input op (Instruction.one_eq_ok_iff.1 hi) hread hr

theorem executes_of_primitive (h : i.opcode.primitive i m = .done b m') : Executes i m b m' := by
  cases op : i.opcode with
  | set | not => exact executes_of_unary (by rw [op]; rfl) h
  | eq | gt | add | multiply | and | or => exact executes_of_binary (by rw [op]; rfl) h
  | jumpIfTrue | jumpIfFalse => exact executes_of_branch (by rw [op]; rfl) h
  | halt =>
    rw [op] at h
    cases h
    exact .halt op
  | noop =>
    rw [op] at h
    cases h
    exact .noop op
  | invalid =>
    rw [op] at h
    cases h
  | modulo => exact executes_of_modulo op (by rwa [op] at h)
  | readMemory => exact executes_of_load op (by rwa [op] at h)
  | writeMemory => exact executes_of_store op (by rwa [op] at h)
  | pop => exact executes_of_pop op (by rwa [op] at h)
  | ret => exact executes_of_ret op (by rwa [op] at h)
  | input => exact executes_of_input op (by rwa [op] at h)
  | push =>
    simp only [op, Opcode.primitive, Primitive.push, Machine.given_eq_done_iff,
      Instruction.one_eq_ok_iff, Outcome.done.injEq] at h
    rcases h with ⟨a, operands, x, hx, rfl, rfl⟩
    exact .push op operands hx
  | jump =>
    simp only [op, Opcode.primitive, Primitive.jump, Machine.given_eq_done_iff,
      Instruction.one_eq_ok_iff, Outcome.done.injEq] at h
    rcases h with ⟨a, operands, t, ht, rfl, rfl⟩
    exact .jump op operands ht
  | call =>
    simp only [op, Opcode.primitive, Primitive.call, Machine.given_eq_done_iff,
      Instruction.one_eq_ok_iff, Outcome.done.injEq] at h
    rcases h with ⟨a, operands, t, ht, rfl, rfl⟩
    exact .call op operands ht
  | output =>
    simp only [op, Opcode.primitive, Primitive.output, Machine.given_eq_done_iff,
      Instruction.one_eq_ok_iff, Outcome.done.injEq] at h
    rcases h with ⟨a, operands, x, hx, rfl, rfl⟩
    exact .output op operands hx

/-- Each rule is one that the primitives follow. -/
theorem primitive_of_executes (h : Executes i m b m') : i.opcode.primitive i m = .done b m' := by
  cases h with
  | halt op | noop op => rw [op]; rfl
  | @unary f a b x r op operands source dest =>
    rw [Opcode.primitive_of_unary? op, Primitive.unary, Instruction.two_eq_ok_iff.2 operands]
    simp only [Machine.given_ok, source]
    exact Machine.assign_eq_done_iff.2 ⟨rfl, r, dest, rfl⟩
  | @binary f a b c x y r op operands first second dest =>
    rw [Opcode.primitive_of_binary? op, Primitive.binary, Instruction.three_eq_ok_iff.2 operands]
    simp only [Machine.given_ok, first, second]
    exact Machine.assign_eq_done_iff.2 ⟨rfl, r, dest, rfl⟩
  | @modulo a b c x y r op operands first second nonzero dest =>
    rw [op, Opcode.primitive, Primitive.modulo, Instruction.three_eq_ok_iff.2 operands]
    simp only [Machine.given_ok, first, second, if_neg nonzero]
    exact Machine.assign_eq_done_iff.2 ⟨rfl, r, dest, rfl⟩
  | @load a b x w r op operands address cell dest =>
    rw [op, Opcode.primitive, Primitive.readMemory, Primitive.unary]
    refine Machine.given_eq_done_iff.2 ⟨(a, b), Instruction.two_eq_ok_iff.2 operands, ?_⟩
    refine Machine.given_eq_done_iff.2 ⟨x, address, ?_⟩
    refine Machine.given_eq_done_iff.2 ⟨w, cell, ?_⟩
    exact Machine.assign_eq_done_iff.2 ⟨rfl, r, dest, rfl⟩
  | @store a b x y k op operands address source cell inside =>
    rw [op, Opcode.primitive, Primitive.writeMemory]
    refine Machine.given_eq_done_iff.2 ⟨(a, b), Instruction.two_eq_ok_iff.2 operands, ?_⟩
    refine Machine.given_eq_done_iff.2 ⟨x, address, ?_⟩
    refine Machine.given_eq_done_iff.2 ⟨y, source, ?_⟩
    exact Outcome.map_eq_done_iff.2
      ⟨(), Machine.writeMemory_eq_done_iff.2 ⟨k, y, cell, inside, rfl, rfl⟩, rfl⟩
  | @push a x op operands source =>
    rw [op, Opcode.primitive, Primitive.push, Instruction.one_eq_ok_iff.2 operands]
    simp only [Machine.given_ok, source]
  | @pop a top rest w r op operands stack entry word dest =>
    have hpop : m.pop = (top, { m with stack := rest }) := by rw [Machine.pop, stack]
    rw [op, Opcode.primitive, pop_of_entry (Instruction.one_eq_ok_iff.2 operands) hpop entry]
    exact Outcome.map_eq_done_iff.2
      ⟨(), Machine.writeRegister_eq_done_iff.2 ⟨r, w, dest.1, dest.2, word, rfl⟩, rfl⟩
  | @jump a t op operands target =>
    rw [op, Opcode.primitive, Primitive.jump, Instruction.one_eq_ok_iff.2 operands]
    simp only [Machine.given_ok, target]
  | @branch test a b x t op operands source taken target =>
    rw [Opcode.primitive_of_branch? op, Primitive.branch, Instruction.two_eq_ok_iff.2 operands]
    simp only [Machine.given_ok, source, if_pos taken, target]
  | @pass test a b x op operands source taken =>
    rw [Opcode.primitive_of_branch? op, Primitive.branch, Instruction.two_eq_ok_iff.2 operands]
    simp only [Machine.given_ok, source, taken, Bool.false_eq_true, if_false]
  | @call a t op operands target =>
    rw [op, Opcode.primitive, Primitive.call, Instruction.one_eq_ok_iff.2 operands]
    simp only [Machine.given_ok, target]
    rfl
  | @ret top rest op stack entry =>
    have hpop : m.pop = (top, { m with stack := rest }) := by rw [Machine.pop, stack]
    rw [op, Opcode.primitive, ret_of_entry hpop entry]
  | @underflow rest op stack =>
    -- Both opcodes pop before they do anything else.
    have hpop := pop_eq_blank_iff.2 ⟨rest, stack, rfl⟩
    rcases op with ⟨op, hlen⟩ | op
    · rcases List.length_eq_one_iff.1 hlen with ⟨a, operands⟩
      rw [op, Opcode.primitive, Primitive.pop, Instruction.one_eq_ok_iff.2 operands]
      simp only [Machine.given_ok, hpop]
    · rw [op, Opcode.primitive, Primitive.ret, hpop]
  | @output a x op operands source =>
    rw [op, Opcode.primitive, Primitive.output, Instruction.one_eq_ok_iff.2 operands]
    simp only [Machine.given_ok, source]
  | @input a byte console r op operands read dest =>
    rw [op, Opcode.primitive, Primitive.input, Instruction.one_eq_ok_iff.2 operands]
    rw [Machine.given_ok, Machine.readByte_eq_done_iff.2 ⟨console, read, rfl⟩,
      Outcome.andThen_done]
    exact Machine.assign_eq_done_iff.2 ⟨rfl, r, dest, rfl⟩

/-- An instruction succeeds exactly by one of the rules. -/
theorem primitive_eq_done_iff : i.opcode.primitive i m = .done b m' ↔ Executes i m b m' :=
  ⟨executes_of_primitive, primitive_of_executes⟩

/-- What a store did. -/
theorem Executes.of_store (h : Executes i m b m') (op : i.opcode = .writeMemory) :
    ∃ a c x y k, i.operands = [a, c] ∧ m.resolve a = .ok x ∧ m.resolve c = .ok y ∧
      Machine.cellNumber x.toInt = .ok k ∧
        m' = { m with memory := m.memory.setIfInBounds k y } := by
  have hp : i.opcode.primitive i m = .done b m' := primitive_of_executes h
  simp only [op, Opcode.primitive, Primitive.writeMemory, Machine.given_eq_done_iff,
    Outcome.map_eq_done_iff, Machine.writeMemory_eq_done_iff, Except.ok.injEq] at hp
  rcases hp with ⟨⟨a, c⟩, hi, x, hx, y, hy, -, ⟨k, _, hk, -, rfl, rfl⟩, -⟩
  exact ⟨a, c, x, y, k, Instruction.two_eq_ok_iff.1 hi, hx, hy, hk, rfl⟩

/-- What a push did. -/
theorem Executes.of_push (h : Executes i m b m') (op : i.opcode = .push) :
    ∃ a x, i.operands = [a] ∧ m.resolve a = .ok x ∧ m' = m.push (.number x.toInt) := by
  have hp : i.opcode.primitive i m = .done b m' := primitive_of_executes h
  simp only [op, Opcode.primitive, Primitive.push, Machine.given_eq_done_iff,
    Instruction.one_eq_ok_iff, Outcome.done.injEq] at hp
  rcases hp with ⟨a, operands, x, hx, -, rfl⟩
  exact ⟨a, x, operands, hx, rfl⟩

/-- What an output did. -/
theorem Executes.of_output (h : Executes i m b m') (op : i.opcode = .output) :
    ∃ a x, i.operands = [a] ∧ m.resolve a = .ok x ∧ m' = m.emit x.lowByte := by
  have hp : i.opcode.primitive i m = .done b m' := primitive_of_executes h
  simp only [op, Opcode.primitive, Primitive.output, Machine.given_eq_done_iff,
    Instruction.one_eq_ok_iff, Outcome.done.injEq] at hp
  rcases hp with ⟨a, operands, x, hx, -, rfl⟩
  exact ⟨a, x, operands, hx, rfl⟩

/-- What a call did. -/
theorem Executes.of_call (h : Executes i m b m') (op : i.opcode = .call) :
    ∃ a t, i.operands = [a] ∧ m.resolve a = .ok t ∧
      m' = { m with stack := m.pc :: m.stack, pc := .number t.toInt } := by
  have hp : i.opcode.primitive i m = .done b m' := primitive_of_executes h
  simp only [op, Opcode.primitive, Primitive.call, Machine.given_eq_done_iff,
    Instruction.one_eq_ok_iff, Outcome.done.injEq] at hp
  rcases hp with ⟨a, operands, t, ht, -, rfl⟩
  exact ⟨a, t, operands, ht, rfl⟩

end Success

/-! ## Failure -/

section Failure

variable {i : Instruction} {m m' : Machine} {e : Error} {a : Int}

theorem aborts_of_one (takes : i.opcode.operandCount = 1) (h : i.one = .error e) :
    Aborts i m e m := by
  rcases Instruction.one_eq_error h with ⟨rfl, given⟩
  exact .operandCount takes given

theorem aborts_of_two (takes : i.opcode.operandCount = 2) (h : i.two = .error e) :
    Aborts i m e m := by
  rcases Instruction.two_eq_error h with ⟨rfl, given⟩
  exact .operandCount takes given

theorem aborts_of_three (takes : i.opcode.operandCount = 3) (h : i.three = .error e) :
    Aborts i m e m := by
  rcases Instruction.three_eq_error h with ⟨rfl, given⟩
  exact .operandCount takes given

theorem aborts_of_resolve (mem : a ∈ i.operands) (h : m.resolve a = .error e) :
    Aborts i m e m := by
  rcases Machine.resolve_eq_error h with he | ⟨rfl, small⟩
  · exact .operand mem he
  · exact .missing small

theorem aborts_of_assign {w : Word} (mem : a ∈ i.operands) (h : m.assign a w = .failed e m') :
    Aborts i m e m' := by
  rcases Machine.assign_eq_failed h with ⟨rfl, hr | ⟨rfl, small⟩⟩
  · exact .operand mem (Machine.registerNumber_eq_error hr)
  · exact .missing small

/-- An address out of range is the value of an operand. -/
theorem aborts_of_address {x : Word} (mem : a ∈ i.operands) (source : m.resolve a = .ok x)
    (outside : x.toInt < 0 ∨ memorySize ≤ x.toInt) :
    Aborts i m (.naming .addressOutOfRange x.toInt) m := by
  have hx := x.toInt_nonneg
  rw [Error.naming_toInt]
  refine .address mem source ?_
  simp only [Word.toInt] at outside hx
  omega

theorem aborts_of_unary {f : Machine → Word → Except Error Word}
    (takes : i.opcode.operandCount = 2)
    (value : ∀ b x e, b ∈ i.operands → m.resolve b = .ok x → f m x = .error e → Aborts i m e m)
    (h : Primitive.unary f i m = .failed e m') : Aborts i m e m' := by
  simp only [Primitive.unary, Machine.given_eq_failed_iff] at h
  rcases h with ⟨hi, rfl⟩ | ⟨⟨a, b⟩, hi, h⟩
  · exact aborts_of_two takes hi
  have operands := Instruction.two_eq_ok_iff.1 hi
  have hb : b ∈ i.operands := by simp [operands]
  rcases h with ⟨hx, rfl⟩ | ⟨x, hx, h⟩
  · exact aborts_of_resolve hb hx
  rcases h with ⟨hw, rfl⟩ | ⟨w, -, h⟩
  · exact value b x e hb hx hw
  · exact aborts_of_assign (by simp [operands]) h

theorem aborts_of_binary {f : Word → Word → Word} (takes : i.opcode.operandCount = 3)
    (h : Primitive.binary f i m = .failed e m') : Aborts i m e m' := by
  simp only [Primitive.binary, Machine.given_eq_failed_iff] at h
  rcases h with ⟨hi, rfl⟩ | ⟨⟨a, b, c⟩, hi, h⟩
  · exact aborts_of_three takes hi
  have operands := Instruction.three_eq_ok_iff.1 hi
  rcases h with ⟨hx, rfl⟩ | ⟨x, -, h⟩
  · exact aborts_of_resolve (by simp [operands]) hx
  rcases h with ⟨hy, rfl⟩ | ⟨y, -, h⟩
  · exact aborts_of_resolve (by simp [operands]) hy
  · exact aborts_of_assign (by simp [operands]) h

theorem aborts_of_branch {test : Word → Bool} (takes : i.opcode.operandCount = 2)
    (h : Primitive.branch test i m = .failed e m') : Aborts i m e m' := by
  simp only [Primitive.branch, Machine.given_eq_failed_iff] at h
  rcases h with ⟨hi, rfl⟩ | ⟨⟨a, b⟩, hi, h⟩
  · exact aborts_of_two takes hi
  have operands := Instruction.two_eq_ok_iff.1 hi
  rcases h with ⟨hx, rfl⟩ | ⟨x, -, h⟩
  · exact aborts_of_resolve (by simp [operands]) hx
  split at h
  · rcases Machine.given_eq_failed_iff.1 h with ⟨ht, rfl⟩ | ⟨t, -, h⟩
    · exact aborts_of_resolve (by simp [operands]) ht
    · cases h
  · cases h

theorem aborts_of_modulo (op : i.opcode = .modulo) (h : Primitive.modulo i m = .failed e m') :
    Aborts i m e m' := by
  simp only [Primitive.modulo, Machine.given_eq_failed_iff] at h
  rcases h with ⟨hi, rfl⟩ | ⟨⟨a, b, c⟩, hi, h⟩
  · exact aborts_of_three (by rw [op]; rfl) hi
  have operands := Instruction.three_eq_ok_iff.1 hi
  -- A bad divisor is found before a bad dividend, and so is a divisor of zero.
  rcases h with ⟨hy, rfl⟩ | ⟨y, -, h⟩
  · exact aborts_of_resolve (by simp [operands]) hy
  split at h
  · cases h
    exact .zero op
  · rcases Machine.given_eq_failed_iff.1 h with ⟨hx, rfl⟩ | ⟨x, -, h⟩
    · exact aborts_of_resolve (by simp [operands]) hx
    · exact aborts_of_assign (by simp [operands]) h

theorem aborts_of_store (op : i.opcode = .writeMemory)
    (h : Primitive.writeMemory i m = .failed e m') : Aborts i m e m' := by
  simp only [Primitive.writeMemory, Machine.given_eq_failed_iff, Outcome.map_eq_failed_iff] at h
  rcases h with ⟨hi, rfl⟩ | ⟨⟨a, b⟩, hi, h⟩
  · exact aborts_of_two (by rw [op]; rfl) hi
  have operands := Instruction.two_eq_ok_iff.1 hi
  have ha : a ∈ i.operands := by simp [operands]
  rcases h with ⟨hx, rfl⟩ | ⟨x, hx, h⟩
  · exact aborts_of_resolve ha hx
  rcases h with ⟨hy, rfl⟩ | ⟨y, -, h⟩
  · exact aborts_of_resolve (by simp [operands]) hy
  -- Both sources have values, so only the address can be wrong: the value is a word.
  rcases Machine.writeMemory_eq_failed h with ⟨rfl, hk | ⟨rfl, small⟩ | hv⟩
  · rcases Machine.cellNumber_eq_error_iff.1 hk with ⟨outside, rfl⟩
    exact aborts_of_address ha hx outside
  · exact .missing small
  · cases hv

/-- An instruction that gets its one operand and its value, and does not fail after that. -/
theorem aborts_of_single {f : Word → Outcome Bool} (takes : i.opcode.operandCount = 1)
    (total : ∀ x, f x ≠ .failed e m')
    (h : (m.given i.one fun a => m.given (m.resolve a) f) = .failed e m') : Aborts i m e m' := by
  simp only [Machine.given_eq_failed_iff] at h
  rcases h with ⟨hi, rfl⟩ | ⟨a, hi, h⟩
  · exact aborts_of_one takes hi
  rcases h with ⟨hx, rfl⟩ | ⟨x, -, h⟩
  · exact aborts_of_resolve (by simp [Instruction.one_eq_ok_iff.1 hi]) hx
  · exact absurd h (total x)

theorem aborts_of_pop (op : i.opcode = .pop) (h : Primitive.pop i m = .failed e m') :
    Aborts i m e m' := by
  simp only [Primitive.pop, Machine.given_eq_failed_iff] at h
  rcases h with ⟨hi, rfl⟩ | ⟨a, hi, h⟩
  · exact aborts_of_one (by rw [op]; rfl) hi
  split at h
  · cases h
  · -- The entry is gone by the time that the register is found to be none.
    rename_i top m₁ entry hpop
    rcases stack_of_pop hpop entry with ⟨rest, hstack, rfl⟩
    rcases Machine.writeRegister_eq_failed (Outcome.map_eq_failed_iff.1 h) with ⟨rfl, reason⟩
    refine .popped op (Instruction.one_eq_ok_iff.1 hi) hstack entry ?_
    rcases reason with hr | ⟨he, small⟩ | hr
    · exact .inl (Machine.registerNumber_eq_error hr)
    · exact .inr (.inl ⟨he, fun hm => small ⟨hm.memory, hm.registers⟩⟩)
    · exact .inr (.inr hr)

theorem aborts_of_input (op : i.opcode = .input) (h : Primitive.input i m = .failed e m') :
    Aborts i m e m' := by
  simp only [Primitive.input, Machine.given_eq_failed_iff, Outcome.andThen_eq_failed_iff] at h
  rcases h with ⟨hi, rfl⟩ | ⟨a, hi, h⟩
  · exact aborts_of_one (by rw [op]; rfl) hi
  rcases h with h | ⟨byte, m₁, hread, h⟩
  · rcases Machine.readByte_eq_failed h with ⟨empty, rfl, rfl⟩
    exact .exhausted op empty rfl
  · rcases Machine.readByte_eq_done_iff.1 hread with ⟨console, hconsole, rfl⟩
    rcases Machine.assign_eq_failed h with ⟨rfl, reason⟩
    refine .consumed op (Instruction.one_eq_ok_iff.1 hi) hconsole ?_
    rcases reason with hr | ⟨he, small⟩
    · exact .inl (Machine.registerNumber_eq_error hr)
    · exact .inr ⟨he, fun hm => small ⟨hm.memory, hm.registers⟩⟩

/-- An instruction that fails does so by one of the rules. -/
theorem aborts_of_primitive (h : i.opcode.primitive i m = .failed e m') : Aborts i m e m' := by
  cases op : i.opcode with
  | set | not =>
    rw [op, Opcode.primitive] at h
    refine aborts_of_unary (by rw [op]; rfl) ?_ h
    intro b x e _ _ hw
    cases hw
  | readMemory =>
    rw [op, Opcode.primitive] at h
    refine aborts_of_unary (by rw [op]; rfl) ?_ h
    intro b x e hb hx hw
    rcases Machine.readMemory_eq_error hw with ⟨outside, rfl⟩ | ⟨rfl, small⟩
    · exact aborts_of_address hb hx outside
    · exact .missing small
  | eq | gt | add | multiply | and | or =>
    rw [op, Opcode.primitive] at h
    exact aborts_of_binary (by rw [op]; rfl) h
  | jumpIfTrue | jumpIfFalse =>
    rw [op, Opcode.primitive] at h
    exact aborts_of_branch (by rw [op]; rfl) h
  | push | jump | call | output =>
    rw [op, Opcode.primitive] at h
    refine aborts_of_single (by rw [op]; rfl) ?_ h
    intro x hx
    cases hx
  | halt | noop =>
    rw [op] at h
    cases h
  | invalid =>
    rw [op] at h
    cases h
    exact .invalid op rfl
  | ret =>
    rw [op, Opcode.primitive, Primitive.ret] at h
    split at h
    · cases h
    · cases h
  | modulo => exact aborts_of_modulo op (by rwa [op] at h)
  | writeMemory => exact aborts_of_store op (by rwa [op] at h)
  | pop => exact aborts_of_pop op (by rwa [op] at h)
  | input => exact aborts_of_input op (by rwa [op] at h)

/-- Data that are no words are a mistake of the caller, not of the program. -/
theorem word_eq_error {d : Datum} (h : d.word = .error e) : e = .outOfRange ∨ e = .notNumber := by
  unfold Datum.word wordOf at h
  split at h
  · split at h
    · cases h
    · cases h
      exact .inl rfl
  · cases h
    exact .inr rfl

/-- An address that is found out of range is the value of an operand. -/
theorem Aborts.address_of_cause {f : Fault} {d : Datum} (h : Aborts i m (.fault f) m')
    (hf : f.cause = .addressOutOfRange d) :
    ∃ a x, a ∈ i.operands ∧ m.resolve a = .ok x ∧ memorySize ≤ x.toNat ∧
      d = .number x.toInt := by
  cases h with
  | address mem source outside =>
    cases hf
    exact ⟨_, _, mem, source, outside, rfl⟩
  | invalid op reason | operand mem reason =>
    rcases Error.naming_eq_fault_iff.1 reason.symm with ⟨-, rfl⟩
    cases hf
  | @popped a top rest e op operands stack entry reason =>
    rcases reason with he | ⟨he, -⟩ | he
    · rcases Error.naming_eq_fault_iff.1 he.symm with ⟨-, rfl⟩
      cases hf
    · cases he
    · rcases word_eq_error he with he' | he'
      · cases he'
      · cases he'
  | exhausted op empty reason =>
    cases hend : m.console.inputEnd with
    | exhausted =>
      rw [hend] at reason
      cases reason
      cases hf
    | interrupt =>
      rw [hend] at reason
      cases reason
  | consumed op operands read reason =>
    rcases reason with he | ⟨he, -⟩
    · rcases Error.naming_eq_fault_iff.1 he.symm with ⟨-, rfl⟩
      cases hf
    · cases he
  | _ => cases hf

/-- A failing instruction changes the stack or the console at most. -/
theorem Aborts.frame (h : Aborts i m e m') :
    m' = { m with stack := m'.stack, console := m'.console } := by
  cases h <;> rfl

end Failure

end WordMachine
