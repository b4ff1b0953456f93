import WordMachine.Proofs.Listings
import WordMachine.Proofs.Stepping

/-! # The instruction table

What each instruction changes, as a manual would say it: in numbers, and from what the machine held
before the instruction. Nothing here evaluates operands one after the other, so an instruction whose
destination is one of its sources, or which overwrites its own words, is no special case.

* `Machine.effect` is the table, with one `Effect` for each way of changing a machine.
* `Effect.Leaves` says what an effect leaves behind an instruction: all that is not mentioned stays.
* `Executes.leaves`: the rules do what the table says, and so does a step (`step_by_table`).
-/

namespace WordMachine

/-! ## Words as numbers -/

namespace Word

variable (x y : Word)

/-- Results that are reduced modulo 32768 fit a word. -/
theorem toNat_ofNat_mod (n : Nat) : (UInt16.ofNat (n % modulus)).toNat = n % 32768 := by
  rw [UInt16.toNat_ofNat', Nat.mod_eq_of_lt (Nat.lt_trans (Nat.mod_lt n (by decide)) (by decide))]

theorem toNat_ofBool (b : Bool) : (ofBool b).toNat = if b then 1 else 0 := by
  cases b <;> rfl

theorem toNat_add : (add x y).toNat = (x.toNat + y.toNat) % 32768 := toNat_ofNat_mod _

theorem toNat_multiply : (multiply x y).toNat = x.toNat * y.toNat % 32768 := toNat_ofNat_mod _

/-- The complement is what 32767 has more than the lower 15 bits. -/
theorem toNat_complement : (complement x).toNat = 32767 - x.toNat % 32768 := by
  have hmask : (UInt16.ofNat valueMask).toNat = 2 ^ 15 - 1 := rfl
  have hnot : (~~~x).toNat = 65535 - x.toNat := by
    rw [UInt16.toNat_not]
    rfl
  have hlt := x.toNat_lt
  rw [complement, UInt16.toNat_and, hmask, Nat.and_two_pow_sub_one_eq_mod, hnot]
  omega

theorem toNat_eq_zero_iff : x.toNat = 0 ↔ x = 0 := by
  rw [← UInt16.toNat_inj]
  rfl

theorem toNat_lowByte : (lowByte x).toNat = x.toNat % 256 := UInt16.toNat_toUInt8 x

end Word

/-- The word of a datum is the whole number that it stands for. -/
theorem Datum.toInt?_of_word {d : Datum} {w : Word} (h : d.word = .ok w) :
    d.toInt? = some (w.toNat : Int) := by
  unfold Datum.word wordOf at h
  split at h
  · rename_i value hvalue
    split at h
    · rename_i w' hw
      cases h
      rw [hvalue, ← Word.ofInt?_eq_some_iff.1 hw, Word.toInt]
    · cases h
  · cases h

namespace Machine

variable {m : Machine} {a : Int} {x : Word}

/-- The number that a source stands for: a literal for itself, any other for what its register
holds. -/
def value (m : Machine) (a : Int) : Nat :=
  if a < 32768 then a.toNat else ((m.registers[(a - 32768).toNat]?).getD 0).toNat

/-- The number that a cell holds. -/
def cell (m : Machine) (address : Nat) : Nat := ((m.memory[address]?).getD 0).toNat

theorem value_of_resolve (h : m.resolve a = .ok x) : m.value a = x.toNat := by
  have hbase : (registerBase : Int) = 32768 := rfl
  unfold resolve at h
  split at h
  · rename_i hliteral
    rw [hbase] at hliteral
    cases h
    rw [value, if_pos hliteral.2, UInt16.toNat_ofNat']
    omega
  · unfold readRegister at h
    split at h
    · cases h
    · rename_i r hr
      obtain ⟨rfl, -⟩ := registerNumber_eq_ok_iff.1 hr
      split at h
      · rename_i w hw
        cases h
        rw [hbase]
        have hnumber : ((32768 + r : Int) - 32768).toNat = r := by omega
        rw [value, if_neg (by omega), hnumber, hw, Option.getD_some]
      · cases h

theorem cell_of_readMemory {address : Int} (h : m.readMemory address = .ok x) :
    m.cell address.toNat = x.toNat := by
  obtain ⟨k, rfl, -, hcell⟩ := readMemory_eq_ok_iff.1 h
  rw [cell, Int.toNat_natCast, hcell, Option.getD_some]

/-- The stack holds words, so none of its entries is a blank. -/
theorem ne_blank_of_words (hwords : m.stack.all Datum.isWord = true) {rest : List Datum} :
    m.stack ≠ .blank :: rest := by
  intro hstack
  rw [hstack] at hwords
  simp [Datum.isWord, Datum.toInt?] at hwords

end Machine

/-! ## The table -/

/-- What an instruction does besides that the counter moves behind it and that it is counted. -/
inductive Effect where
  | nothing
  /-- The register that an operand selects becomes a number. -/
  | assign (selector : Int) (value : Nat)
  /-- The cell at an address becomes a number. -/
  | store (address value : Nat)
  /-- A number is put on top of the stack. -/
  | push (value : Nat)
  /-- The top of the stack goes to the register that an operand selects. -/
  | pop (selector : Int)
  /-- The counter becomes a number. -/
  | jump (target : Nat)
  /-- The address behind the instruction is put on top of the stack, and the counter becomes a
  number. -/
  | call (target : Nat)
  /-- The top of the stack goes to the counter. -/
  | ret
  /-- A byte is written. -/
  | write (byte : Nat)
  /-- The next byte of input goes to the register that an operand selects. -/
  | read (selector : Int)
  | halt (reason : HaltReason)
  deriving DecidableEq, Repr

/-- The effect of an opcode with its operands on a machine. -/
def Machine.effect (m : Machine) : Opcode → List Int → Effect
  | .halt, _ => .halt .halt
  | .set, [a, b] => .assign a (m.value b)
  | .push, [a] => .push (m.value a)
  | .pop, [a] => if m.stack = [] then .halt .emptyStack else .pop a
  | .eq, [a, b, c] => .assign a (if m.value b = m.value c then 1 else 0)
  | .gt, [a, b, c] => .assign a (if m.value b > m.value c then 1 else 0)
  | .jump, [a] => .jump (m.value a)
  | .jumpIfTrue, [a, b] => if m.value a ≠ 0 then .jump (m.value b) else .nothing
  | .jumpIfFalse, [a, b] => if m.value a = 0 then .jump (m.value b) else .nothing
  | .add, [a, b, c] => .assign a ((m.value b + m.value c) % 32768)
  | .multiply, [a, b, c] => .assign a (m.value b * m.value c % 32768)
  | .modulo, [a, b, c] => .assign a (m.value b % m.value c)
  | .and, [a, b, c] => .assign a (m.value b &&& m.value c)
  | .or, [a, b, c] => .assign a (m.value b ||| m.value c)
  | .not, [a, b] => .assign a (32767 - m.value b % 32768)
  | .readMemory, [a, b] => .assign a (m.cell (m.value b))
  | .writeMemory, [a, b] => .store (m.value a) (m.value b)
  | .call, [a] => .call (m.value a)
  | .ret, _ => if m.stack = [] then .halt .emptyStack else .ret
  | .output, [a] => .write (m.value a % 256)
  | .input, [a] => .read a
  | _, _ => .nothing

namespace Machine

/-- The machine behind an instruction that does nothing else: the counter is at `d`, and one more
cycle is counted. -/
def passed (m : Machine) (d : Int) : Machine := { m with pc := .number d, cycles := m.cycles + 1 }

@[simp] theorem resolve_passed (m : Machine) (d a : Int) :
    (m.passed d).resolve a = m.resolve a := rfl

@[simp] theorem readMemory_passed (m : Machine) (d a : Int) :
    (m.passed d).readMemory a = m.readMemory a := rfl

/-- The operand selects a register, and `m'` is `m` with that register holding the number. -/
def Assigned (m : Machine) (selector : Int) (value : Nat) (m' : Machine) : Prop :=
  ∃ (r : Nat) (w : Word), selector = 32768 + r ∧ r < 8 ∧ r < m.registers.size ∧ w.toNat = value ∧
    m' = { m with registers := m.registers.setIfInBounds r w }

end Machine

namespace Effect

/-- Whether an effect stops the machine. -/
def stops : Effect → Bool
  | .halt _ => true
  | _ => false

/-- What an effect on `m` leaves behind an instruction that ends before `d`. -/
def Leaves (m : Machine) (d : Int) (m' : Machine) : Effect → Prop
  | .nothing => m' = m.passed d
  | .assign selector value => (m.passed d).Assigned selector value m'
  | .store address value =>
    ∃ w : Word, address < 32768 ∧ address < m.memory.size ∧ w.toNat = value ∧
      m' = { m.passed d with memory := m.memory.setIfInBounds address w }
  | .push value => m' = { m.passed d with stack := .number value :: m.stack }
  | .pop selector =>
    ∃ top rest value, m.stack = top :: rest ∧ top.toInt? = some (Int.ofNat value) ∧
      Machine.Assigned { m.passed d with stack := rest } selector value m'
  | .jump target => m' = { m.passed d with pc := .number target }
  | .call target => m' = { m.passed d with stack := .number d :: m.stack, pc := .number target }
  | .ret => ∃ top rest, m.stack = top :: rest ∧ m' = { m.passed d with stack := rest, pc := top }
  | .write value =>
    ∃ byte : UInt8, byte.toNat = value ∧
      m' = { m.passed d with
        console := { m.console with
          output := m.console.output.push byte
          flushes := if value = 10 then m.console.flushes.push (m.console.output.size + 1)
            else m.console.flushes
          bytesWritten := m.console.bytesWritten + 1 }
        -- Output that is watched asks the machine to stop as soon as it is long enough.
        stopRequested := m.stopRequested ||
          m.stopAt.any fun size => decide (size ≤ (m.console.output.size + 1 : Int)) }
  | .read selector =>
    ∃ (byte : UInt8) (rest : Bytes), m.console.unread = byte :: rest ∧
      Machine.Assigned
        { m.passed d with
          console := { m.console with
            unread := rest
            flushes := m.console.flushes.push m.console.output.size
            bytesRead := m.console.bytesRead + 1 } }
        selector byte.toNat m'
  | .halt reason => m' = { m.passed d with halt := some ⟨reason, none⟩ }

end Effect

/-! ## The rules follow the table -/

section Rules

variable {m m' : Machine} {op : Opcode} {i : Instruction} {a b c d : Int} {x y w : Word}

theorem effect_of_unary? {f : Word → Word} (h : op.unary? = some f) (hb : m.value b = x.toNat) :
    m.effect op [a, b] = .assign a (f x).toNat := by
  cases op with
  | set =>
    cases h
    rw [Machine.effect, hb, id]
  | not =>
    cases h
    rw [Machine.effect, hb, Word.toNat_complement]
  | _ => cases h

theorem effect_of_binary? {f : Word → Word → Word} (h : op.binary? = some f)
    (hb : m.value b = x.toNat) (hc : m.value c = y.toNat) :
    m.effect op [a, b, c] = .assign a (f x y).toNat := by
  cases op with
  | eq =>
    cases h
    simp only [Machine.effect, hb, hc, Word.toNat_ofBool, beq_iff_eq, UInt16.toNat_inj]
  | gt =>
    cases h
    simp only [Machine.effect, hb, hc, Word.toNat_ofBool, decide_eq_true_eq, UInt16.lt_iff_toNat_lt]
  | add =>
    cases h
    rw [Machine.effect, hb, hc, Word.toNat_add]
  | multiply =>
    cases h
    rw [Machine.effect, hb, hc, Word.toNat_multiply]
  | and =>
    cases h
    rw [Machine.effect, hb, hc, UInt16.toNat_and]
  | or =>
    cases h
    rw [Machine.effect, hb, hc, UInt16.toNat_or]
  | _ => cases h

/-- A conditional jump is taken when its test says so. -/
theorem effect_of_branch? {test : Word → Bool} (h : op.branch? = some test)
    (ha : m.value a = x.toNat) :
    m.effect op [a, b] = if test x then .jump (m.value b) else .nothing := by
  cases op with
  | jumpIfTrue =>
    cases h
    simp only [Machine.effect, ha, ne_eq, Word.toNat_eq_zero_iff, bne_iff_ne]
  | jumpIfFalse =>
    cases h
    simp only [Machine.effect, ha, Word.toNat_eq_zero_iff, beq_iff_eq]
  | _ => cases h

theorem assigned_of_selects {r : Nat} {value : Nat} (hr : m.Selects a r) (hw : w.toNat = value) :
    m.Assigned a value { m with registers := m.registers.setIfInBounds r w } := by
  obtain ⟨hselector, hsize⟩ := hr
  obtain ⟨rfl, hcount⟩ := Machine.registerNumber_eq_ok_iff.1 hselector
  exact ⟨r, w, rfl, hcount, hsize, hw, rfl⟩

/-- Writing a byte, field by field. -/
theorem write_eq (console : Console) (byte : UInt8) :
    console.write byte =
      { console with
        output := console.output.push byte
        flushes := if byte.toNat = 10 then console.flushes.push (console.output.size + 1)
          else console.flushes
        bytesWritten := console.bytesWritten + 1 } := by
  have hnewline : byte = Console.newline ↔ byte.toNat = 10 := by
    rw [← UInt8.toNat_inj]
    rfl
  unfold Console.write
  by_cases h : byte.toNat = 10
  · rw [if_pos (hnewline.2 h), if_pos h, Console.flush, Array.size_push]
  · rw [if_neg (mt hnewline.1 h), if_neg h]

/-- Behind an instruction that was read up to `d`, every rule leaves what the table says, and goes
on unless the table says that it stops. -/
theorem Executes.leaves {b : Bool} (hwords : m.stack.all Datum.isWord = true)
    (h : Executes i (m.passed d) b m') :
    (m.effect i.opcode i.operands).Leaves m d m' ∧
      b = !(m.effect i.opcode i.operands).stops := by
  -- The rules look at the counter behind the instruction, the table at the machine before it.
  have hvalue : ∀ {a x}, (m.passed d).resolve a = .ok x → m.value a = x.toNat := by
    intro a x hx
    rw [Machine.resolve_passed] at hx
    exact Machine.value_of_resolve hx
  cases h with
  | halt op =>
    rw [op]
    exact ⟨rfl, rfl⟩
  | noop op =>
    rw [op]
    exact ⟨rfl, rfl⟩
  | unary op operands source dest =>
    rw [operands, effect_of_unary? op (hvalue source)]
    exact ⟨assigned_of_selects dest rfl, rfl⟩
  | binary op operands first second dest =>
    rw [operands, effect_of_binary? op (hvalue first) (hvalue second)]
    exact ⟨assigned_of_selects dest rfl, rfl⟩
  | @modulo a b c x y r op operands first second nonzero dest =>
    rw [op, operands, Machine.effect, hvalue first, hvalue second]
    exact ⟨assigned_of_selects dest (UInt16.toNat_mod x y), rfl⟩
  | @load a b x w r op operands address cell dest =>
    rw [Machine.readMemory_passed] at cell
    have hcell : m.cell x.toNat = w.toNat := Machine.cell_of_readMemory cell
    rw [op, operands, Machine.effect, hvalue address, hcell]
    exact ⟨assigned_of_selects dest rfl, rfl⟩
  | @store a b x y k op operands address source cell inside =>
    rw [op, operands, Machine.effect, hvalue address, hvalue source]
    obtain ⟨hk, hlt⟩ := Machine.cellNumber_eq_ok_iff.1 cell
    obtain rfl : x.toNat = k := Int.ofNat_inj.1 hk
    exact ⟨⟨y, hlt, inside, rfl, rfl⟩, rfl⟩
  | push op operands source =>
    rw [op, operands, Machine.effect, hvalue source]
    exact ⟨rfl, rfl⟩
  | @pop a top rest w r op operands stack entry word dest =>
    have hstack : m.stack = top :: rest := stack
    rw [op, operands, Machine.effect, if_neg (by rw [hstack]; exact List.cons_ne_nil _ _)]
    refine ⟨⟨top, rest, w.toNat, hstack, Datum.toInt?_of_word word, ?_⟩, rfl⟩
    exact assigned_of_selects dest rfl
  | jump op operands target =>
    rw [op, operands, Machine.effect, hvalue target]
    exact ⟨rfl, rfl⟩
  | branch op operands source taken target =>
    rw [operands, effect_of_branch? op (hvalue source), if_pos taken, hvalue target]
    exact ⟨rfl, rfl⟩
  | pass op operands source taken =>
    rw [operands, effect_of_branch? op (hvalue source), taken]
    exact ⟨rfl, rfl⟩
  | call op operands target =>
    rw [op, operands, Machine.effect, hvalue target]
    exact ⟨rfl, rfl⟩
  | @ret top rest op stack entry =>
    have hstack : m.stack = top :: rest := stack
    rw [op, Machine.effect, if_neg (by rw [hstack]; exact List.cons_ne_nil _ _)]
    exact ⟨⟨top, rest, hstack, rfl⟩, rfl⟩
  | @underflow rest op stack =>
    -- A stack of words is empty when nothing can be taken off it.
    rcases stack with ⟨hstack, rfl⟩ | hstack
    · have hempty : m.stack = [] := hstack
      have heffect : m.effect i.opcode i.operands = .halt .emptyStack := by
        rcases op with ⟨op, hlength⟩ | op
        · obtain ⟨a, operands⟩ := List.length_eq_one_iff.1 hlength
          rw [op, operands, Machine.effect, if_pos hempty]
        · rw [op, Machine.effect, if_pos hempty]
      rw [heffect]
      refine ⟨?_, rfl⟩
      rw [Effect.Leaves, Machine.haltWith, Machine.passed, ← hempty]
    · exact absurd hstack (Machine.ne_blank_of_words (m := m) hwords)
  | @output a x op operands source =>
    rw [op, operands, Machine.effect, hvalue source]
    refine ⟨⟨x.lowByte, Word.toNat_lowByte x, ?_⟩, rfl⟩
    have hwrite := write_eq m.console x.lowByte
    rw [Word.toNat_lowByte] at hwrite
    simp only [Machine.emit, Machine.passed, hwrite, Array.size_push, Int.natCast_add,
      Int.cast_ofNat_Int]
  | @input a byte console r op operands read dest =>
    obtain ⟨rest, hunread, rfl⟩ := Console.read?_eq_some_iff.1 read
    rw [op, operands, Machine.effect]
    refine ⟨⟨byte, rest, hunread, ?_⟩, rfl⟩
    exact assigned_of_selects dest (UInt8.toNat_toUInt16 byte)

end Rules

/-! ## Steps -/

namespace Registry

variable {m m' : Machine} {s : Step}

/-- The words at the counter are an instruction, and one of the rules says what it leaves. -/
theorem step_of_holds (op : Opcode) {operands : List Int} {p : Int} (hm : m.halt = none)
    (hp : m.pc = .number p) (h : m.Holds p (op.number :: operands))
    (hlength : operands.length = op.operandCount)
    (hx : Executes ⟨op, operands, .number p, op.number⟩ (m.passed (p + 1 + operands.length)) true
      m') : standard.step m = .done .running m' :=
  step_eq_running_iff.2 ⟨hm, _, _, Machine.decode_of_holds op hp h hlength, hx⟩

/-- A byte is read into the first register. -/
theorem step_of_input {p : Int} {byte : UInt8} {console : Console} (hm : m.halt = none)
    (hp : m.pc = .number p) (h : m.Holds p [20, 32768])
    (hread : m.console.flush.read? = some (byte, console)) (hregister : 0 < m.registers.size) :
    standard.step m = .done .running
      { m.passed (p + 2) with
        console, registers := m.registers.setIfInBounds 0 byte.toUInt16 } := by
  have hend : p + 1 + ([32768] : List Int).length = p + 2 := Int.add_assoc p 1 1
  have hrule := Executes.input (i := ⟨.input, [32768], .number p, 20⟩) (m := m.passed (p + 2))
    (r := 0) rfl rfl hread ⟨rfl, hregister⟩
  rw [← hend] at hrule ⊢
  exact step_of_holds .input hm hp h rfl hrule

/-- The byte in the first register is written. -/
theorem step_of_output {p : Int} {byte : UInt8} (hm : m.halt = none) (hp : m.pc = .number p)
    (h : m.Holds p [19, 32768]) (hvalue : m.resolve 32768 = .ok byte.toUInt16) :
    standard.step m = .done .running ((m.passed (p + 2)).emit byte) := by
  have hend : p + 1 + ([32768] : List Int).length = p + 2 := Int.add_assoc p 1 1
  have hrule := Executes.output (i := ⟨.output, [32768], .number p, 19⟩) (m := m.passed (p + 2))
    rfl rfl hvalue
  have hlow : Word.lowByte byte.toUInt16 = byte := UInt8.toUInt8_toUInt16 byte
  rw [hlow, ← hend] at hrule
  rw [← hend]
  exact step_of_holds .output hm hp h rfl hrule

/-- A step that returns reads an instruction from the counter on, and leaves what the table says that
the instruction does to the machine as it was before. It goes on unless the table says that it stops.

The operands `operands` are the words behind the opcode word `w`, as they stood in memory before the
step, and the instruction ends before the address `p + 1 + operands.length`. -/
theorem step_by_table (hwords : m.stack.all Datum.isWord = true)
    (h : standard.step m = .done s m') :
    ∃ (p : Int) (w : Word) (operands : List Int),
      m.halt = none ∧ m.pc.toInt? = some p ∧ 0 ≤ p ∧ p + 1 + operands.length ≤ 32768 ∧
      m.Holds p (w.toInt :: operands) ∧
      operands.length = (Opcode.ofWord w.toInt).operandCount ∧
      Opcode.ofWord w.toInt ≠ .invalid ∧
      (m.effect (.ofWord w.toInt) operands).Leaves m (p + 1 + operands.length) m' ∧
      s = if (m.effect (.ofWord w.toInt) operands).stops then .halted m.pc else .running := by
  obtain ⟨hm, i, m₁, b, hd, hx, hs⟩ := step_eq_done_iff.1 h
  rw [execute_standard] at hx
  have hrule := executes_of_primitive hx
  obtain ⟨p, hp, hholds, -, hopcode, rfl⟩ := Machine.holds_of_decode hd
  obtain ⟨⟨w, hw, hraw⟩, hoperands⟩ := id hholds
  obtain ⟨h₀, hend⟩ := hholds.le_memorySize (List.cons_ne_nil _ _)
  have hvalid : i.opcode ≠ .invalid := by
    intro hinvalid
    rw [hinvalid] at hx
    cases hx
  rw [← hraw] at hopcode
  have hleaves := hrule.leaves (m := m) hwords
  rw [hopcode] at hleaves hvalid
  refine ⟨p, w, i.operands, hm, ?_, h₀, ?_, ⟨⟨w, hw, rfl⟩, hoperands⟩, ?_, hvalid, hleaves.1, ?_⟩
  · unfold Machine.addressOf at hp
    split at hp
    · rename_i address haddress
      cases hp
      exact haddress
    · split at hp
      · cases hp
      · cases hp
  · rw [Instruction.words, List.length_cons] at hend
    have hsize : (memorySize : Int) = 32768 := rfl
    omega
  · rw [← hopcode]
    exact Machine.length_of_decode hd
  · rw [hs, hleaves.2]
    cases (m.effect (.ofWord w.toInt) i.operands).stops <;> rfl

/-- A register is added to itself, and holds more than 15 bits before. -/
theorem step_by_table_doubled :
    ∃ memory : Array Word, memory.size = 32768 ∧
      let m : Machine := { memory, registers := #[40000, 0, 0, 0, 0, 0, 0, 0] }
      let m' : Machine :=
        { m with registers := #[14464, 0, 0, 0, 0, 0, 0, 0], pc := .number 4, cycles := 1 }
      m.Holds 0 [9, 32768, 32768, 32768] ∧ standard.step m = .done .running m' ∧
        ∃ (w : Word) (operands : List Int), m.Holds 0 (w.toInt :: operands) ∧
          (m.effect (.ofWord w.toInt) operands).Leaves m (0 + 1 + operands.length) m' := by
  have hvalues : ∀ v ∈ ([9, 32768, 32768, 32768] : List Int), 0 ≤ v ∧ v ≤ 65535 := by decide
  obtain ⟨memory, -, hsize, hcells⟩ := Machine.holds_of_loadWords (m := {}) hvalues (by decide)
  have hholds := hcells { memory, registers := #[40000, 0, 0, 0, 0, 0, 0, 0] } rfl
  have hsum : (#[40000, 0, 0, 0, 0, 0, 0, 0] : Array Word).setIfInBounds 0 (Word.add 40000 40000) =
      #[14464, 0, 0, 0, 0, 0, 0, 0] := by decide
  have hrule : Executes ⟨.add, [32768, 32768, 32768], .number 0, 9⟩
      { memory, registers := #[40000, 0, 0, 0, 0, 0, 0, 0], pc := .number 4, cycles := 1 } true
      { memory, registers := #[14464, 0, 0, 0, 0, 0, 0, 0], pc := .number 4, cycles := 1 } := by
    rw [← hsum]
    exact .binary rfl rfl rfl rfl ⟨rfl, Nat.succ_pos 7⟩
  have hstep := step_of_holds .add rfl rfl hholds rfl hrule
  refine ⟨memory, hsize ⟨Array.size_replicate, Array.size_replicate⟩, hholds, hstep, ?_⟩
  obtain ⟨p, w, operands, -, hp, -, -, hread, -, -, hleaves, -⟩ := step_by_table rfl hstep
  cases hp
  exact ⟨w, operands, hread, hleaves⟩

end Registry

end WordMachine
