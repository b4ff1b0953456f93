import WordMachine.Proofs.Stepping

/-! # What a failing instruction leaves behind

An instruction that fails has been counted, and little else has happened. Only two opcodes act before
they look at their destination: a pop has taken the top off the stack by then, and an input has read a
byte.

* `primitive_of_miscount`: with the wrong number of operands an instruction fails at once, if its
  opcode looks at them at all.
* `Instruction.FailsInto`: what stays as it was, and what the two opcodes have spoiled.
* `outOfRange_iff`: only an entry of the stack can fail to fit a register.
* `execute_failed` is the account of all failing instructions.
-/

namespace WordMachine

variable {i : Instruction} {m m' : Machine} {e : Error} {a v : Int}

/-! ## Wrong numbers of operands -/

namespace Instruction

theorem one_of_length_ne (h : i.operands.length ≠ 1) :
    i.one = .error (.operandCount 1 i.operands.length) := by
  cases hone : i.one with
  | ok a =>
    rw [one_eq_ok_iff.1 hone] at h
    exact absurd rfl h
  | error e => rw [(one_eq_error hone).1]

theorem two_of_length_ne (h : i.operands.length ≠ 2) :
    i.two = .error (.operandCount 2 i.operands.length) := by
  cases htwo : i.two with
  | ok ab =>
    rw [two_eq_ok_iff.1 htwo] at h
    exact absurd rfl h
  | error e => rw [(two_eq_error htwo).1]

theorem three_of_length_ne (h : i.operands.length ≠ 3) :
    i.three = .error (.operandCount 3 i.operands.length) := by
  cases hthree : i.three with
  | ok abc =>
    rw [three_eq_ok_iff.1 hthree] at h
    exact absurd rfl h
  | error e => rw [(three_eq_error hthree).1]

/-- The opcode looks at its operands, and they are not as many as it takes. -/
def Miscounted (i : Instruction) : Prop :=
  i.operands.length ≠ i.opcode.operandCount ∧ i.opcode ∉ [Opcode.halt, .noop, .ret, .invalid]

end Instruction

/-- The operands are counted before anything else is done. -/
theorem primitive_of_miscount (h : i.Miscounted) :
    i.opcode.primitive i m =
      .failed (.operandCount i.opcode.operandCount i.operands.length) m := by
  obtain ⟨hcount, hlooks⟩ := h
  cases op : i.opcode with
  | halt | noop | ret | invalid => simp [op] at hlooks
  | push | pop | jump | call | output | input =>
    rw [op] at hcount
    have hone := Instruction.one_of_length_ne hcount
    simp only [Opcode.primitive, Primitive.push, Primitive.pop, Primitive.jump, Primitive.call,
      Primitive.output, Primitive.input, hone, Machine.given_error]
    rfl
  | set | not | readMemory | writeMemory | jumpIfTrue | jumpIfFalse =>
    rw [op] at hcount
    have htwo := Instruction.two_of_length_ne hcount
    simp only [Opcode.primitive, Primitive.set, Primitive.not, Primitive.readMemory,
      Primitive.writeMemory, Primitive.jumpIfTrue, Primitive.jumpIfFalse, Primitive.unary,
      Primitive.branch, htwo, Machine.given_error]
    rfl
  | eq | gt | add | multiply | modulo | and | or =>
    rw [op] at hcount
    have hthree := Instruction.three_of_length_ne hcount
    simp only [Opcode.primitive, Primitive.eq, Primitive.gt, Primitive.add, Primitive.multiply,
      Primitive.modulo, Primitive.and, Primitive.or, Primitive.binary, hthree, Machine.given_error]
    rfl

/-! ## Two opcodes that act first -/

namespace Instruction

/-- The top of the stack is taken off before the destination is looked at. -/
def Pops (i : Instruction) (m : Machine) : Prop :=
  i.opcode = .pop ∧ i.operands.length = 1 ∧ m.stack ≠ []

/-- A byte is read for an operand that selects no register. -/
def Wastes (i : Instruction) (m : Machine) : Prop :=
  i.opcode = .input ∧ (∃ a, i.operands = [a] ∧ (a < 32768 ∨ 32775 < a)) ∧ m.console.unread ≠ []

/-- What the instruction leaves of `m` if it fails. Apart from the stack and the console only the
count of cycles changes, and nothing is written. -/
structure FailsInto (i : Instruction) (m m' : Machine) : Prop where
  frame : m' = { m with cycles := m.cycles + 1, stack := m'.stack, console := m'.console }
  output : m'.console.output = m.console.output
  bytesWritten : m'.console.bytesWritten = m.console.bytesWritten
  popped : i.Pops m → ∃ top, m.stack = top :: m'.stack
  stack : ¬ i.Pops m → m'.stack = m.stack
  consumed : i.Wastes m → ∃ byte, m.console.unread = byte :: m'.console.unread ∧
    m'.console.bytesRead = m.console.bytesRead + 1
  input : ¬ i.Wastes m →
    m'.console.unread = m.console.unread ∧ m'.console.bytesRead = m.console.bytesRead

end Instruction

/-- An instruction that fails before it has done anything was only counted. -/
theorem failsInto_counted (hpops : ¬ i.Pops m) (hwastes : ¬ i.Wastes m) :
    i.FailsInto m m.counted where
  frame := rfl
  output := rfl
  bytesWritten := rfl
  popped := fun h => absurd h hpops
  stack := fun _ => rfl
  consumed := fun h => absurd h hwastes
  input := fun _ => ⟨rfl, rfl⟩

/-- A machine whose stack holds integers only. -/
def Machine.Whole (m : Machine) : Prop := ∀ d ∈ m.stack, ∃ v : Int, d = .number v

/-- A pop is the write of the entry to the register, on a machine that has lost the entry. -/
theorem pop_eq {rest : List Datum} (operands : i.operands = [a])
    (stack : m.stack = .number v :: rest) :
    Primitive.pop i m =
      (({ m with stack := rest } : Machine).writeRegister a (wordOf v)).map fun _ => true := by
  have hpop : m.pop = (.number v, { m with stack := rest }) := by rw [Machine.pop, stack]
  have hentry : Datum.number v ≠ .blank := fun h => by cases h
  exact pop_of_entry (Instruction.one_eq_ok_iff.2 operands) hpop hentry

/-- So it fails where that write fails, or at once. -/
theorem pop_eq_failed (hm : m.Whole) (h : Primitive.pop i m = .failed e m') :
    (i.operands.length ≠ 1 ∧ e = .operandCount 1 i.operands.length ∧ m' = m) ∨
      ∃ a v rest, i.operands = [a] ∧ m.stack = .number v :: rest ∧
        ({ m with stack := rest } : Machine).writeRegister a (wordOf v) = .failed e m' := by
  by_cases hlength : i.operands.length = 1
  · right
    obtain ⟨a, operands⟩ := List.length_eq_one_iff.1 hlength
    cases hstack : m.stack with
    | nil =>
      -- There is nothing to take off, and the machine halts instead of failing.
      have hpop : m.pop = (.blank, m) := by rw [Machine.pop, hstack]
      rw [Primitive.pop, Instruction.one_eq_ok_iff.2 operands, Machine.given_ok, hpop] at h
      cases h
    | cons top rest =>
      obtain ⟨v, rfl⟩ := hm top (by rw [hstack]; exact List.mem_cons_self)
      rw [pop_eq operands hstack, Outcome.map_eq_failed_iff] at h
      exact ⟨a, v, rest, operands, rfl, h⟩
  · left
    rw [Primitive.pop, Instruction.one_of_length_ne hlength] at h
    cases h
    exact ⟨hlength, rfl, rfl⟩

/-- An input fails at once, at the end of its input, or because it has no register for the byte. -/
theorem input_eq_failed (hm : m.Sized) (h : Primitive.input i m = .failed e m') :
    (i.operands.length ≠ 1 ∧ m' = m) ∨
      ∃ a, i.operands = [a] ∧
        ((m.console.unread = [] ∧ m' = m.flush) ∨
          ∃ byte rest, m.console.unread = byte :: rest ∧ (a < 32768 ∨ 32775 < a) ∧
            m' = m.afterRead rest) := by
  by_cases hlength : i.operands.length = 1
  · obtain ⟨a, operands⟩ := List.length_eq_one_iff.1 hlength
    refine .inr ⟨a, operands, ?_⟩
    rw [Primitive.input, Instruction.one_eq_ok_iff.2 operands, Machine.given_ok] at h
    cases hunread : m.console.unread with
    | nil =>
      rw [Machine.readByte_of_nil hunread, Outcome.andThen_failed] at h
      cases h
      exact .inl ⟨rfl, rfl⟩
    | cons byte rest =>
      rw [Machine.readByte_of_cons hunread, Outcome.andThen_done] at h
      -- The byte is gone, and the only thing left to go wrong is the selector.
      obtain ⟨rfl, hselector | ⟨-, hsmall⟩⟩ := Machine.assign_eq_failed h
      · exact .inr ⟨byte, rest, rfl, Machine.outside_of_registerNumber hselector, rfl⟩
      · exact absurd ⟨hm.memory, hm.registers⟩ hsmall
  · left
    rw [Primitive.input, Instruction.one_of_length_ne hlength] at h
    cases h
    exact ⟨hlength, rfl⟩

theorem failsInto_of_pop (hm : m.Whole) (op : i.opcode = .pop)
    (h : Primitive.pop i m.counted = .failed e m') : i.FailsInto m m' := by
  have hwastes : ¬ i.Wastes m := by
    intro hw
    cases op.symm.trans hw.1
  rcases pop_eq_failed (m := m.counted) hm h with
    ⟨hlength, -, rfl⟩ | ⟨a, v, rest, operands, hstack, hwrite⟩
  · exact failsInto_counted (fun hpops => hlength hpops.2.1) hwastes
  · have hpops : i.Pops m := by
      refine ⟨op, by rw [operands]; rfl, ?_⟩
      rw [show m.stack = .number v :: rest from hstack]
      exact List.cons_ne_nil _ _
    obtain ⟨rfl, -⟩ := Machine.writeRegister_eq_failed hwrite
    exact
      { frame := rfl
        output := rfl
        bytesWritten := rfl
        popped := fun _ => ⟨.number v, hstack⟩
        stack := fun hp => absurd hpops hp
        consumed := fun hw => absurd hw hwastes
        input := fun _ => ⟨rfl, rfl⟩ }

theorem failsInto_of_input (hm : m.Sized) (op : i.opcode = .input)
    (h : Primitive.input i m.counted = .failed e m') : i.FailsInto m m' := by
  have hpops : ¬ i.Pops m := by
    intro hp
    cases op.symm.trans hp.1
  rcases input_eq_failed (m := m.counted) ⟨hm.memory, hm.registers⟩ h with
    ⟨hlength, rfl⟩ | ⟨a, operands, ⟨hunread, rfl⟩ | ⟨byte, rest, hunread, houtside, rfl⟩⟩
  · refine failsInto_counted hpops fun hw => ?_
    obtain ⟨-, ⟨a, operands, -⟩, -⟩ := hw
    exact hlength (by rw [operands]; rfl)
  · exact
      { frame := rfl
        output := rfl
        bytesWritten := rfl
        popped := fun hp => absurd hp hpops
        stack := fun _ => rfl
        consumed := fun hw => absurd hunread hw.2.2
        input := fun _ => ⟨rfl, rfl⟩ }
  · have hwastes : i.Wastes m := by
      refine ⟨op, ⟨a, operands, houtside⟩, ?_⟩
      rw [show m.console.unread = byte :: rest from hunread]
      exact List.cons_ne_nil _ _
    exact
      { frame := rfl
        output := rfl
        bytesWritten := rfl
        popped := fun hp => absurd hp hpops
        stack := fun _ => rfl
        consumed := fun _ => ⟨byte, hunread, rfl⟩
        input := fun hw => absurd hwastes hw }

/-- Whatever the opcode, a failure leaves everything else as it was. -/
theorem failsInto_of_failed (hm : m.Sized) (hwhole : m.Whole)
    (h : i.opcode.primitive i m.counted = .failed e m') : i.FailsInto m m' := by
  by_cases hpop : i.opcode = .pop
  · exact failsInto_of_pop hwhole hpop (by rwa [hpop] at h)
  by_cases hin : i.opcode = .input
  · exact failsInto_of_input hm hin (by rwa [hin] at h)
  have hcounted : m' = m.counted := by
    cases aborts_of_primitive h with
    | popped op operands stack entry reason => exact absurd op hpop
    | exhausted op empty reason => exact absurd op hin
    | consumed op operands read reason => exact absurd op hin
    | _ => rfl
  rw [hcounted]
  exact failsInto_counted (fun hp => hpop hp.1) (fun hw => hin hw.1)

/-! ## Errors -/

/-- The errors of instructions on a machine of full size with integers on its stack, whose input
ends at `device`. -/
inductive Instruction.FailsWith (i : Instruction) (device : InputEnd) : Error → Prop where
  | operandCount (given : i.operands.length ≠ i.opcode.operandCount) :
      FailsWith i device (.operandCount i.opcode.operandCount i.operands.length)
  | operand {a : Int} (mem : a ∈ i.operands) (short : Text.isWritable a = true) :
      FailsWith i device (.ofCause (.invalidOperand (.number a)))
  | address {w : Word} : FailsWith i device (.ofCause (.addressOutOfRange (.number w.toInt)))
  | zero (op : i.opcode = .modulo) : FailsWith i device (.ofCause .moduloByZero)
  | opcode (op : i.opcode = .invalid) (short : Text.isWritable i.raw = true) :
      FailsWith i device (.ofCause (.invalidOpcode (.number i.raw)))
  /-- An operand, or the word that starts no instruction, is at fault but cannot be named. -/
  | unnamed {n : Int} (long : Text.isWritable n = false)
      (named : n ∈ i.operands ∨ (i.opcode = .invalid ∧ n = i.raw)) :
      FailsWith i device .tooManyDigits
  | exhausted (op : i.opcode = .input) : FailsWith i device (.ofCause .inputExhausted)
  | outOfRange (op : i.opcode = .pop) : FailsWith i device .outOfRange
  /-- Whoever gives the input has interrupted the program. -/
  | interrupted (op : i.opcode = .input) (interrupt : device = .interrupt) :
      FailsWith i device .interrupted

/-- A bad operand is named if it can be. -/
theorem failsWith_of_operand {device : InputEnd} (mem : a ∈ i.operands) :
    i.FailsWith device (.naming .invalidOperand a) := by
  cases h : Text.isWritable a with
  | true =>
    rw [Error.naming_of_isWritable h]
    exact .operand mem h
  | false =>
    rw [Error.naming_of_not_isWritable h]
    exact .unnamed h (.inl mem)

/-- So is a word that starts no instruction. -/
theorem failsWith_of_invalid {device : InputEnd} (op : i.opcode = .invalid) :
    i.FailsWith device (.naming .invalidOpcode i.raw) := by
  cases h : Text.isWritable i.raw with
  | true =>
    rw [Error.naming_of_isWritable h]
    exact .opcode op h
  | false =>
    rw [Error.naming_of_not_isWritable h]
    exact .unnamed h (.inr ⟨op, rfl⟩)

theorem Aborts.failsWith (hm : m.Sized) (hwhole : m.Whole) (h : Aborts i m e m') :
    i.FailsWith m.console.inputEnd e := by
  cases h with
  | invalid op reason =>
    rw [reason]
    exact failsWith_of_invalid op
  | operandCount takes given =>
    subst takes
    exact .operandCount given
  | operand mem reason =>
    rw [reason]
    exact failsWith_of_operand mem
  | missing small => exact absurd hm small
  | zero op => exact .zero op
  | address mem source outside => exact .address
  | @popped a top rest e op operands stack entry reason =>
    rcases reason with rfl | ⟨-, small⟩ | hword
    · exact failsWith_of_operand (by simp [operands])
    · exact absurd hm small
    · -- An integer may be too large for a word, but it is a number.
      obtain ⟨v, rfl⟩ := hwhole top (by rw [stack]; exact List.mem_cons_self)
      have hwordOf : wordOf v = .error e := hword
      by_cases hv : v < 0 ∨ 65535 < v
      · cases (wordOf_of_outOfRange hv).symm.trans hwordOf
        exact .outOfRange op
      · cases (wordOf_of_inRange hv).symm.trans hwordOf
  | exhausted op empty reason =>
    cases hend : m.console.inputEnd with
    | exhausted =>
      rw [reason, hend]
      exact .exhausted op
    | interrupt =>
      rw [reason, hend]
      exact .interrupted op rfl
  | consumed op operands read reason =>
    rcases reason with rfl | ⟨-, small⟩
    · exact failsWith_of_operand (by simp [operands])
    · exact absurd hm small

/-- Opcodes that do not look at their operands find no fault with their number. -/
theorem miscounted_of_failed (hm : m.Sized) (hwhole : m.Whole) {n k : Nat}
    (h : i.opcode.primitive i m = .failed (.operandCount n k) m') : i.Miscounted := by
  constructor
  · cases (aborts_of_primitive h).failsWith hm hwhole with
    | operandCount given => exact given
  · intro hmem
    simp only [List.mem_cons, List.not_mem_nil, or_false] at hmem
    rcases hmem with op | op | op | op
    · rw [op] at h
      cases h
    · rw [op] at h
      cases h
    · -- A return that finds nothing on the stack halts, and any other one jumps.
      rw [op, Opcode.primitive, Primitive.ret] at h
      split at h
      · cases h
      · cases h
    · rw [op] at h
      exact Error.naming_ne (by simp) (by simp) (Outcome.failed.inj h).1

/-- Only a popped entry can be too large for its register, and the register is looked at first. -/
theorem outOfRange_iff (hm : m.Sized) (hwhole : m.Whole) :
    (∃ m', i.opcode.primitive i m = .failed .outOfRange m') ↔
      i.opcode = .pop ∧ ∃ a v rest, i.operands = [a] ∧ 32768 ≤ a ∧ a ≤ 32775 ∧
        m.stack = .number v :: rest ∧ (v < 0 ∨ 65535 < v) := by
  have hpopped : ∀ rest, ({ m with stack := rest } : Machine).Sized :=
    fun rest => ⟨hm.memory, hm.registers⟩
  constructor
  · rintro ⟨m', h⟩
    have op : i.opcode = .pop := by
      cases (aborts_of_primitive h).failsWith hm hwhole with
      | outOfRange op => exact op
    rw [op] at h
    refine ⟨op, ?_⟩
    rcases pop_eq_failed hwhole h with ⟨-, he, -⟩ | ⟨a, v, rest, operands, stack, hwrite⟩
    · cases he
    rw [(hpopped rest).writeRegister_eq] at hwrite
    split at hwrite
    · exact absurd (Outcome.failed.inj hwrite).1 (Error.naming_ne (by simp) (by simp))
    rename_i hselector
    split at hwrite
    · rename_i hv
      exact ⟨a, v, rest, operands, by omega, by omega, stack, hv⟩
    · cases hwrite
  · rintro ⟨op, a, v, rest, operands, h₀, h₁, stack, hv⟩
    refine ⟨{ m with stack := rest }, ?_⟩
    rw [op, Opcode.primitive, pop_eq operands stack, (hpopped rest).writeRegister_eq,
      if_neg (by omega), if_pos hv, Outcome.map_failed]

/-! ## The account -/

namespace Registry

/-- An instruction that fails on a machine of full size with integers on its stack leaves everything
as it was but the count of cycles; a pop has lost the entry that it took, and an input whose operand
selects no register has lost the byte that it read, if there was one.

A wrong number of operands is found before anything else is done, by exactly the opcodes that take
operands, and a value is too large for its register only if a pop finds it on the stack. With the right
number of operands the error is about a number of too many digits only where it would have to name an
operand or a word of that many digits. -/
theorem execute_failed (hm : m.Sized) (hwhole : m.Whole) :
    (∀ e m', standard.execute i m = .failed e m' →
      i.FailsInto m m' ∧ i.FailsWith m.console.inputEnd e) ∧
    ((∃ n k m', standard.execute i m = .failed (.operandCount n k) m') ↔
      i.operands.length ≠ i.opcode.operandCount ∧
        i.opcode ∉ [Opcode.halt, .noop, .ret, .invalid]) ∧
    (∀ n k m', standard.execute i m = .failed (.operandCount n k) m' →
      m' = { m with cycles := m.cycles + 1 }) ∧
    ((∃ m', standard.execute i m = .failed .outOfRange m') ↔
      i.opcode = .pop ∧ ∃ a v rest, i.operands = [a] ∧ 32768 ≤ a ∧ a ≤ 32775 ∧
        m.stack = .number v :: rest ∧ (v < 0 ∨ 65535 < v)) := by
  have hsized : m.counted.Sized := ⟨hm.memory, hm.registers⟩
  have hcounted : m.counted.Whole := hwhole
  simp only [execute_standard]
  refine ⟨?_, ⟨?_, ?_⟩, ?_, outOfRange_iff hsized hcounted⟩
  · intro e m' h
    have hkind := (aborts_of_primitive h).failsWith hsized hcounted
    exact ⟨failsInto_of_failed hm hwhole h, hkind⟩
  · rintro ⟨n, k, m', h⟩
    exact miscounted_of_failed hsized hcounted h
  · intro hmiscounted
    exact ⟨_, _, _, primitive_of_miscount hmiscounted⟩
  · intro n k m' h
    have hmiscounted := miscounted_of_failed hsized hcounted h
    rw [primitive_of_miscount hmiscounted] at h
    cases h
    rfl

/-- An entry that is too large for the register has left the stack all the same. -/
theorem execute_failed_entry :
    let m : Machine := { stack := [.number 70000, .number 7] }
    let i : Instruction := ⟨.pop, [32768], .number 0, 3⟩
    m.Sized ∧ m.Whole ∧
      ∃ m', standard.execute i m = .failed .outOfRange m' ∧ m'.stack = [.number 7] ∧
        m'.registers = m.registers ∧ m'.cycles = 1 := by
  intro m i
  have hm : m.Sized := ⟨Array.size_replicate, Array.size_replicate⟩
  have hwhole : m.Whole := by
    intro d hd
    have hentries : d = .number 70000 ∨ d = .number 7 := by simpa [m] using hd
    rcases hentries with rfl | rfl
    · exact ⟨70000, rfl⟩
    · exact ⟨7, rfl⟩
  have haccount := execute_failed (i := i) hm hwhole
  obtain ⟨m', hfailed⟩ := haccount.2.2.2.2
    ⟨rfl, 32768, 70000, [.number 7], rfl, by decide, by decide, rfl, by decide⟩
  have hleft := (haccount.1 _ _ hfailed).1
  obtain ⟨top, hstack⟩ := hleft.popped ⟨rfl, rfl, List.cons_ne_nil _ _⟩
  refine ⟨hm, hwhole, m', hfailed, (List.cons.inj hstack).2.symm, ?_, ?_⟩
  · rw [hleft.frame]
  · rw [hleft.frame]
    rfl

/-- It is not so that an input whose operand selects no register always consumes a byte: at the end
of the input there is none. Nor is it so that instructions with the right number of operands fail with
faults and values out of range only: an operand may have too many digits to be named. -/
theorem execute_failed_exceptions :
    (¬ ∀ (i : Instruction) (m m' : Machine) (e : Error), m.Sized → m.Whole →
      standard.execute i m = .failed e m' →
      i.opcode = .input → (∃ a, i.operands = [a] ∧ (a < 32768 ∨ 32775 < a)) →
        m'.console.bytesRead = m.console.bytesRead + 1) ∧
    ¬ ∀ (i : Instruction) (m m' : Machine) (e : Error), m.Sized → m.Whole →
      standard.execute i m = .failed e m' → i.operands.length = i.opcode.operandCount →
        (∃ f, e = .fault f) ∨ e = .outOfRange := by
  let m : Machine := {}
  have hm : m.Sized := ⟨Array.size_replicate, Array.size_replicate⟩
  have hwhole : m.Whole := fun d hd => absurd hd List.not_mem_nil
  constructor
  · intro h
    let i : Instruction := ⟨.input, [5], .number 0, 20⟩
    have hfailed : standard.execute i m = .failed (.ofCause .inputExhausted) m.counted.flush := rfl
    have hread : m.counted.flush.console.bytesRead = m.console.bytesRead + 1 :=
      h i m _ _ hm hwhole hfailed rfl ⟨5, rfl, by decide⟩
    cases hread
  · intro h
    let i : Instruction := ⟨.set, [32768, Text.overlong], .number 0, 1⟩
    have hsource : m.counted.resolve Text.overlong = .error .tooManyDigits :=
      Machine.resolve_of_not_isWritable Text.isWritable_overlong
    have hfailed : standard.execute i m = .failed .tooManyDigits m.counted := by
      rw [execute_standard]
      simp only [i, Opcode.primitive, Primitive.set, Primitive.unary, Instruction.two,
        Machine.given_ok, hsource, Machine.given_error]
    rcases h i m _ _ hm hwhole hfailed rfl with ⟨f, hf⟩ | hf
    · cases hf
    · cases hf

end Registry

end WordMachine
