import WordMachine.Proofs.FailedInstructions
import WordMachine.Proofs.Loading
import WordMachine.Proofs.Reachability

/-! # Storage under any operations

Nothing that can be asked of a machine brings its storage out of order, in whatever state the machine
is: its counter and its stack may hold anything, and the integers it is asked to use may be too large
or too small for any cell.

* `Operation`: what can be asked of a machine, of its storage and of its registry.
* `sized_perform`: no operation adds or removes a cell or a register.
* `storage_of_failed`: an operation that fails has written nothing, unless it is a run of many steps.
* `storage_after_operations`: so it is after any operations, one after the other.
-/

namespace WordMachine

variable {m m' : Machine} {i : Instruction} {b : Bool} {e : Error}

/-! ## Operations -/

/-- What can be asked of a machine. A run that has not ended within its fuel is found where it is. -/
inductive Operation where
  | writeRegister (selector value : Int)
  | writeMemory (address value : Int)
  | readRegister (selector : Int)
  | readMemory (address : Int)
  | resolve (operand : Int)
  | push (d : Datum)
  | pop
  | setCounter (d : Datum)
  | halt (reason : HaltReason) (fault : Option Fault)
  | stop
  | fetch
  | decode
  | execute (i : Instruction)
  | step
  | run (limit : Option Int) (fuel : Nat)
  | load (l : Load)

namespace Operation

/-- Whether the operation succeeds, and the machine that it leaves either way. -/
def perform : Operation → Machine → Outcome Unit
  | .writeRegister selector value, m => m.writeRegister selector (wordOf value)
  | .writeMemory address value, m => m.writeMemory address (wordOf value)
  | .readRegister selector, m => m.given (m.readRegister selector) fun _ => .done () m
  | .readMemory address, m => m.given (m.readMemory address) fun _ => .done () m
  | .resolve operand, m => m.given (m.resolve operand) fun _ => .done () m
  | .push d, m => .done () (m.push d)
  | .pop, m => .done () m.pop.2
  | .setCounter d, m => .done () { m with pc := d }
  | .halt reason fault, m => .done () (m.haltWith reason fault)
  | .stop, m => .done () m.requestStop
  | .fetch, m => m.fetch.map fun _ => ()
  | .decode, m => m.decode.map fun _ => ()
  | .execute i, m => (Registry.standard.execute i m).map fun _ => ()
  | .step, m => (Registry.standard.step m).map fun _ => ()
  | .run limit fuel, m =>
    (Registry.standard.run (m.effectiveLimit limit) fuel m).map fun _ => ()
  | .load l, m => (l.perform m).map fun _ => ()

/-- The machine after some operations, one after the other, whatever each of them comes to. -/
def performAll : List Operation → Machine → Machine
  | [], m => m
  | op :: ops, m => performAll ops (op.perform m).machine

end Operation

/-! ## Sizes -/

namespace Machine.Sized

/-- What is asked of a machine leaves it as it is. -/
theorem given {α : Type} (hm : m.Sized) (answer : Except Error α) :
    (m.given answer fun _ => .done () m).machine.Sized := by
  cases answer with
  | ok a => exact hm
  | error e => exact hm

theorem writeRegister (hm : m.Sized) (selector : Int) (value : Except Error Word) :
    (m.writeRegister selector value).machine.Sized := by
  cases h : m.writeRegister selector value with
  | done u m' =>
    obtain ⟨r, w, -, -, -, rfl⟩ := writeRegister_eq_done_iff.1 h
    exact hm.setRegister r w
  | failed e m' =>
    obtain ⟨rfl, -⟩ := writeRegister_eq_failed h
    exact hm

theorem writeMemory (hm : m.Sized) (address : Int) (value : Except Error Word) :
    (m.writeMemory address value).machine.Sized := by
  cases h : m.writeMemory address value with
  | done u m' =>
    obtain ⟨k, w, -, -, -, rfl⟩ := writeMemory_eq_done_iff.1 h
    exact hm.setCell k w
  | failed e m' =>
    obtain ⟨rfl, -⟩ := writeMemory_eq_failed h
    exact hm

/-- No rule adds or removes a cell or a register. -/
theorem executes (hm : m.Sized) (h : Executes i m b m') : m'.Sized := by
  cases h with
  | unary op operands source dest => exact hm.setRegister _ _
  | binary op operands first second dest => exact hm.setRegister _ _
  | modulo op operands first second nonzero dest => exact hm.setRegister _ _
  | load op operands address cell dest => exact hm.setRegister _ _
  | store op operands address source cell inside => exact hm.setCell _ _
  | @pop a top rest w r op operands stack entry word dest =>
    have hset := hm.setRegister r w
    exact ⟨hset.memory, hset.registers⟩
  | @input a byte console r op operands read dest =>
    have hset := hm.setRegister r byte.toUInt16
    exact ⟨hset.memory, hset.registers⟩
  | _ => exact ⟨hm.memory, hm.registers⟩

theorem aborts (hm : m.Sized) (h : Aborts i m e m') : m'.Sized := by
  rw [h.frame]
  exact ⟨hm.memory, hm.registers⟩

theorem execute (hm : m.Sized) (i : Instruction) :
    (Registry.standard.execute i m).machine.Sized := by
  have hcounted : m.counted.Sized := ⟨hm.memory, hm.registers⟩
  rw [Registry.execute_standard]
  cases h : i.opcode.primitive i m.counted with
  | done b m' => exact hcounted.executes (executes_of_primitive h)
  | failed e m' => exact hcounted.aborts (aborts_of_primitive h)

theorem step (hm : m.Sized) : (Registry.standard.step m).machine.Sized := by
  have hmoved : ∀ pc, ({ m with pc := pc } : Machine).counted.Sized :=
    fun pc => ⟨hm.memory, hm.registers⟩
  apply Registry.machine_step hm
  · intro e pc _ _
    exact ⟨hm.memory, hm.registers⟩
  · intro i pc b m₂ _ _ hx
    exact (hmoved pc).executes hx
  · intro i pc e m₂ _ _ hx
    exact (hmoved pc).aborts hx
  · intro m₁ f h₁
    exact ⟨h₁.memory, h₁.registers⟩

theorem run (hm : m.Sized) (limit : Option Int) (fuel : Nat) :
    (Registry.standard.run limit fuel m).machine.Sized := by
  have hrun := Registry.lawful_standard.runsTo_run limit fuel m
  apply hrun.machine hm
  · exact fun m₁ h₁ => h₁.step
  · exact fun m₁ h₁ => ⟨h₁.memory, h₁.registers⟩
  · exact fun m₁ f h₁ => ⟨h₁.memory, h₁.registers⟩
  · exact fun m₁ h₁ => ⟨h₁.memory, h₁.registers⟩

/-- An image that memory cannot hold is refused, and so it never grows. -/
theorem load (hm : m.Sized) (l : Load) : (l.perform m).machine.Sized := by
  refine ⟨Load.size_perform hm.memory l, ?_⟩
  cases l with
  | source files origin =>
    obtain ⟨memory, size, hload⟩ := m.machine_load files origin
    rw [Load.perform, hload]
    exact hm.registers
  | words values =>
    obtain ⟨memory, size, hload⟩ := m.machine_loadWords values
    rw [Load.perform, hload]
    exact hm.registers

end Machine.Sized

/-- Whatever is asked of a machine of full size, it stays one. -/
theorem Operation.sized_perform (hm : m.Sized) (op : Operation) : (op.perform m).machine.Sized := by
  cases op with
  | writeRegister selector value => exact hm.writeRegister selector (wordOf value)
  | writeMemory address value => exact hm.writeMemory address (wordOf value)
  | readRegister selector => exact hm.given (m.readRegister selector)
  | readMemory address => exact hm.given (m.readMemory address)
  | resolve operand => exact hm.given (m.resolve operand)
  | push _ | setCounter _ | halt _ _ | stop => exact ⟨hm.memory, hm.registers⟩
  | pop =>
    rw [perform, Outcome.machine, Machine.pop]
    split
    · exact hm
    · exact ⟨hm.memory, hm.registers⟩
  | fetch =>
    obtain ⟨pc, hpc⟩ := m.machine_fetch
    rw [perform, Outcome.machine_map, hpc]
    exact ⟨hm.memory, hm.registers⟩
  | decode =>
    obtain ⟨pc, hpc⟩ := m.machine_decode
    rw [perform, Outcome.machine_map, hpc]
    exact ⟨hm.memory, hm.registers⟩
  | execute i =>
    rw [perform, Outcome.machine_map]
    exact hm.execute i
  | step =>
    rw [perform, Outcome.machine_map]
    exact hm.step
  | run limit fuel =>
    rw [perform, Outcome.machine_map]
    exact hm.run _ fuel
  | load l =>
    rw [perform, Outcome.machine_map]
    exact hm.load l

theorem Operation.sized_performAll (hm : m.Sized) (ops : List Operation) :
    (performAll ops m).Sized := by
  induction ops generalizing m with
  | nil => exact hm
  | cons op ops ih => exact ih (sized_perform hm op)

/-! ## Failures -/

/-- A question that has no answer changes nothing. -/
theorem Machine.eq_of_given_failed {α : Type} {answer : Except Error α}
    (h : (m.given answer fun _ => .done () m) = .failed e m') : m' = m := by
  rcases Machine.given_eq_failed_iff.1 h with ⟨-, hm'⟩ | ⟨a, -, hdone⟩
  · exact hm'
  · cases hdone

theorem Load.eq_of_failed {l : Load} (h : l.perform m = .failed e m') : m' = m := by
  cases l with
  | source files origin =>
    rcases m.load_eq files origin with ⟨data, hload⟩ | ⟨e', hload⟩
    · cases hload.symm.trans h
    · cases hload.symm.trans h
      rfl
  | words values =>
    rcases m.loadWords_eq values with ⟨data, hload⟩ | ⟨e', hload⟩
    · cases hload.symm.trans h
    · cases hload.symm.trans h
      rfl

theorem storage_of_execute_failed (h : Registry.standard.execute i m = .failed e m') :
    m'.memory = m.memory ∧ m'.registers = m.registers := by
  rw [Registry.execute_standard] at h
  rw [(aborts_of_primitive h).frame]
  exact ⟨rfl, rfl⟩

/-- A step that fails has moved the counter, executed an instruction that failed, and halted, at
most. -/
theorem storage_of_step_failed (h : Registry.standard.step m = .failed e m') :
    m'.memory = m.memory ∧ m'.registers = m.registers := by
  have hfail : ∀ {m₀ : Machine} {e₀ : Error},
      (m₀.fail m.pc e₀ : Outcome Step) = .failed e m' →
        m'.memory = m₀.memory ∧ m'.registers = m₀.registers := by
    intro m₀ e₀ hf
    have hmachine : (m₀.fail m.pc e₀ : Outcome Step).machine = m' := by rw [hf]; rfl
    rcases m₀.machine_fail (α := Step) m.pc e₀ with hsame | ⟨f, hhalted⟩
    · rw [← hmachine, hsame]
      exact ⟨rfl, rfl⟩
    · rw [← hmachine, hhalted]
      exact ⟨rfl, rfl⟩
  rcases Registry.step_eq_failed h with ⟨-, -, rfl⟩ | ⟨-, e₀, m₀, hf, hd | ⟨i, m₁, hd, hx⟩⟩
  · exact ⟨rfl, rfl⟩
  · obtain ⟨pc, rfl⟩ := Machine.frame_of_decode_failed hd
    have hkept := hfail hf
    exact hkept
  · obtain ⟨pc, rfl⟩ := Machine.frame_of_decode_done hd
    rw [(hfail hf).1, (hfail hf).2, hx.frame]
    exact ⟨rfl, rfl⟩

/-- A single operation that fails has written nothing. -/
theorem Operation.storage_of_failed {op : Operation} (hrun : ∀ limit fuel, op ≠ .run limit fuel)
    (h : op.perform m = .failed e m') : m'.memory = m.memory ∧ m'.registers = m.registers := by
  cases op with
  | writeRegister selector value =>
    obtain ⟨rfl, -⟩ := Machine.writeRegister_eq_failed h
    exact ⟨rfl, rfl⟩
  | writeMemory address value =>
    obtain ⟨rfl, -⟩ := Machine.writeMemory_eq_failed h
    exact ⟨rfl, rfl⟩
  | readRegister _ | readMemory _ | resolve _ =>
    rw [Machine.eq_of_given_failed h]
    exact ⟨rfl, rfl⟩
  | push _ | pop | setCounter _ | halt _ _ | stop =>
    -- These always succeed.
    cases h
  | fetch =>
    rw [Machine.fetch_eq_failed (Outcome.map_eq_failed_iff.1 h)]
    exact ⟨rfl, rfl⟩
  | decode =>
    obtain ⟨pc, rfl⟩ := Machine.frame_of_decode_failed (Outcome.map_eq_failed_iff.1 h)
    exact ⟨rfl, rfl⟩
  | execute i => exact storage_of_execute_failed (Outcome.map_eq_failed_iff.1 h)
  | step => exact storage_of_step_failed (Outcome.map_eq_failed_iff.1 h)
  | run limit fuel => exact absurd rfl (hrun limit fuel)
  | load l =>
    rw [Load.eq_of_failed (Outcome.map_eq_failed_iff.1 h)]
    exact ⟨rfl, rfl⟩

/-! ## Any operations -/

/-- A number that is taken off the stack goes to the register that is selected, as any other does. -/
theorem execute_pop_eq (hm : m.Sized) {a v : Int} {rest : List Datum} (op : i.opcode = .pop)
    (operands : i.operands = [a]) (stack : m.stack = .number v :: rest) :
    Registry.standard.execute i m =
      if a < 32768 ∨ 32775 < a then
        .failed (.naming .invalidOperand a)
          { m with stack := rest, cycles := m.cycles + 1 }
      else if v < 0 ∨ 65535 < v then
        .failed .outOfRange { m with stack := rest, cycles := m.cycles + 1 }
      else .done true { m with
        stack := rest
        registers := m.registers.setIfInBounds (a - 32768).toNat (.ofNat v.toNat)
        cycles := m.cycles + 1 } := by
  have hpopped : ({ m.counted with stack := rest } : Machine).Sized := ⟨hm.memory, hm.registers⟩
  rw [Registry.execute_standard, op, Opcode.primitive, pop_eq (m := m.counted) operands stack,
    hpopped.writeRegister_eq]
  split
  · rw [Outcome.map_failed]
    rfl
  split
  · rw [Outcome.map_failed]
    rfl
  · rw [Outcome.map_done]
    rfl

/-- After any operations on a machine of full size it has 32768 cells and 8 registers, which hold 16
bits each. Any single operation that fails there leaves memory and registers as they are.

An integer that is written somewhere is looked at only if there is such a place, and is stored as it
is or not at all; so it is with an integer that is taken off the stack. The refusal names the selector
or address, unless that has too many digits. -/
theorem storage_after_operations (hm : m.Sized) (ops : List Operation) :
    let m₁ := Operation.performAll ops m
    (m₁.memory.size = 32768 ∧ ∀ w ∈ m₁.memory, 0 ≤ w.toInt ∧ w.toInt ≤ 65535) ∧
    (m₁.registers.size = 8 ∧ ∀ w ∈ m₁.registers, 0 ≤ w.toInt ∧ w.toInt ≤ 65535) ∧
    (∀ (op : Operation) (e : Error) (m₂ : Machine), (∀ limit fuel, op ≠ .run limit fuel) →
      op.perform m₁ = .failed e m₂ →
        m₂.memory = m₁.memory ∧ m₂.registers = m₁.registers) ∧
    (∀ selector value : Int,
      m₁.writeRegister selector (wordOf value) =
        if selector < 32768 ∨ 32775 < selector then
          .failed (.naming .invalidOperand selector) m₁
        else if value < 0 ∨ 65535 < value then .failed .outOfRange m₁
        else .done () { m₁ with
          registers :=
            m₁.registers.setIfInBounds (selector - 32768).toNat (.ofNat value.toNat) }) ∧
    (∀ address value : Int,
      m₁.writeMemory address (wordOf value) =
        if address < 0 ∨ 32767 < address then
          .failed (.naming .addressOutOfRange address) m₁
        else if value < 0 ∨ 65535 < value then .failed .outOfRange m₁
        else .done () { m₁ with
          memory := m₁.memory.setIfInBounds address.toNat (.ofNat value.toNat) }) ∧
    (∀ (i : Instruction) (a v : Int) (rest : List Datum), i.opcode = .pop → i.operands = [a] →
      m₁.stack = .number v :: rest →
        Registry.standard.execute i m₁ =
          if a < 32768 ∨ 32775 < a then
            .failed (.naming .invalidOperand a)
              { m₁ with stack := rest, cycles := m₁.cycles + 1 }
          else if v < 0 ∨ 65535 < v then
            .failed .outOfRange { m₁ with stack := rest, cycles := m₁.cycles + 1 }
          else .done true { m₁ with
            stack := rest
            registers := m₁.registers.setIfInBounds (a - 32768).toNat (.ofNat v.toNat)
            cycles := m₁.cycles + 1 }) := by
  intro m₁
  have hsized : m₁.Sized := Operation.sized_performAll hm ops
  have hword : ∀ w : Word, 0 ≤ w.toInt ∧ w.toInt ≤ 65535 :=
    fun w => ⟨w.toInt_nonneg, w.toInt_le⟩
  refine ⟨⟨hsized.memory, fun w _ => hword w⟩, ⟨hsized.registers, fun w _ => hword w⟩, ?_,
    hsized.writeRegister_eq, hsized.writeMemory_eq, ?_⟩
  · intro op e m₂ hrun h
    exact Operation.storage_of_failed hrun h
  · intro i a v rest op operands stack
    exact execute_pop_eq hsized op operands stack

/-- Entries that fit no register are pushed, popped and returned to; the register that a pop selects
keeps what was written to it before. -/
theorem storage_after_operations_popped :
    let m : Machine := {}
    let ops : List Operation :=
      [.push (.number (-1)), .push (.number 70000), .execute ⟨.ret, [], .number 0, 18⟩, .step,
        .writeRegister 32775 65535, .writeRegister 32775 65536]
    let pop : Instruction := ⟨.pop, [32775], .number 0, 3⟩
    m.Sized ∧ (Operation.performAll ops m).memory.size = 32768 ∧
      (Operation.performAll ops m).pc = .number 70000 ∧
      (Operation.performAll ops m).registers = #[0, 0, 0, 0, 0, 0, 0, 65535] ∧
      ∃ m₂, Registry.standard.execute pop (Operation.performAll ops m) =
          .failed .outOfRange m₂ ∧
        m₂.stack = [] ∧ m₂.registers = #[0, 0, 0, 0, 0, 0, 0, 65535] := by
  intro m ops pop
  have hm : m.Sized := ⟨Array.size_replicate, Array.size_replicate⟩
  have hafter := storage_after_operations hm ops
  have hregisters : (Operation.performAll ops m).registers = #[0, 0, 0, 0, 0, 0, 0, 65535] := rfl
  obtain ⟨⟨hmemory, -⟩, -, hfailed, -, -, hpop⟩ := hafter
  have hpopped := hpop pop 32775 (-1) [] rfl rfl rfl
  have hkept := hfailed (.execute pop) .outOfRange _ (by intro limit fuel h; cases h) (by
    rw [Operation.perform, hpopped]
    rfl)
  exact ⟨hm, hmemory, rfl, hregisters, _, hpopped, rfl, hkept.2.trans hregisters⟩

end WordMachine
