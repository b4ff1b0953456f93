import WordMachine.Proofs.Stepping

/-! # A machine and its surroundings

The console, the size of the last image, the limit on cycles and the requests to stop surround a
machine: only input and output have to do with them.

* `Machine.within` puts a machine into the surroundings of another.
* `Machine.request` is what the next step asks of the surroundings: that a byte be written, that one
  be read, or nothing at all.
* `step_of_nothing`, `step_of_write` and `step_of_read` say what the step does in each case. A step
  that asks for nothing does the same in all surroundings, and leaves them alone, so it does not
  matter whether these are changed before it or after it (`step_outward`).
* `console_of_step`: the console is served what was requested, and nothing else.
-/

namespace WordMachine

/-! ## Outcomes -/

namespace Outcome

variable {α β : Type} {g : Machine → Machine}

/-- Changes the machine that is left. -/
def onMachine (g : Machine → Machine) : Outcome α → Outcome α
  | .done a m => .done a (g m)
  | .failed e m => .failed e (g m)

@[simp] theorem machine_onMachine (o : Outcome α) : (o.onMachine g).machine = g o.machine := by
  cases o <;> rfl

theorem onMachine_onMachine (o : Outcome α) (g' : Machine → Machine) :
    (o.onMachine g).onMachine g' = o.onMachine fun m => g' (g m) := by
  cases o <;> rfl

theorem andThen_onMachine {o : Outcome α} {f f' : α → Machine → Outcome β}
    (h : ∀ a m, f' a (g m) = (f a m).onMachine g) :
    (o.onMachine g).andThen f' = (o.andThen f).onMachine g := by
  cases o with
  | done a m => exact h a m
  | failed e m => rfl

theorem map_onMachine (o : Outcome α) (f : α → β) :
    (o.onMachine g).map f = (o.map f).onMachine g := by
  cases o <;> rfl

/-- What an instruction at an address makes of the step that executes it. -/
def settled (o : Outcome Bool) (address : Datum) : Outcome Step :=
  match o with
  | .failed e m => m.fail address e
  | .done true m => .done .running m
  | .done false m => .done (.halted address) m

end Outcome

/-! ## Operations -/

namespace Machine

variable {α β : Type} {m d : Machine}

/-- The machine `m` in the surroundings of `d`. -/
def within (m d : Machine) : Machine :=
  { m with
    console := d.console
    bytesLoaded := d.bytesLoaded
    maxCycles := d.maxCycles
    stopAt := d.stopAt
    stopRequested := d.stopRequested }

@[simp] theorem within_self (m : Machine) : m.within m = m := rfl

@[simp] theorem resolve_within (m d : Machine) (a : Int) :
    (m.within d).resolve a = m.resolve a := rfl

@[simp] theorem readMemory_within (m d : Machine) (a : Int) :
    (m.within d).readMemory a = m.readMemory a := rfl

theorem given_within {answer : Except Error α} {f f' : α → Outcome β}
    (h : ∀ a, f' a = (f a).onMachine (·.within d)) :
    (m.within d).given answer f' = (m.given answer f).onMachine (·.within d) := by
  cases answer with
  | ok a => exact h a
  | error e => rfl

theorem writeRegister_within (m d : Machine) (a : Int) (value : Except Error Word) :
    (m.within d).writeRegister a value = (m.writeRegister a value).onMachine (·.within d) := by
  unfold writeRegister
  cases registerNumber a with
  | error e => rfl
  | ok r =>
    by_cases hr : r < m.registers.size
    · have hr' : r < (m.within d).registers.size := hr
      simp only [if_pos hr, if_pos hr']
      cases value <;> rfl
    · have hr' : ¬ r < (m.within d).registers.size := hr
      simp only [if_neg hr, if_neg hr']
      rfl

theorem assign_within (m d : Machine) (a : Int) (w : Word) :
    (m.within d).assign a w = (m.assign a w).onMachine (·.within d) := by
  rw [assign, writeRegister_within, Outcome.map_onMachine]
  rfl

theorem console_assign (m : Machine) (a : Int) (w : Word) :
    (m.assign a w).machine.console = m.console := by
  have h := assign_within m m a w
  rw [within_self] at h
  rw [h, Outcome.machine_onMachine]
  rfl

theorem writeMemory_within (m d : Machine) (a : Int) (value : Except Error Word) :
    (m.within d).writeMemory a value = (m.writeMemory a value).onMachine (·.within d) := by
  unfold writeMemory
  cases cellNumber a with
  | error e => rfl
  | ok k =>
    by_cases hk : k < m.memory.size
    · have hk' : k < (m.within d).memory.size := hk
      simp only [if_pos hk, if_pos hk']
      cases value <;> rfl
    · have hk' : ¬ k < (m.within d).memory.size := hk
      simp only [if_neg hk, if_neg hk']
      rfl

theorem fail_within (m d : Machine) (address : Datum) (e : Error) :
    ((m.within d).fail address e : Outcome α) =
      (m.fail address e : Outcome α).onMachine (·.within d) := by
  cases e <;> rfl

theorem console_fail (m : Machine) (address : Datum) (e : Error) :
    (m.fail address e : Outcome α).machine.console = m.console := by
  rcases machine_fail (α := α) m address e with h | ⟨f, h⟩
  · rw [h]
  · rw [h]
    rfl

/-! ### Decoding -/

theorem fetch_within (m d : Machine) : (m.within d).fetch = m.fetch.onMachine (·.within d) := by
  apply given_within
  intro address
  apply given_within
  intro w
  rfl

theorem fetchOperands_within (n : Nat) (m d : Machine) :
    fetchOperands n (m.within d) = (fetchOperands n m).onMachine (·.within d) := by
  induction n generalizing m with
  | zero => rfl
  | succ n ih =>
    rw [fetchOperands, fetch_within]
    apply Outcome.andThen_onMachine
    intro w m₁
    rw [ih m₁]
    apply Outcome.andThen_onMachine
    intro rest m₂
    rfl

theorem decode_within (m d : Machine) : (m.within d).decode = m.decode.onMachine (·.within d) := by
  rw [decode, fetch_within]
  apply Outcome.andThen_onMachine
  intro w m₁
  simp only [fetchOperands_within]
  apply Outcome.andThen_onMachine
  intro operands m₂
  rfl

end Machine

/-! ## Changing the surroundings -/

/-- `g` changes nothing but the surroundings, and looks at nothing else. -/
def Outward (g : Machine → Machine) : Prop :=
  ∀ m d : Machine, g (m.within d) = m.within (g d)

theorem outward_within (d : Machine) : Outward (·.within d) := fun _ _ => rfl

namespace Outward

variable {α : Type} {g : Machine → Machine} {m : Machine}

theorem eq_within (hg : Outward g) (m : Machine) : g m = m.within (g m) := by
  have h := hg m m
  rwa [Machine.within_self] at h

/-- What does the same in all surroundings and leaves them alone can as well be done before they are
changed. -/
theorem commutes (hg : Outward g) {f : Machine → Outcome α}
    (hf : ∀ d, f (m.within d) = (f m).onMachine (·.within d)) : f (g m) = (f m).onMachine g := by
  have hself : f m = (f m).onMachine (·.within m) := by
    have h := hf m
    rwa [Machine.within_self] at h
  calc
    f (g m) = f (m.within (g m)) := by rw [← hg.eq_within m]
    _ = (f m).onMachine (·.within (g m)) := hf (g m)
    _ = (f m).onMachine fun x => g (x.within m) := by simp only [hg _ m]
    _ = ((f m).onMachine (·.within m)).onMachine g := (Outcome.onMachine_onMachine (f m) g).symm
    _ = (f m).onMachine g := by rw [← hself]

theorem assign (hg : Outward g) (m : Machine) (a : Int) (w : Word) :
    (g m).assign a w = (m.assign a w).onMachine g :=
  hg.commutes (f := fun m => m.assign a w) fun d => m.assign_within d a w

theorem fail (hg : Outward g) (m : Machine) (address : Datum) (e : Error) :
    ((g m).fail address e : Outcome α) = (m.fail address e : Outcome α).onMachine g :=
  hg.commutes (f := fun m => m.fail address e) fun d => m.fail_within d address e

theorem settled (hg : Outward g) (o : Outcome Bool) (address : Datum) :
    (o.onMachine g).settled address = (o.settled address).onMachine g := by
  cases o with
  | done b m =>
    cases b with
    | true => rfl
    | false => rfl
  | failed e m => exact hg.fail m address e

end Outward

/-! ## Primitives -/

namespace Primitive

/-- The primitive does the same in all surroundings, and leaves them alone. -/
def Blind (p : Primitive) : Prop :=
  ∀ i m d, p i (Machine.within m d) = (p i m).onMachine (·.within d)

theorem blind_unary {f : Machine → Word → Except Error Word}
    (hf : ∀ m d x, f (Machine.within m d) x = f m x) : Blind (unary f) := by
  intro i m d
  apply Machine.given_within
  intro ⟨a, b⟩
  apply Machine.given_within
  intro x
  rw [hf]
  apply Machine.given_within
  intro value
  exact Machine.assign_within m d a value

theorem blind_binary (f : Word → Word → Word) : Blind (binary f) := by
  intro i m d
  apply Machine.given_within
  intro ⟨a, b, c⟩
  apply Machine.given_within
  intro x
  apply Machine.given_within
  intro y
  exact Machine.assign_within m d a (f x y)

theorem blind_branch (test : Word → Bool) : Blind (branch test) := by
  intro i m d
  apply Machine.given_within
  intro ⟨a, b⟩
  apply Machine.given_within
  intro x
  by_cases hx : test x = true
  · simp only [if_pos hx]
    apply Machine.given_within
    intro target
    rfl
  · simp only [if_neg hx]
    rfl

theorem blind_modulo : Blind modulo := by
  intro i m d
  apply Machine.given_within
  intro ⟨a, b, c⟩
  apply Machine.given_within
  intro y
  by_cases hy : y = 0
  · simp only [if_pos hy]
    rfl
  · simp only [if_neg hy]
    apply Machine.given_within
    intro x
    exact Machine.assign_within m d a (x % y)

theorem blind_writeMemory : Blind writeMemory := by
  intro i m d
  apply Machine.given_within
  intro ⟨a, b⟩
  apply Machine.given_within
  intro x
  apply Machine.given_within
  intro y
  rw [Machine.writeMemory_within, Outcome.map_onMachine]

/-- One operand is evaluated, and nothing fails after that. -/
theorem blind_single {f : Machine → Word → Machine}
    (hf : ∀ m d x, f (Machine.within m d) x = (f m x).within d) :
    Blind fun i m => m.given i.one fun a => m.given (m.resolve a) fun x => .done true (f m x) := by
  intro i m d
  apply Machine.given_within
  intro a
  apply Machine.given_within
  intro x
  rw [hf]
  rfl

theorem pop_within (m d : Machine) :
    (m.within d).pop = (m.pop.1, m.pop.2.within d) := by
  unfold Machine.pop
  have hs : (m.within d).stack = m.stack := rfl
  rw [hs]
  cases m.stack <;> rfl

theorem blind_pop : Blind pop := by
  intro i m d
  apply Machine.given_within
  intro a
  rw [pop_within]
  rcases m.pop with ⟨top, m₁⟩
  cases top with
  | blank => rfl
  | _ =>
    simp only
    rw [Machine.writeRegister_within, Outcome.map_onMachine]

theorem blind_ret : Blind ret := by
  intro i m d
  unfold ret
  rw [pop_within]
  rcases m.pop with ⟨top, m₁⟩
  cases top <;> rfl

/-- All primitives but those for input and output are blind. -/
theorem blind_primitive {op : Opcode} (hout : op ≠ .output) (hin : op ≠ .input) :
    Blind op.primitive := by
  cases op with
  | halt | noop | invalid => exact fun _ _ _ => rfl
  | set | not => exact blind_unary fun _ _ _ => rfl
  | readMemory => exact blind_unary fun m d x => m.readMemory_within d x.toInt
  | eq | gt | add | multiply | and | or => exact blind_binary _
  | jumpIfTrue | jumpIfFalse => exact blind_branch _
  | push => exact blind_single (f := fun m x => m.push (.number x.toInt)) fun _ _ _ => rfl
  | jump => exact blind_single (f := fun m x => { m with pc := .number x.toInt }) fun _ _ _ => rfl
  | call =>
    exact blind_single (f := fun m x => { m.push m.pc with pc := .number x.toInt })
      fun _ _ _ => rfl
  | modulo => exact blind_modulo
  | writeMemory => exact blind_writeMemory
  | pop => exact blind_pop
  | ret => exact blind_ret
  | output => exact absurd rfl hout
  | input => exact absurd rfl hin

end Primitive

/-! ## What a step asks for -/

/-- What an instruction asks of the surroundings. -/
inductive Request where
  | nothing
  | write (byte : UInt8)
  /-- A byte for the register that the operand selects. -/
  | read (dest : Int)
  deriving DecidableEq, Repr

/-- What a request does to the console. -/
def Console.serve (c : Console) : Request → Console
  | .nothing => c
  | .write byte => c.write byte
  | .read _ =>
    match c.unread with
    | [] => c.flush
    | _ :: rest => { c.flush with unread := rest, bytesRead := c.bytesRead + 1 }

theorem Console.serve_of_nil {c : Console} (h : c.unread = []) (a : Int) :
    c.serve (.read a) = c.flush := by
  rw [serve, h]

theorem Console.serve_of_cons {c : Console} {b : UInt8} {rest : Bytes} (h : c.unread = b :: rest)
    (a : Int) :
    c.serve (.read a) = { c.flush with unread := rest, bytesRead := c.bytesRead + 1 } := by
  rw [serve, h]

/-- The device does not change with what is done with it. -/
@[simp] theorem Console.inputEnd_serve (c : Console) (request : Request) :
    (c.serve request).inputEnd = c.inputEnd := by
  cases request with
  | nothing => rfl
  | write byte =>
    simp only [serve, write]
    split <;> rfl
  | read dest =>
    simp only [serve]
    split <;> rfl

/-- An input asks for a byte, and an output for one to be written if its operand has a value. -/
def Instruction.request (i : Instruction) (m : Machine) : Request :=
  match i.opcode, i.operands with
  | .output, [a] =>
    match m.resolve a with
    | .ok x => .write x.lowByte
    | .error _ => .nothing
  | .input, [a] => .read a
  | _, _ => .nothing

namespace Machine

variable {m d : Machine} {i : Instruction} {b : UInt8} {a : Int}

/-- The next instruction, if the machine runs and has one. -/
def next? (m : Machine) : Option Instruction :=
  match m.halt, m.decode with
  | none, .done i _ => some i
  | _, _ => none

/-- What the next step asks of the surroundings. -/
def request (m : Machine) : Request :=
  match m.next? with
  | some i => i.request m
  | none => .nothing

/-- The machine with the counter behind its instruction and the cycle counted. -/
def advanced (m : Machine) : Machine := m.decode.machine.counted

theorem next?_eq_some_iff : m.next? = some i ↔ m.Next i := by
  unfold next? Next
  cases m.halt with
  | some h => simp
  | none =>
    cases m.decode with
    | done j m₁ => simp
    | failed e m₁ => simp

@[simp] theorem next?_within (m d : Machine) : (m.within d).next? = m.next? := by
  unfold next?
  have hhalt : (m.within d).halt = m.halt := rfl
  rw [decode_within, hhalt]
  cases m.halt with
  | some h => rfl
  | none =>
    cases m.decode with
    | done i m₁ => rfl
    | failed e m₁ => rfl

@[simp] theorem request_within (m d : Machine) : (m.within d).request = m.request := by
  unfold request
  rw [next?_within]
  cases m.next? <;> rfl

@[simp] theorem advanced_within (m d : Machine) :
    (m.within d).advanced = m.advanced.within d := by
  rw [advanced, decode_within, Outcome.machine_onMachine]
  rfl

theorem advanced_eq (m : Machine) : ∃ pc, m.advanced = ({ m with pc := pc } : Machine).counted := by
  rcases machine_decode m with ⟨pc, hpc⟩
  exact ⟨pc, by rw [advanced, hpc]⟩

@[simp] theorem resolve_advanced (m : Machine) (a : Int) : m.advanced.resolve a = m.resolve a := by
  rcases m.advanced_eq with ⟨pc, hpc⟩
  rw [hpc]
  rfl

@[simp] theorem console_advanced (m : Machine) : m.advanced.console = m.console := by
  rcases m.advanced_eq with ⟨pc, hpc⟩
  rw [hpc]
  rfl

@[simp] theorem stopAt_advanced (m : Machine) : m.advanced.stopAt = m.stopAt := by
  rcases m.advanced_eq with ⟨pc, hpc⟩
  rw [hpc]
  rfl

@[simp] theorem registers_advanced (m : Machine) : m.advanced.registers = m.registers := by
  rcases m.advanced_eq with ⟨pc, hpc⟩
  rw [hpc]
  rfl

/-- An instruction that asks the surroundings for something has the one operand that it takes. -/
theorem operands_of_next (h : m.Next i) (takes : i.opcode.operandCount = 1) :
    ∃ a, i.operands = [a] := by
  rcases h with ⟨-, m₁, hd⟩
  apply List.length_eq_one_iff.1
  rw [length_of_decode hd, takes]

end Machine

namespace Outward

variable {g : Machine → Machine}

theorem request (hg : Outward g) (m : Machine) : (g m).request = m.request := by
  rw [hg.eq_within m, Machine.request_within]

theorem advanced (hg : Outward g) (m : Machine) : (g m).advanced = g m.advanced := by
  have hself : m.advanced.within m = m.advanced := by
    have h := m.advanced_within m
    rwa [Machine.within_self, eq_comm] at h
  rw [hg.eq_within m, Machine.advanced_within, ← hg, hself]

end Outward

/-! ## Steps -/

namespace Registry

variable {m d m' : Machine} {i : Instruction} {b : UInt8} {a : Int} {e : Error}

/-- A step that has an instruction is what the instruction makes of it. -/
theorem step_of_decode (hm : m.halt = none) {m₁ : Machine} (hd : m.decode = .done i m₁) :
    standard.step m = (i.opcode.primitive i m.advanced).settled m.pc := by
  have hadvanced : m.advanced = m₁.counted := by rw [Machine.advanced, hd]; rfl
  rw [step_of_running standard hm, hd, hadvanced]
  simp only [execute_standard]
  cases i.opcode.primitive i m₁.counted with
  | failed e m₂ => rfl
  | done b m₂ =>
    cases b with
    | true => rfl
    | false => rfl

/-- An instruction that asks for nothing does the same in all surroundings. -/
theorem primitive_of_nothing (hnext : m.Next i) (h : m.request = .nothing) (d : Machine) :
    i.opcode.primitive i (m.advanced.within d) =
      (i.opcode.primitive i m.advanced).onMachine (·.within d) := by
  have hrequest : i.request m = .nothing := by
    rwa [Machine.request, Machine.next?_eq_some_iff.2 hnext] at h
  by_cases hin : i.opcode = .input
  · -- Every input asks for a byte.
    obtain ⟨a, operands⟩ := Machine.operands_of_next hnext (by rw [hin]; rfl)
    simp [Instruction.request, hin, operands] at hrequest
  by_cases hout : i.opcode = .output
  · -- An output that does not ask for one to be written has an operand without a value.
    obtain ⟨a, operands⟩ := Machine.operands_of_next hnext (by rw [hout]; rfl)
    rw [hout, Opcode.primitive, Primitive.output, Primitive.output,
      Instruction.one_eq_ok_iff.2 operands]
    simp only [Machine.given_ok, Machine.resolve_within, Machine.resolve_advanced]
    cases hx : m.resolve a with
    | error e => rfl
    | ok x => simp [Instruction.request, hout, operands, hx] at hrequest
  exact Primitive.blind_primitive hout hin i m.advanced d

/-- A step that asks for nothing does the same in all surroundings, and leaves them alone. -/
theorem step_of_nothing (h : m.request = .nothing) (d : Machine) :
    standard.step (m.within d) = (standard.step m).onMachine (·.within d) := by
  have hpc : (m.within d).pc = m.pc := rfl
  by_cases hm : m.halt = none
  · have hm' : (m.within d).halt = none := hm
    cases hd : m.decode with
    | failed e m₁ =>
      have hd' : (m.within d).decode = .failed e (m₁.within d) := by
        rw [Machine.decode_within, hd]
        rfl
      rw [step_of_running standard hm, step_of_running standard hm', hd, hd', hpc]
      exact m₁.fail_within d m.pc e
    | done i m₁ =>
      have hd' : (m.within d).decode = .done i (m₁.within d) := by
        rw [Machine.decode_within, hd]
        rfl
      rw [step_of_decode hm hd, step_of_decode hm' hd', Machine.advanced_within,
        primitive_of_nothing ⟨hm, m₁, hd⟩ h d, hpc, (outward_within d).settled]
  · have hm' : (m.within d).halt ≠ none := hm
    rw [step_of_halted standard hm, step_of_halted standard hm']
    rfl

theorem step_outward {g : Machine → Machine} (hg : Outward g) (h : m.request = .nothing) :
    standard.step (g m) = (standard.step m).onMachine g :=
  hg.commutes (step_of_nothing h)

/-- A request to write comes from an output whose operand has a value. -/
theorem request_eq_write_iff :
    m.request = .write b ↔
      ∃ i a x, m.Next i ∧ i.opcode = .output ∧ i.operands = [a] ∧ m.resolve a = .ok x ∧
        b = x.lowByte := by
  unfold Machine.request
  constructor
  · intro h
    cases hnext : m.next? with
    | none => simp [hnext] at h
    | some i =>
      simp only [hnext] at h
      unfold Instruction.request at h
      split at h
      · rename_i a op operands
        cases hx : m.resolve a with
        | error e => simp [hx] at h
        | ok x =>
          simp only [hx, Request.write.injEq] at h
          exact ⟨i, a, x, Machine.next?_eq_some_iff.1 hnext, op, operands, hx, h.symm⟩
      · cases h
      · cases h
  · intro h
    rcases h with ⟨i, a, x, hnext, op, operands, hx, rfl⟩
    rw [Machine.next?_eq_some_iff.2 hnext]
    simp [Instruction.request, op, operands, hx]

/-- A request to read comes from an input. -/
theorem request_eq_read_iff :
    m.request = .read a ↔ ∃ i, m.Next i ∧ i.opcode = .input ∧ i.operands = [a] := by
  unfold Machine.request
  constructor
  · intro h
    cases hnext : m.next? with
    | none => simp [hnext] at h
    | some i =>
      simp only [hnext] at h
      unfold Instruction.request at h
      split at h
      · split at h
        · cases h
        · cases h
      · rename_i a' op operands
        cases h
        exact ⟨i, Machine.next?_eq_some_iff.1 hnext, op, operands⟩
      · cases h
  · intro h
    rcases h with ⟨i, hnext, op, operands⟩
    rw [Machine.next?_eq_some_iff.2 hnext]
    simp [Instruction.request, op, operands]

/-- The byte that was asked to be written is written, and the machine keeps running. -/
theorem step_of_write (h : m.request = .write b) :
    standard.step m = .done .running (m.advanced.emit b) := by
  obtain ⟨i, a, x, ⟨hm, m₁, hd⟩, op, operands, hx, rfl⟩ := request_eq_write_iff.1 h
  rw [step_of_decode hm hd, op, Opcode.primitive, Primitive.output,
    Instruction.one_eq_ok_iff.2 operands]
  simp only [Machine.given_ok, Machine.resolve_advanced, hx]
  rfl

/-- A byte that was asked for is read before anything is known of where it goes. -/
theorem step_of_read (h : m.request = .read a) :
    standard.step m =
      (m.advanced.readByte.andThen fun byte m₁ => m₁.assign a byte.toUInt16).settled m.pc := by
  obtain ⟨i, ⟨hm, m₁, hd⟩, op, operands⟩ := request_eq_read_iff.1 h
  rw [step_of_decode hm hd, op, Opcode.primitive, Primitive.input,
    Instruction.one_eq_ok_iff.2 operands, Machine.given_ok]

/-- Without unread input the step fails, and only flushes the output. -/
theorem step_of_read_nil (h : m.request = .read a) (hempty : m.console.unread = []) :
    standard.step m = m.advanced.flush.fail m.pc m.console.inputEnd.error := by
  have hread : m.advanced.readByte = .failed m.console.inputEnd.error m.advanced.flush := by
    have hnil := Machine.readByte_of_nil (m := m.advanced) (by rw [Machine.console_advanced, hempty])
    rwa [Machine.console_advanced] at hnil
  rw [step_of_read h, hread]
  rfl

/-- Otherwise the first byte goes to the register, if there is one. -/
theorem step_of_read_cons (h : m.request = .read a) {rest : Bytes}
    (hunread : m.console.unread = b :: rest) :
    standard.step m =
      ((m.advanced.afterRead rest).assign a b.toUInt16).settled m.pc := by
  have hread : m.advanced.readByte = .done b (m.advanced.afterRead rest) :=
    Machine.readByte_of_cons (by rw [Machine.console_advanced, hunread])
  rw [step_of_read h, hread]
  rfl

/-! ## The console -/

/-- Whatever becomes of a step, its console is the one that its instruction left. -/
theorem console_settled (o : Outcome Bool) (address : Datum) :
    (o.settled address).machine.console = o.machine.console := by
  cases o with
  | done b m =>
    cases b with
    | true => rfl
    | false => rfl
  | failed e m => exact Machine.console_fail m address e

/-- What a step does to the console is what its request does. -/
theorem console_of_step (m : Machine) :
    (standard.step m).machine.console = m.console.serve m.request := by
  cases h : m.request with
  | nothing =>
    -- In its own surroundings a machine is itself, so the step leaves them as they are.
    have hstep := step_of_nothing h m
    rw [Machine.within_self] at hstep
    rw [hstep, Outcome.machine_onMachine]
    rfl
  | write b =>
    rw [step_of_write h]
    change m.advanced.console.write b = m.console.write b
    rw [Machine.console_advanced]
  | read a =>
    cases hunread : m.console.unread with
    | nil =>
      rw [step_of_read_nil h hunread]
      rw [Machine.console_fail]
      change m.advanced.console.flush = _
      rw [Machine.console_advanced, Console.serve_of_nil hunread]
    | cons b rest =>
      rw [step_of_read_cons h hunread, console_settled, Machine.console_assign]
      change ({ m.advanced.console.flush with
        unread := rest, bytesRead := m.advanced.console.bytesRead + 1 } : Console) = _
      rw [Machine.console_advanced, Console.serve_of_cons hunread]

end Registry

end WordMachine
