import Mathlib.Logic.Function.Iterate
import WordMachine.Run
import WordMachine.Proofs.Decoding
import WordMachine.Proofs.Execution

/-! # Steps, and many of them

A step of the standard machine decodes an instruction and follows one of the rules for executing it.
`Registry.after n m` is the machine after `n` attempts at a step, whatever each of them came to.

* `step_eq_running_iff`, `step_eq_halted_iff` and `step_eq_failed` say all that a step can do.
* `machine_step` is the rule for properties of machines: what decoding, the rules and a halt keep is
  kept by a step, and `after_induction` extends that to any number of attempts.
* A `Lawful` registry is one whose primitives count no cycles and say truly whether they halt.
-/

namespace WordMachine

/-! ## Ending an instruction -/

namespace Machine

variable {α : Type} {m m' : Machine}

/-- The machine with one more cycle on its count. -/
def counted (m : Machine) : Machine := { m with cycles := m.cycles + 1 }

@[simp] theorem resolve_counted (m : Machine) (operand : Int) :
    m.counted.resolve operand = m.resolve operand := rfl

@[simp] theorem readMemory_counted (m : Machine) (address : Int) :
    m.counted.readMemory address = m.readMemory address := rfl

/-- The machine runs, and its next instruction is `i`. -/
def Next (m : Machine) (i : Instruction) : Prop :=
  m.halt = none ∧ ∃ m₁, m.decode = .done i m₁

/-- A fatal condition halts the machine, and gets the address unless it has one. -/
@[simp] theorem fail_fault (m : Machine) (address : Datum) (f : Fault) :
    (m.fail address (.fault f) : Outcome α) =
      .failed (.fault (f.locate address)) (m.haltWith .fault (some (f.locate address))) := rfl

/-- Any other error leaves the machine as it is. -/
theorem fail_eq (m : Machine) (address : Datum) (e : Error) :
    (∃ f, e = .fault f) ∨ (m.fail address e : Outcome α) = .failed e m := by
  -- Faults are the only errors that halt the machine.
  cases e with
  | fault f => exact .inl ⟨f, rfl⟩
  | _ => exact .inr rfl

/-- A failed instruction stays failed. -/
theorem fail_ne_done (m : Machine) (address : Datum) (e : Error) (a : α) :
    m.fail address e ≠ .done a m' := by
  rcases fail_eq (α := α) m address e with ⟨f, rfl⟩ | h
  · intro hd
    cases hd
  · rw [h]
    intro hd
    cases hd

/-- A fault that a step fails with halts the machine, and is the recorded one. -/
theorem fault_of_fail {address : Datum} {e : Error} {f : Fault}
    (h : (m.fail address e : Outcome α) = .failed (.fault f) m') :
    ∃ f₀, e = .fault f₀ ∧ f = f₀.locate address ∧ m' = m.haltWith .fault (some f) := by
  cases e with
  | fault f₀ =>
    cases h
    exact ⟨f₀, rfl, rfl, rfl⟩
  | _ => cases h

theorem machine_fail (m : Machine) (address : Datum) (e : Error) :
    (m.fail address e : Outcome α).machine = m ∨
      ∃ f, (m.fail address e : Outcome α).machine = m.haltWith .fault (some f) := by
  rcases fail_eq (α := α) m address e with ⟨f, rfl⟩ | h
  · exact .inr ⟨_, rfl⟩
  · rw [h]
    exact .inl rfl

end Machine

namespace Registry

variable {r : Registry} {m m' : Machine} {e : Error} {a : Datum} {n : Nat}

/-! ## One step -/

/-- Executing an instruction counts a cycle, and then its primitive acts. -/
theorem execute_of_find? {i : Instruction} {primitive : Primitive}
    (h : r.find? i.opcode = some primitive) (m : Machine) :
    r.execute i m = primitive i m.counted := by
  rw [execute, h]
  rfl

/-- The standard registry executes the primitive of the opcode. -/
@[simp] theorem execute_standard (i : Instruction) (m : Machine) :
    standard.execute i m = i.opcode.primitive i m.counted :=
  execute_of_find? (find?_standard i.opcode) m

/-- Any step, taken apart. -/
theorem step_of_running (r : Registry) (hm : m.halt = none) :
    r.step m =
      match m.decode with
      | .failed e m₁ => m₁.fail m.pc e
      | .done i m₁ =>
        match r.execute i m₁ with
        | .failed e m₂ => m₂.fail m.pc e
        | .done true m₂ => .done .running m₂
        | .done false m₂ => .done (.halted m.pc) m₂ := by
  have hrun : ¬ m.isHalted = true := by simp [Machine.isHalted, hm]
  exact if_neg hrun

/-- Where nothing is decoded, the machine halts, and the fault has the address of the attempt. -/
theorem step_of_undecoded (r : Registry) (hm : m.halt = none) {c : Cause} {m₁ : Machine}
    (hd : m.decode = .failed (.ofCause c) m₁) :
    r.step m = .failed (.fault ⟨c, m.pc⟩) (m₁.haltWith .fault (some ⟨c, m.pc⟩)) := by
  rw [step_of_running r hm, hd]
  rfl

/-- A counter that has too many digits cannot be named in a fault, and nothing happens. -/
theorem step_of_unnamed (r : Registry) (hm : m.halt = none) {p : Int} (hp : m.pc = .number p)
    (h : Text.isWritable p = false) : r.step m = .failed .tooManyDigits m := by
  have hlong := Text.natAbs_of_not_isWritable h
  have hsize : (memorySize : Int) = 32768 := rfl
  rw [step_of_running r hm, Machine.decode_of_outOfRange hp (by omega),
    Error.naming_of_not_isWritable h]
  rfl

/-- A halted machine takes no step. -/
theorem step_of_halted (r : Registry) (hm : m.halt ≠ none) : r.step m = .failed .halted m := by
  rw [step, if_pos]
  rw [Machine.isHalted, Option.isSome_iff_ne_none]
  exact hm

/-- A step that returns was not refused, decoded an instruction and executed it. -/
theorem step_eq_done_iff {s : Step} :
    r.step m = .done s m' ↔
      m.halt = none ∧ ∃ i m₁ b, m.decode = .done i m₁ ∧ r.execute i m₁ = .done b m' ∧
        s = if b then .running else .halted m.pc := by
  by_cases hm : m.halt = none
  · rw [step_of_running r hm]
    simp only [hm, true_and]
    cases hd : m.decode with
    | failed e m₁ =>
      -- What fails stays failed when the fault is given its address.
      simp only [reduceCtorEq, false_and, exists_false, iff_false]
      exact Machine.fail_ne_done m₁ m.pc e s
    | done i m₁ =>
      simp only [Outcome.done.injEq, exists_and_left]
      constructor
      · intro h
        refine ⟨i, m₁, ⟨rfl, rfl⟩, ?_⟩
        cases hx : r.execute i m₁ with
        | failed e m₂ =>
          rw [hx] at h
          exact absurd h (Machine.fail_ne_done m₂ m.pc e s)
        | done b m₂ =>
          rw [hx] at h
          cases b with
          | true =>
            cases h
            exact ⟨true, rfl, rfl⟩
          | false =>
            cases h
            exact ⟨false, rfl, rfl⟩
      · intro h
        rcases h with ⟨i', m₁', ⟨rfl, rfl⟩, b, hx, rfl⟩
        rw [hx]
        cases b with
        | true => rfl
        | false => rfl
  · rw [step_of_halted r hm]
    simp [hm]

/-- The machine keeps running when an instruction was decoded and some rule says so. -/
theorem step_eq_running_iff :
    standard.step m = .done .running m' ↔
      m.halt = none ∧ ∃ i m₁, m.decode = .done i m₁ ∧ Executes i m₁.counted true m' := by
  rw [step_eq_done_iff]
  refine and_congr_right fun _ => exists_congr fun i => exists_congr fun m₁ => ?_
  constructor
  · intro h
    rcases h with ⟨b, hd, hx, hb⟩
    cases b with
    | true => exact ⟨hd, executes_of_primitive (by rwa [execute_standard] at hx)⟩
    | false => simp at hb
  · intro h
    exact ⟨true, h.1, by rw [execute_standard]; exact primitive_of_executes h.2, rfl⟩

/-- The next step executes the instruction `i`, and leaves the machine running as `m'`. -/
def Takes (m : Machine) (i : Instruction) (m' : Machine) : Prop :=
  (∃ m₁, m.decode = .done i m₁) ∧ standard.step m = .done .running m'

theorem takes_iff {i : Instruction} :
    Takes m i m' ↔
      m.halt = none ∧ ∃ m₁, m.decode = .done i m₁ ∧ Executes i m₁.counted true m' := by
  rw [Takes, step_eq_running_iff]
  constructor
  · intro h
    rcases h with ⟨⟨m₁, hd⟩, hm, i', m₁', hd', hx⟩
    cases hd.symm.trans hd'
    exact ⟨hm, m₁, hd, hx⟩
  · intro h
    rcases h with ⟨hm, m₁, hd, hx⟩
    exact ⟨⟨m₁, hd⟩, hm, i, m₁, hd, hx⟩

/-- It halts when some rule says so, and the address is that of the instruction. -/
theorem step_eq_halted_iff :
    standard.step m = .done (.halted a) m' ↔
      m.halt = none ∧ a = m.pc ∧
        ∃ i m₁, m.decode = .done i m₁ ∧ Executes i m₁.counted false m' := by
  rw [step_eq_done_iff]
  refine and_congr_right fun _ => ?_
  constructor
  · intro h
    rcases h with ⟨i, m₁, b, hd, hx, hb⟩
    cases b with
    | true => simp at hb
    | false =>
      rw [execute_standard] at hx
      exact ⟨by simpa using hb, i, m₁, hd, executes_of_primitive hx⟩
  · intro h
    rcases h with ⟨rfl, i, m₁, hd, hx⟩
    exact ⟨i, m₁, false, hd, by rw [execute_standard]; exact primitive_of_executes hx, rfl⟩

/-- A step fails on a halted machine, or where decoding does, or by one of the rules. -/
theorem step_eq_failed (h : standard.step m = .failed e m') :
    (m.halt ≠ none ∧ e = .halted ∧ m' = m) ∨
      m.halt = none ∧ ∃ e₀ m₀, (m₀.fail m.pc e₀ : Outcome Step) = .failed e m' ∧
        (m.decode = .failed e₀ m₀ ∨ ∃ i m₁, m.decode = .done i m₁ ∧ Aborts i m₁.counted e₀ m₀) := by
  by_cases hm : m.halt = none
  · right
    refine ⟨hm, ?_⟩
    rw [step_of_running standard hm] at h
    cases hd : m.decode with
    | failed e₀ m₀ =>
      rw [hd] at h
      exact ⟨e₀, m₀, h, .inl rfl⟩
    | done i m₁ =>
      simp only [hd, execute_standard] at h
      cases hx : i.opcode.primitive i m₁.counted with
      | failed e₀ m₀ =>
        rw [hx] at h
        exact ⟨e₀, m₀, h, .inr ⟨i, m₁, rfl, aborts_of_primitive hx⟩⟩
      | done b m₂ =>
        rw [hx] at h
        cases b with
        | true => cases h
        | false => cases h
  · rw [step_of_halted standard hm] at h
    cases h
    exact .inl ⟨hm, rfl, rfl⟩

/-- What decoding, the rules and a fatal halt keep is kept by a step, however it goes. Decoding
moves the counter only, and the rules start from there. -/
theorem machine_step {P : Machine → Prop} (hm : P m)
    (cut : ∀ e pc, m.halt = none → m.decode = .failed e { m with pc := pc } →
      P { m with pc := pc })
    (executed : ∀ i pc b m₂, m.halt = none → m.decode = .done i { m with pc := pc } →
      Executes i ({ m with pc := pc } : Machine).counted b m₂ → P m₂)
    (aborted : ∀ i pc e m₂, m.halt = none → m.decode = .done i { m with pc := pc } →
      Aborts i ({ m with pc := pc } : Machine).counted e m₂ → P m₂)
    (halted : ∀ m₁ f, P m₁ → P (m₁.haltWith .fault (some f))) :
    P (standard.step m).machine := by
  have executed' : ∀ i m₁ b m₂, m.halt = none → m.decode = .done i m₁ →
      Executes i m₁.counted b m₂ → P m₂ := by
    intro i m₁ b m₂ hrun hd hx
    rcases Machine.frame_of_decode_done hd with ⟨pc, rfl⟩
    exact executed i pc b m₂ hrun hd hx
  have failed : ∀ m₁ e, P m₁ → P (m₁.fail m.pc e : Outcome Step).machine := by
    intro m₁ e h
    rcases Machine.machine_fail (α := Step) m₁ m.pc e with hf | ⟨f, hf⟩
    · rwa [hf]
    · rw [hf]
      exact halted m₁ f h
  cases h : standard.step m with
  | done s m' =>
    cases s with
    | running =>
      rcases step_eq_running_iff.1 h with ⟨hrun, i, m₁, hd, hx⟩
      exact executed' i m₁ true m' hrun hd hx
    | halted a =>
      rcases step_eq_halted_iff.1 h with ⟨hrun, -, i, m₁, hd, hx⟩
      exact executed' i m₁ false m' hrun hd hx
  | failed e m' =>
    rcases step_eq_failed h with ⟨-, -, rfl⟩ | ⟨hrun, e₀, m₀, hf, hd | ⟨i, m₁, hd, hx⟩⟩
    · -- A halted machine was refused.
      exact hm
    · rw [← hf]
      rcases Machine.frame_of_decode_failed hd with ⟨pc, rfl⟩
      exact failed _ e₀ (cut e₀ pc hrun hd)
    · rw [← hf]
      rcases Machine.frame_of_decode_done hd with ⟨pc, rfl⟩
      exact failed m₀ e₀ (aborted i pc e₀ m₀ hrun hd hx)

/-- No instruction changes how a machine was set up, and only output that is watched makes it stop. -/
theorem settings_of_step (m : Machine) :
    (standard.step m).machine.maxCycles = m.maxCycles ∧
      (standard.step m).machine.stopAt = m.stopAt ∧
      (m.stopAt = none → (standard.step m).machine.stopRequested = m.stopRequested) := by
  apply machine_step (P := fun m' => m'.maxCycles = m.maxCycles ∧ m'.stopAt = m.stopAt ∧
    (m.stopAt = none → m'.stopRequested = m.stopRequested)) ⟨rfl, rfl, fun _ => rfl⟩
  · intro e pc _ _
    exact ⟨rfl, rfl, fun _ => rfl⟩
  · intro i pc b m₂ _ _ hx
    cases hx with
    | output op operands source =>
      refine ⟨rfl, rfl, ?_⟩
      intro hunwatched
      simp [Machine.emit, Machine.counted, hunwatched]
    | _ => exact ⟨rfl, rfl, fun _ => rfl⟩
  · intro i pc e m₂ _ _ hx
    rw [hx.frame]
    exact ⟨rfl, rfl, fun _ => rfl⟩
  · intro m₁ f h
    exact h

/-! ## Many steps -/

/-- The machine after `n` attempts at a step, whatever each of them came to. -/
def after (r : Registry) (n : Nat) (m : Machine) : Machine := (fun m => (r.step m).machine)^[n] m

@[simp] theorem after_zero (r : Registry) (m : Machine) : r.after 0 m = m := rfl

/-- The first attempt apart. -/
theorem after_succ (r : Registry) (n : Nat) (m : Machine) :
    r.after (n + 1) m = r.after n (r.step m).machine := rfl

/-- The last attempt apart. -/
theorem after_succ' (r : Registry) (n : Nat) (m : Machine) :
    r.after (n + 1) m = (r.step (r.after n m)).machine :=
  Function.iterate_succ_apply' _ n m

theorem after_add (r : Registry) (n k : Nat) (m : Machine) :
    r.after (n + k) m = r.after k (r.after n m) := by
  rw [after, Nat.add_comm, Function.iterate_add_apply]
  rfl

/-- What every attempt keeps is kept by any number of them. -/
theorem after_induction {P : Nat → Machine → Prop} (h₀ : P 0 m)
    (hstep : ∀ k, k < n → P k (r.after k m) → P (k + 1) (r.step (r.after k m)).machine) :
    P n (r.after n m) := by
  induction n with
  | zero => exact h₀
  | succ n ih =>
    rw [after_succ']
    apply hstep n (Nat.lt_succ_self n)
    exact ih fun k hk => hstep k (Nat.lt_succ_of_lt hk)

/-- The first `n` attempts are steps after each of which the machine keeps running. -/
def RunsOn (r : Registry) (n : Nat) (m : Machine) : Prop :=
  ∀ k, k < n → r.step (r.after k m) = .done .running (r.after (k + 1) m)

theorem RunsOn.mono {k : Nat} (h : r.RunsOn n m) (hk : k ≤ n) : r.RunsOn k m :=
  fun j hj => h j (Nat.lt_of_lt_of_le hj hk)

theorem runsOn_zero (r : Registry) (m : Machine) : r.RunsOn 0 m :=
  fun _ hk => absurd hk (Nat.not_lt_zero _)

/-- The first step apart. -/
theorem runsOn_succ_iff :
    r.RunsOn (n + 1) m ↔ ∃ m', r.step m = .done .running m' ∧ r.RunsOn n m' := by
  constructor
  · intro h
    refine ⟨r.after 1 m, h 0 (Nat.succ_pos n), ?_⟩
    intro k hk
    have hstep := h (k + 1) (Nat.succ_lt_succ hk)
    rwa [show k + 1 = 1 + k by omega, after_add, show 1 + k + 1 = 1 + (k + 1) by omega,
      after_add] at hstep
  · intro h
    rcases h with ⟨m', hm, hrest⟩
    have hmachine : (r.step m).machine = m' := by rw [hm]; rfl
    intro k hk
    -- Step 0 is the one that was set apart, and step k + 1 is step k of the others.
    cases k with
    | zero => rw [after_zero, after_succ, hmachine, after_zero, hm]
    | succ k =>
      have hstep := hrest k (by omega)
      rwa [after_succ, after_succ, hmachine]

/-- The last step apart. -/
theorem runsOn_succ_iff' :
    r.RunsOn (n + 1) m ↔
      r.RunsOn n m ∧ r.step (r.after n m) = .done .running (r.after (n + 1) m) := by
  constructor
  · intro h
    exact ⟨h.mono (Nat.le_succ n), h n (Nat.lt_succ_self n)⟩
  · intro h k hk
    rcases Nat.lt_succ_iff_lt_or_eq.1 hk with hlt | rfl
    · exact h.1 k hlt
    · exact h.2

/-! ## Lawful registries -/

/-- A registry that counts one cycle for an instruction after which the machine keeps running, and
halts the machine, without a fault, when it says that an instruction stops it. -/
structure Lawful (r : Registry) : Prop where
  running : ∀ {i m m'}, r.execute i m = .done true m' →
    m'.cycles = m.cycles + 1 ∧ m'.halt = m.halt
  stopping : ∀ {i m m'}, r.execute i m = .done false m' → ∃ reason, m'.halt = some ⟨reason, none⟩

theorem lawful_standard : standard.Lawful where
  running := by
    intro i m m' h
    rw [execute_standard] at h
    have hx := executes_of_primitive h
    cases hx with
    | _ => exact ⟨rfl, rfl⟩
  stopping := by
    intro i m m' h
    rw [execute_standard] at h
    have hx := executes_of_primitive h
    cases hx with
    | halt op => exact ⟨.halt, rfl⟩
    | underflow op stack => exact ⟨.emptyStack, rfl⟩

/-- What a step leaves after which the machine keeps running. -/
theorem Lawful.step_running (hr : r.Lawful) (h : r.step m = .done .running m') :
    m.halt = none ∧ m'.halt = none ∧ m'.cycles = m.cycles + 1 := by
  rcases step_eq_done_iff.1 h with ⟨hm, i, m₁, b, hd, hx, hb⟩
  cases b with
  | false => simp at hb
  | true =>
    rcases Machine.frame_of_decode_done hd with ⟨pc, rfl⟩
    rcases hr.running hx with ⟨hc, hh⟩
    exact ⟨hm, hh.trans hm, hc⟩

/-- What a step leaves that stops the machine. -/
theorem Lawful.step_halted (hr : r.Lawful) (h : r.step m = .done (.halted a) m') :
    a = m.pc ∧ ∃ reason, m'.halt = some ⟨reason, none⟩ := by
  rcases step_eq_done_iff.1 h with ⟨-, i, m₁, b, -, hx, hb⟩
  cases b with
  | true => simp at hb
  | false => exact ⟨by simpa using hb, hr.stopping hx⟩

/-- As long as the machine keeps running, every attempt counts one cycle. -/
theorem Lawful.after_of_runsOn (hr : r.Lawful) (hm : m.halt = none) (h : r.RunsOn n m) :
    (r.after n m).halt = none ∧ (r.after n m).cycles = m.cycles + n := by
  -- The last step is taken apart, since the count is known where it starts.
  induction n with
  | zero => exact ⟨hm, by simp⟩
  | succ n ih =>
    rcases runsOn_succ_iff'.1 h with ⟨hrest, hstep⟩
    rcases hr.step_running hstep with ⟨-, hh, hc⟩
    refine ⟨hh, ?_⟩
    rw [hc, (ih hrest).2]
    omega

end Registry

end WordMachine
