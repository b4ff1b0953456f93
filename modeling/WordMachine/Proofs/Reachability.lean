import Mathlib.Data.List.Induction
import Mathlib.Logic.Relation
import WordMachine.Proofs.Bounds
import WordMachine.Proofs.Turns

/-! # What becomes of a fresh machine

A machine is used by loading images, taking steps, running, and asking it to stop, in any order and
whatever each of these comes to.

* `Reaches` leads from one machine to another by such calls. What they can bring about is within 16
  bits.
* `pc_of_step`: a step leaves the counter beyond memory only if it was there before, or if that very
  step was a jump to there. `pc_of_perform` says the same of a call and the last step that it takes.
* `exists_jump`: of the calls that were made, one took the jump, and the counter has been there after
  each call since.
* `reachable_wellFormed` is the account of all reachable machines.
-/

namespace WordMachine

/-! ## Jumps -/

/-- The instruction sends the counter to `d`. -/
inductive Sends (i : Instruction) (m : Machine) : Datum → Prop where
  | jump {a : Int} {t : Word} (op : i.opcode = .jump) (operands : i.operands = [a])
      (target : m.resolve a = .ok t) : Sends i m (.number t.toInt)
  | branch {test : Word → Bool} {a b : Int} {x t : Word} (op : i.opcode.branch? = some test)
      (operands : i.operands = [a, b]) (source : m.resolve a = .ok x) (taken : test x = true)
      (target : m.resolve b = .ok t) : Sends i m (.number t.toInt)
  | call {a : Int} {t : Word} (op : i.opcode = .call) (operands : i.operands = [a])
      (target : m.resolve a = .ok t) : Sends i m (.number t.toInt)
  | ret {d : Datum} {rest : List Datum} (op : i.opcode = .ret) (stack : m.stack = d :: rest) :
      Sends i m d

/-- Neither decoding nor the count of cycles matters to where the counter is sent. -/
theorem Sends.of_counted {i : Instruction} {m : Machine} {d pc : Datum}
    (h : Sends i ({ m with pc := pc } : Machine).counted d) : Sends i m d := by
  cases h with
  | jump op operands target => exact .jump op operands target
  | branch op operands source taken target => exact .branch op operands source taken target
  | call op operands target => exact .call op operands target
  | ret op stack => exact .ret op stack

namespace Machine

variable {m m' : Machine} {i : Instruction} {b : Bool} {p : Nat}

/-- An instruction that sends the counter nowhere leaves it alone. -/
theorem pc_of_executes (h : Executes i m b m') : m'.pc = m.pc ∨ b = true ∧ Sends i m m'.pc := by
  cases h with
  | jump op operands target => exact .inr ⟨rfl, .jump op operands target⟩
  | branch op operands source taken target =>
    exact .inr ⟨rfl, .branch op operands source taken target⟩
  | call op operands target => exact .inr ⟨rfl, .call op operands target⟩
  | ret op stack entry => exact .inr ⟨rfl, .ret op stack⟩
  | _ => exact .inl rfl

/-- After a step the counter is beyond memory only if it was there, or if the step sent it there. -/
theorem pc_of_step (h : m.Bounded 16) (hp : (Registry.standard.step m).machine.pc = .number p)
    (hlt : memorySize < p) :
    m.pc = .number p ∨
      ∃ i m', Registry.Takes m i m' ∧ Sends i m (.number p) ∧
        (Registry.standard.step m).machine = m' := by
  obtain ⟨p₀, hp₀, -⟩ := h.counter
  -- Once an instruction is decoded, the counter is within memory or at its end.
  have hdecoded : ∀ {i pc}, m.decode = .done i { m with pc := pc } → pc ≠ .number p := by
    intro i pc hd hpc
    obtain ⟨-, hend, -, hm₁⟩ := h.decode_eq_done hp₀ hd
    have heq : Datum.number (p₀ + 1 + i.opcode.operandCount) = .number p :=
      (congrArg Machine.pc hm₁).symm.trans hpc
    have hint : (p₀ : Int) + 1 + i.opcode.operandCount = p := Datum.number.inj heq
    omega
  have hstep : (Registry.standard.step m).machine.pc = .number p → m.pc = .number p ∨
      ∃ i m', Registry.Takes m i m' ∧ Sends i m (.number p) ∧ m'.pc = .number p := by
    apply Registry.machine_step (P := fun m₂ => m₂.pc = .number p → m.pc = .number p ∨
      ∃ i m', Registry.Takes m i m' ∧ Sends i m (.number p) ∧ m'.pc = .number p) .inl
    · intro e pc _ hd hpc
      rcases h.decode_eq_failed hp₀ hd with ⟨q, -, hq, ⟨rfl, -⟩ | ⟨rfl, -⟩⟩
      · -- The counter was out of range, and decoding has not moved it.
        rw [hp₀]
        exact .inl ((congrArg Machine.pc hq).symm.trans hpc)
      · have heq : Datum.number (memorySize : Int) = .number p :=
          (congrArg Machine.pc hq).symm.trans hpc
        have hint : (memorySize : Int) = p := Datum.number.inj heq
        omega
    · intro i pc b m₂ hm hd hx hpc
      rcases pc_of_executes hx with heq | ⟨rfl, hsends⟩
      · exact absurd (heq.symm.trans hpc) (hdecoded hd)
      · right
        rw [hpc] at hsends
        exact ⟨i, m₂, Registry.takes_iff.2 ⟨hm, _, hd, hx⟩, hsends.of_counted, hpc⟩
    · intro i pc e m₂ _ hd hx hpc
      rw [hx.frame] at hpc
      exact absurd hpc (hdecoded hd)
    · intro m₁ f h₁
      exact h₁
  rcases hstep hp with hpc | ⟨i, m', htakes, hsends, -⟩
  · exact .inl hpc
  · refine .inr ⟨i, m', htakes, hsends, ?_⟩
    rw [htakes.2]
    rfl

/-- Beyond memory a machine gets no further: the step fails, and only halts the machine. -/
theorem step_of_beyond (hm : m.halt = none) (hp : m.pc = .number p) (hle : memorySize ≤ p)
    (hword : p ≤ 65535) :
    let f : Fault := ⟨.addressOutOfRange (.number p), .number p⟩
    Registry.standard.step m = .failed (.fault f) (m.haltWith .fault (some f)) := by
  have hout : (p : Int) < 0 ∨ (memorySize : Int) ≤ p := by omega
  have hd := decode_of_outOfRange hp hout
  rw [Error.naming_of_bounds (by omega) (by omega)] at hd
  rw [Registry.step_of_undecoded _ hm hd, hp]

/-- So a run that begins there ends there. -/
theorem machine_run_of_beyond {limit : Option Int} {fuel : Nat} (hp : m.pc = .number p)
    (hle : memorySize ≤ p) (hword : p ≤ 65535) :
    ∃ halt console, (Registry.standard.run limit fuel m).machine =
      { m with halt := halt, console := console } := by
  rcases Registry.lawful_standard.machine_run limit fuel m with
    hrun | ⟨k, rfl, hm, ⟨m₁, hstep, -⟩ | ⟨-, halt, console, hrun⟩⟩
  · exact hrun
  · cases (step_of_beyond hm hp hle hword).symm.trans hstep
  · rw [step_of_beyond hm hp hle hword] at hrun
    exact ⟨halt, console, hrun⟩

end Machine

/-! ## Loading -/

namespace Machine

/-- An image is copied to memory, or the machine is left as it is. -/
theorem load_eq (m : Machine) (files : FileSystem) (source : Source) :
    (∃ data, m.load files source = .done data.length (m.install data)) ∨
      ∃ e, m.load files source = .failed e m := by
  rw [load]
  cases source.read files with
  | error e => exact .inr ⟨e, rfl⟩
  | ok data => exact .inl ⟨data, rfl⟩

theorem loadWords_eq (m : Machine) (values : List Int) :
    (∃ data, m.loadWords values = .done data.length (m.install data)) ∨
      ∃ e, m.loadWords values = .failed e m := by
  rw [loadWords]
  cases Image.encode? values with
  | none => exact .inr ⟨_, rfl⟩
  | some image =>
    cases hcheck : checkSize image with
    | error e =>
      simp only [hcheck]
      exact .inr ⟨e, rfl⟩
    | ok data =>
      simp only [hcheck]
      exact .inl ⟨data, rfl⟩

/-- So it changes memory and the size of the last image only. -/
theorem machine_load (m : Machine) (files : FileSystem) (source : Source) :
    ∃ memory size, (m.load files source).machine =
      { m with memory := memory, bytesLoaded := size } := by
  rcases m.load_eq files source with ⟨data, h⟩ | ⟨e, h⟩
  · rw [h]
    exact ⟨_, _, rfl⟩
  · rw [h]
    exact ⟨m.memory, m.bytesLoaded, rfl⟩

theorem machine_loadWords (m : Machine) (values : List Int) :
    ∃ memory size, (m.loadWords values).machine =
      { m with memory := memory, bytesLoaded := size } := by
  rcases m.loadWords_eq values with ⟨data, h⟩ | ⟨e, h⟩
  · rw [h]
    exact ⟨_, _, rfl⟩
  · rw [h]
    exact ⟨m.memory, m.bytesLoaded, rfl⟩

end Machine

/-! ## Calls -/

/-- What can be asked of a machine. A run that has not ended within its fuel is found where it is. -/
inductive Call where
  | load (files : FileSystem) (source : Source)
  | loadWords (values : List Int)
  | step
  | run (limit : Option Int) (fuel : Nat)
  | stop

/-- The machine that a call leaves, whether it succeeds or not. -/
def Call.perform : Call → Machine → Machine
  | .load files source, m => (m.load files source).machine
  | .loadWords values, m => (m.loadWords values).machine
  | .step, m => (Registry.standard.step m).machine
  | .run limit fuel, m => (Registry.standard.run (m.effectiveLimit limit) fuel m).machine
  | .stop, m => m.requestStop

/-- What steps, halts, flushes, images and requests to stop keep is kept by every call. -/
theorem Call.keeps {P : Machine → Prop} {m : Machine} (c : Call) (hm : P m)
    (stepped : ∀ m, P m → P (Registry.standard.step m).machine)
    (stopped : ∀ m, P m → P (m.haltWith .stopped none))
    (faulted : ∀ m f, P m → P (m.haltWith .fault (some f)))
    (flushed : ∀ m, P m → P m.flush)
    (loaded : ∀ m memory size, P m → P { m with memory := memory, bytesLoaded := size })
    (asked : ∀ m, P m → P m.requestStop) : P (c.perform m) := by
  cases c with
  | load files source =>
    obtain ⟨memory, size, hload⟩ := m.machine_load files source
    rw [perform, hload]
    exact loaded m memory size hm
  | loadWords values =>
    obtain ⟨memory, size, hload⟩ := m.machine_loadWords values
    rw [perform, hload]
    exact loaded m memory size hm
  | step => exact stepped m hm
  | run limit fuel =>
    have hrun := Registry.lawful_standard.runsTo_run (m.effectiveLimit limit) fuel m
    exact hrun.machine hm stepped stopped faulted flushed
  | stop => exact asked m hm

/-- The machine after some calls, made one after the other. -/
def Call.performAll : List Call → Machine → Machine
  | [], m => m
  | c :: cs, m => performAll cs (c.perform m)

@[simp] theorem Call.performAll_nil (m : Machine) : performAll [] m = m := rfl

/-- The last call apart. -/
theorem Call.performAll_concat (cs : List Call) (c : Call) (m : Machine) :
    performAll (cs ++ [c]) m = c.perform (performAll cs m) := by
  induction cs generalizing m with
  | nil => rfl
  | cons c' cs ih => exact ih (c'.perform m)

/-- Any number of calls leads from the one machine to the other. -/
def Reaches : Machine → Machine → Prop :=
  Relation.ReflTransGen fun m m' => ∃ c : Call, c.perform m = m'

namespace Reaches

variable {m₀ m : Machine}

theorem perform (h : Reaches m₀ m) (c : Call) : Reaches m₀ (c.perform m) :=
  Relation.ReflTransGen.tail h ⟨c, rfl⟩

/-- What every call keeps is kept by all of them together. -/
theorem invariant {P : Machine → Prop} (h : Reaches m₀ m) (h₀ : P m₀)
    (hcall : ∀ (c : Call) m, Reaches m₀ m → P m → P (c.perform m)) : P m := by
  induction h with
  | refl => exact h₀
  | tail hreach hlast ih =>
    rcases hlast with ⟨c, rfl⟩
    exact hcall c _ hreach ih

end Reaches

theorem reaches_performAll (m : Machine) (cs : List Call) : Reaches m (Call.performAll cs m) := by
  induction cs generalizing m with
  | nil => exact .refl
  | cons c cs ih => exact (ih (c.perform m)).head ⟨c, rfl⟩

/-! ## Words -/

namespace Machine

variable {m₀ m m' : Machine} {limit : Option Int} {fuel p : Nat}

/-- A run keeps a machine within 16 bits, however it ends. -/
theorem Bounded.run (h : m.Bounded 16) :
    (Registry.standard.run limit fuel m).machine.Bounded 16 := by
  -- A run is a step and a shorter run, or the end of the run.
  induction fuel using Nat.strongRecOn generalizing m with
  | _ fuel ih =>
    rcases Registry.lawful_standard.machine_run limit fuel m with
      ⟨halt, console, hrun⟩ | ⟨k, rfl, -, ⟨m₁, hstep, hrun⟩ | ⟨-, halt, console, hrun⟩⟩
    · rw [hrun]
      exact h.of_eq rfl rfl rfl rfl rfl
    · have h₁ : m₁.Bounded 16 := by
        have hb := h.step_of_le (Nat.le_refl 16)
        rwa [hstep] at hb
      rw [hrun]
      exact ih k (Nat.lt_succ_self k) h₁
    · rw [hrun]
      exact (h.step_of_le (Nat.le_refl 16)).of_eq rfl rfl rfl rfl rfl

theorem Bounded.perform (h : m.Bounded 16) (c : Call) : (c.perform m).Bounded 16 := by
  cases c with
  | load files source => exact h.load files source
  | loadWords values => exact h.loadWords values
  | step => exact h.step_of_le (Nat.le_refl 16)
  | run limit fuel => exact h.run
  | stop => exact h.of_eq rfl rfl rfl rfl rfl

/-- Whatever is done to a fresh machine, it stays within 16 bits. -/
theorem bounded_of_reaches (h₀ : m₀.Fresh) (h : Reaches m₀ m) : m.Bounded 16 := by
  apply h.invariant (P := fun m => m.Bounded 16) (Bounded.of_fresh h₀)
  intro c m _ hb
  exact hb.perform c

/-! ## Where a counter beyond memory comes from -/

end Machine

/-- The largest number of steps that a call takes. -/
def Call.steps : Call → Nat
  | .step => 1
  | .run _ fuel => fuel
  | _ => 0

/-- The last step that the call takes sends the counter to `p`. The `k` steps before it have run on;
after it the call does no more than halt the machine and flush its output. -/
def Call.Jumps (c : Call) (m : Machine) (p : Nat) : Prop :=
  ∃ k i m', k < c.steps ∧ Registry.standard.RunsOn k m ∧
    Registry.Takes (Registry.standard.after k m) i m' ∧
    Sends i (Registry.standard.after k m) (.number p) ∧ m'.pc = .number p ∧
    ∃ halt console, c.perform m = { m' with halt := halt, console := console }

section Runs

variable {m m₁ : Machine} {limit : Option Int} {k p : Nat}
  (hrun : (Registry.standard.run limit (k + 1) m).machine =
    (Registry.standard.run limit k m₁).machine)
  (hl : m.effectiveLimit limit = limit)

include hrun hl

/-- The jump is the first step of a run, which ends there: nothing can be read beyond memory. -/
theorem Call.Jumps.of_first {i : Instruction} (htakes : Registry.Takes m i m₁)
    (hsends : Sends i m (.number p)) (hp : m₁.pc = .number p) (hlt : memorySize < p)
    (hword : p ≤ 65535) : (Call.run limit (k + 1)).Jumps m p := by
  obtain ⟨halt, console, hend⟩ : ∃ halt console, (Registry.standard.run limit k m₁).machine =
      { m₁ with halt := halt, console := console } :=
    Machine.machine_run_of_beyond hp (Nat.le_of_lt hlt) hword
  refine ⟨0, i, m₁, Nat.succ_pos k, Registry.runsOn_zero _ _, htakes, hsends, hp, halt, console, ?_⟩
  rw [Call.perform, hl, hrun, hend]

/-- The jump is among the steps behind the first. -/
theorem Call.Jumps.of_rest (hstep : Registry.standard.step m = .done .running m₁)
    (hl₁ : m₁.effectiveLimit limit = limit) (h : (Call.run limit k).Jumps m₁ p) :
    (Call.run limit (k + 1)).Jumps m p := by
  obtain ⟨j, i, m', hj, hrest, htakes, hsends, hpc, halt, console, hend⟩ := h
  rw [Call.perform, hl₁] at hend
  have hafter : Registry.standard.after (j + 1) m = Registry.standard.after j m₁ := by
    rw [Registry.after_succ, hstep]
    rfl
  refine ⟨j + 1, i, m', Nat.succ_lt_succ hj, Registry.runsOn_succ_iff.2 ⟨m₁, hstep, hrest⟩,
    ?_, ?_, hpc, halt, console, ?_⟩
  · rw [hafter]
    exact htakes
  · rw [hafter]
    exact hsends
  · rw [Call.perform, hl, hrun, hend]

end Runs

namespace Machine

variable {m₀ m m' : Machine} {limit : Option Int} {fuel p : Nat}

/-- A run leaves the counter beyond memory only if it was there before and nothing else has happened,
or if the last step of the run was a jump to there. -/
theorem pc_of_run (hb : m.Bounded 16) (hl : m.effectiveLimit limit = limit)
    (hp : (Registry.standard.run limit fuel m).machine.pc = .number p) (hlt : memorySize < p) :
    m.pc = .number p ∨ (Call.run limit fuel).Jumps m p := by
  induction fuel using Nat.strongRecOn generalizing m with
  | _ fuel ih =>
    rcases Registry.lawful_standard.machine_run limit fuel m with
      ⟨halt, console, hrun⟩ | ⟨k, rfl, -, ⟨m₁, hstep, hrun⟩ | ⟨hlast, halt, console, hrun⟩⟩
    · rw [hrun] at hp
      exact .inl hp
    · -- The jump is the first step, or it is among those of the shorter run behind it.
      have hmachine : (Registry.standard.step m).machine = m₁ := by
        rw [hstep]
        rfl
      have hb₁ : m₁.Bounded 16 := hmachine ▸ hb.step_of_le (Nat.le_refl 16)
      have hl₁ : m₁.effectiveLimit limit = limit := by
        rw [← hmachine, effectiveLimit, (Registry.settings_of_step m).1]
        exact hl
      rw [hrun] at hp
      rcases ih k (Nat.lt_succ_self k) hb₁ hl₁ hp with hp₁ | hjumps
      · obtain ⟨p', hp', hbound⟩ := hb₁.counter
        have heq : (p' : Int) = p := Datum.number.inj (hp'.symm.trans hp₁)
        rcases pc_of_step hb (hmachine ▸ hp₁) hlt with hpc | ⟨i, m', htakes, hsends, hm'⟩
        · exact .inl hpc
        · cases hmachine.symm.trans hm'
          exact .inr (.of_first hrun hl htakes hsends hp₁ hlt (by omega))
      · exact .inr (.of_rest hrun hl hstep hl₁ hjumps)
    · -- A step that ends the run has not sent the counter anywhere.
      rw [hrun] at hp
      rcases pc_of_step hb hp hlt with hpc | ⟨i, m', htakes, -, -⟩
      · exact .inl hpc
      · exact absurd htakes.2 (hlast m')

/-- So does any other call: only steps move the counter. -/
theorem pc_of_perform (hb : m.Bounded 16) {c : Call} (hp : (c.perform m).pc = .number p)
    (hlt : memorySize < p) : m.pc = .number p ∨ c.Jumps m p := by
  cases c with
  | load files source =>
    obtain ⟨memory, size, hload⟩ := m.machine_load files source
    rw [Call.perform, hload] at hp
    exact .inl hp
  | loadWords values =>
    obtain ⟨memory, size, hload⟩ := m.machine_loadWords values
    rw [Call.perform, hload] at hp
    exact .inl hp
  | step =>
    rcases pc_of_step hb hp hlt with hpc | ⟨i, m', htakes, hsends, hm'⟩
    · exact .inl hpc
    · rw [Call.perform, hm'] at hp
      exact .inr ⟨0, i, m', Nat.zero_lt_one, Registry.runsOn_zero _ _, htakes, hsends, hp,
        m'.halt, m'.console, hm'⟩
  | run limit fuel =>
    have hl : m.effectiveLimit (m.effectiveLimit limit) = m.effectiveLimit limit := by
      cases limit with
      | none => exact Option.or_self
      | some l => rfl
    rcases pc_of_run hb hl hp hlt with hpc | ⟨k, i, m', hk, hrun, htakes, hsends, hpc, hend⟩
    · exact .inl hpc
    · rw [Call.perform, hl] at hend
      exact .inr ⟨k, i, m', hk, hrun, htakes, hsends, hpc, hend⟩
  | stop => exact .inl hp

/-- If the counter is beyond memory after some calls, then one of them has sent it there, and it has
been there after each call since. -/
theorem exists_jump (h₀ : m₀.Fresh) (cs : List Call)
    (hp : (Call.performAll cs m₀).pc = .number p) (hlt : memorySize < p) :
    ∃ before c behind, cs = before ++ c :: behind ∧
      c.Jumps (Call.performAll before m₀) p ∧
      ∀ rest, rest <+: behind → (Call.performAll (before ++ c :: rest) m₀).pc = .number p := by
  -- The last call has sent the counter there, or it was there already.
  induction cs using List.reverseRecOn with
  | nil =>
    rw [Call.performAll_nil, h₀] at hp
    have heq : (0 : Int) = p := Datum.number.inj hp
    omega
  | append_singleton cs c ih =>
    have hlast := hp
    rw [Call.performAll_concat] at hp
    rcases pc_of_perform (bounded_of_reaches h₀ (reaches_performAll m₀ cs)) hp hlt with hpc | hjumps
    · obtain ⟨before, c', behind, rfl, hjumps, hsince⟩ := ih hpc
      refine ⟨before, c', behind ++ [c], by simp, hjumps, ?_⟩
      intro rest hrest
      rcases List.prefix_concat_iff.1 hrest with rfl | hrest
      · rwa [List.append_assoc, List.cons_append] at hlast
      · exact hsince rest hrest
    · refine ⟨cs, c, [], rfl, hjumps, ?_⟩
      intro rest hrest
      rw [List.prefix_nil.1 hrest]
      exact hlast

/-! ## Reachable machines -/

/-- Whatever calls were made of a fresh machine, it has all its cells and registers, only words on its
stack, no negative count of cycles, and a counter that is a word.

So the checks find nothing but a counter beyond memory. It was put there by one of the calls, as the
last step that the call took was a jump to there, and has been there after each call since. The next
step fails with its address and changes nothing else. -/
theorem reachable_wellFormed (h₀ : m₀.Fresh) (cs : List Call) :
    let m := Call.performAll cs m₀
    m.memory.size = 32768 ∧ m.registers.size = 8 ∧
    (∀ w ∈ m.memory.toList ++ m.registers.toList, w.toNat ≤ 65535) ∧
    (∀ d ∈ m.stack, ∃ w : Word, d = .number w.toInt) ∧ 0 ≤ m.cycles ∧
    ∃ p : Nat, m.pc = .number p ∧ p ≤ 65535 ∧ m.validate = .ok (decide (p ≤ 32768)) ∧
      (32768 < p →
        (∃ before c behind, cs = before ++ c :: behind ∧
          c.Jumps (Call.performAll before m₀) p ∧
          ∀ rest, rest <+: behind →
            (Call.performAll (before ++ c :: rest) m₀).pc = .number p) ∧
        (m.halt = none →
          let f : Fault := ⟨.addressOutOfRange (.number p), .number p⟩
          Registry.standard.step m = .failed (.fault f) (m.haltWith .fault (some f)))) := by
  intro m
  have hb : m.Bounded 16 := bounded_of_reaches h₀ (reaches_performAll m₀ cs)
  obtain ⟨p, hp, hbound⟩ := hb.counter
  have hword : p ≤ 65535 := by
    have hsize : memorySize = 32768 := rfl
    omega
  refine ⟨hb.memory, hb.registers, ?_, ?_, hb.count, p, hp, hword, hb.validate hp, ?_⟩
  · intro w _
    exact Nat.le_of_lt_succ w.toNat_lt
  · intro d hd
    obtain ⟨w, hw, -⟩ := hb.entries d hd
    exact ⟨w, hw⟩
  · intro hlt
    exact ⟨exists_jump h₀ cs hp hlt, fun hm => step_of_beyond hm hp (Nat.le_of_lt hlt) hword⟩

/-- A program that jumps to a word of 16 bits from its own image gets beyond memory, and no
further. -/
theorem reachable_wellFormed_beyond :
    let f : Fault := ⟨.addressOutOfRange (.number 40000), .number 40000⟩
    let load : Call := .load (fun _ => .ok []) (.bytes (Image.ofWords [15, 32768, 5, 6, 32768, 40000]))
    let m := Call.performAll [load, .step, .step] {}
    ({} : Machine).Fresh ∧ m.halt = none ∧ m.pc = .number 40000 ∧ m.validate = .ok false ∧
      (∃ before c behind, [load, .step, .step] = before ++ c :: behind ∧
        c.Jumps (Call.performAll before {}) 40000) ∧
      Registry.standard.step m = .failed (.fault f) (m.haltWith .fault (some f)) := by
  intro f load
  let words : List Word := [15, 32768, 5, 6, 32768, 40000]
  let m : Machine := load.perform {}
  have hfresh : ({} : Machine).Fresh := rfl
  have hreach : Reaches {} m := Reaches.perform .refl _
  have hb : m.Bounded 16 := bounded_of_reaches hfresh hreach
  have hcells : m.memory = overlay (Array.replicate memorySize 0) words := rfl
  let m₁ : Machine := { m with
    pc := .number 3
    registers := m.registers.setIfInBounds 0 40000
    cycles := 1 }
  let m₂ : Machine := { m₁ with pc := .number 40000, cycles := 2 }
  have hload : Registry.standard.step m = .done .running m₁ := by
    have hd := hb.decode_of_fits (p := 0) rfl (by decide)
      (readMemory_of_overlay hcells (k := 0) rfl (by decide)) (by decide)
    have hpeek : m.peek (0 + 1) (2 : Nat) = [32768, 5] := by
      have hone := peek_succ (p := 2) (by decide)
        (readMemory_of_overlay hcells (k := 2) rfl (by decide)) 0
      have htwo := peek_succ (p := 1) (by decide)
        (readMemory_of_overlay hcells (k := 1) rfl (by decide)) 1
      rw [Int.natCast_zero, peek_zero] at hone
      exact htwo.trans (congrArg _ hone)
    have hcount : (Opcode.ofWord (Word.toInt 15)).operandCount = 2 := rfl
    rw [hcount, hpeek] at hd
    let m' : Machine := { m with pc := .number 3, cycles := 1 }
    have hcell : m'.readMemory (Word.toInt 5) = .ok 40000 := by
      have hindex : Word.toInt 5 = (5 : Nat) := rfl
      rw [hindex]
      exact readMemory_of_overlay (m := m') hcells (k := 5) rfl (by decide)
    have hdest : m'.Selects 32768 0 := ⟨rfl, by decide⟩
    exact Registry.step_eq_running_iff.2
      ⟨rfl, _, _, hd, .load (m := m') (b := 5) (x := 5) rfl rfl rfl hcell hdest⟩
  have hjump : Registry.standard.step m₁ = .done .running m₂ := by
    have hsized₁ : m₁.Sized := ⟨hb.memory, (hb.setRegister (w := 40000) (by decide) 0).registers⟩
    have hd := hsized₁.decode_one (p := 3) rfl (by decide)
      (readMemory_of_overlay (m := m₁) hcells (k := 3) rfl (by decide)) rfl
      (readMemory_of_overlay (m := m₁) hcells (k := 4) rfl (by decide))
    exact Registry.step_eq_running_iff.2
      ⟨rfl, _, _, hd, .jump (a := 32768) (t := 40000) rfl rfl rfl⟩
  have hcalls : Call.performAll [load, .step, .step] {} = m₂ := by
    have hfirst : Call.step.perform m = m₁ := by
      rw [Call.perform, hload]
      rfl
    have hsecond : Call.step.perform m₁ = m₂ := by
      rw [Call.perform, hjump]
      rfl
    rw [← hsecond, ← hfirst]
    rfl
  obtain ⟨-, -, -, -, -, p, hp, -, hvalid, hbeyond⟩ :=
    reachable_wellFormed hfresh [load, .step, .step]
  simp only [hcalls] at hp hvalid hbeyond ⊢
  have heq : p = 40000 := by
    have hint : (40000 : Int) = p := Datum.number.inj hp
    omega
  rw [heq] at hvalid hbeyond
  obtain ⟨⟨before, c, behind, hsplit, hjumps, -⟩, hstep⟩ := hbeyond (by decide)
  exact ⟨hfresh, rfl, rfl, hvalid, ⟨before, c, behind, hsplit, hjumps⟩, hstep rfl⟩

end Machine

end WordMachine
