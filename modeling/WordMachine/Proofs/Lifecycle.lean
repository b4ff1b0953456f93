import WordMachine.Proofs.Reachability
import WordMachine.Proofs.Surroundings
import WordMachine.Proofs.Turns

/-! # From the first call to the last

A machine that was fresh once runs until something halts it, and is halted for good from then on.

* `error_of_step` and `RunsTo.error`: such a machine fails with faults, or because it is interrupted,
  or because the limit of a run has too many digits to be named in a fault.
* `fault_of_step`: if its input simply ends, then its steps fail with faults only, and the one that it
  fails with is on record.
* `RunsTo.recorded`: what a run says of its end is on record as well.
* `perform_of_halted` and `frozen_of_reaches`: nothing that is asked of a halted machine changes what
  the program has done.
* `lifecycle` is the account of all reachable machines, and `lifecycle_exceptions` says what it leaves
  out.
-/

namespace WordMachine

variable {m m' m₀ : Machine} {i : Instruction} {e : Error}

/-! ## Failing -/

/-- The word of an entry that is a word. -/
@[simp] theorem Datum.word_toInt (w : Word) : (Datum.number w.toInt).word = .ok w := by
  simp only [Datum.word, Datum.toInt?, wordOf, Word.ofInt?_toInt]

/-- If nobody but the program can have made a mistake, an instruction fails with a fault that does not
know its place yet, or because whoever gives the input interrupts it. -/
theorem Aborts.error_of_wellFormed (h : Aborts i m e m') (hsized : m.Sized)
    (hentries : ∀ d ∈ m.stack, ∃ w : Word, d = .number w.toInt)
    (hoperands : i.operands.length = i.opcode.operandCount)
    (hwords : ∀ a ∈ i.words, Text.isWritable a = true) :
    (∃ c, e = .ofCause c) ∨ (e = .interrupted ∧ m.console.inputEnd = .interrupt) := by
  -- What an error has to name is a word of the instruction.
  have hnamed : ∀ {cause a}, a ∈ i.words → e = .naming cause a → ∃ c, e = .ofCause c :=
    fun hmem he => ⟨_, he.trans (Error.naming_of_isWritable (hwords _ hmem))⟩
  cases h with
  | invalid op reason => exact .inl (hnamed List.mem_cons_self reason)
  | operandCount takes given => exact absurd (hoperands.trans takes) given
  | operand mem reason => exact .inl (hnamed (List.mem_cons_of_mem _ mem) reason)
  | missing small => exact absurd hsized small
  | @popped a top rest e op operands stack entry reason =>
    rcases reason with he | ⟨-, small⟩ | hword
    · exact .inl (hnamed (by simp [Instruction.words, operands]) he)
    · exact absurd hsized small
    · obtain ⟨w, rfl⟩ := hentries top (by simp [stack])
      rw [Datum.word_toInt] at hword
      cases hword
  | exhausted op empty reason =>
    cases hend : m.console.inputEnd with
    | exhausted =>
      rw [hend] at reason
      exact .inl ⟨_, reason⟩
    | interrupt =>
      rw [hend] at reason
      exact .inr ⟨reason, rfl⟩
  | consumed op operands read reason =>
    rcases reason with he | ⟨-, small⟩
    · exact .inl (hnamed (by simp [Instruction.words, operands]) he)
    · exact absurd hsized small
  | _ => exact .inl ⟨_, rfl⟩

namespace Machine

/-- A step of a machine within 16 bits fails with a fault, which has the address of its instruction
and is on record, or because it is interrupted. -/
theorem error_of_step (hb : m.Bounded 16) (hm : m.halt = none)
    (h : Registry.standard.step m = .failed e m') :
    (∃ c, e = .fault ⟨c, m.pc⟩ ∧ m'.halt = some ⟨.fault, some ⟨c, m.pc⟩⟩) ∨
      (e = .interrupted ∧ m.console.inputEnd = .interrupt) := by
  rcases Registry.step_eq_failed h with ⟨hhalted, -, -⟩ | ⟨-, e₀, m₁, hfail, hcause⟩
  · exact absurd hm hhalted
  have hreason : (∃ c, e₀ = .ofCause c) ∨
      (e₀ = .interrupted ∧ m.console.inputEnd = .interrupt) := by
    rcases hcause with hd | ⟨i, m₂, hd, habort⟩
    · obtain ⟨p, hp, hbound⟩ := hb.counter
      obtain ⟨q, rfl, -, hq⟩ := hb.toSized.decode_eq_failed hp hd
      have hsize : memorySize = 32768 := rfl
      exact .inl ⟨_, Error.naming_of_bounds (by omega) (by omega)⟩
    · have hoperands : i.operands.length = i.opcode.operandCount := length_of_decode hd
      have hwords := isWritable_of_decode hd
      obtain ⟨pc, rfl⟩ := frame_of_decode_done hd
      have hentries : ∀ d ∈ m.stack, ∃ w : Word, d = .number w.toInt := by
        intro d hmem
        obtain ⟨w, hw, -⟩ := hb.entries d hmem
        exact ⟨w, hw⟩
      exact habort.error_of_wellFormed ⟨hb.memory, hb.registers⟩ hentries hoperands hwords
  rcases hreason with ⟨c, rfl⟩ | ⟨rfl, hend⟩
  · cases hfail
    exact .inl ⟨c, rfl, rfl⟩
  · cases hfail
    exact .inr ⟨rfl, hend⟩

/-- If the input simply ends, then it fails with faults only. -/
theorem fault_of_step (hb : m.Bounded 16) (hend : m.console.inputEnd = .exhausted)
    (hm : m.halt = none) (h : Registry.standard.step m = .failed e m') :
    ∃ f, e = .fault f ∧ m'.halt = some ⟨.fault, some f⟩ := by
  rcases error_of_step hb hm h with ⟨c, he, hhalt⟩ | ⟨-, hinterrupt⟩
  · exact ⟨_, he, hhalt⟩
  · rw [hend] at hinterrupt
    cases hinterrupt

/-! ## Halting -/

/-- A step stops the machine at a `halt`, or because there is nothing to take off the stack. -/
theorem reason_of_step {a : Datum} (h : Registry.standard.step m = .done (.halted a) m') :
    ∃ reason ∈ [HaltReason.halt, .emptyStack], m'.halt = some ⟨reason, none⟩ := by
  rcases Registry.step_eq_halted_iff.1 h with ⟨-, -, i, m₁, -, hx⟩
  cases hx with
  | halt op => exact ⟨.halt, by simp, rfl⟩
  | underflow op stack => exact ⟨.emptyStack, by simp, rfl⟩

/-- A fault is on record exactly if it was one that halted the machine. -/
def Explained (m : Machine) : Prop :=
  ∀ h, m.halt = some h → (h.fault ≠ none ↔ h.reason = .fault)

theorem Explained.haltWith_fault (m : Machine) (f : Fault) :
    (m.haltWith .fault (some f)).Explained := by
  intro h hm
  cases hm
  simp

theorem Explained.haltWith {reason : HaltReason} (m : Machine) (hr : reason ≠ .fault) :
    (m.haltWith reason none).Explained := by
  intro h hm
  cases hm
  simpa using hr

theorem Explained.step (h : m.Explained) : (Registry.standard.step m).machine.Explained := by
  apply Registry.machine_step (P := Explained) h
  · intro e pc _ _
    exact h
  · intro i pc b m₂ _ _ hx
    cases hx with
    | halt op => exact .haltWith _ (by decide)
    | underflow op stack => exact .haltWith _ (by decide)
    | _ => exact h
  · intro i pc e m₂ _ _ hx
    rw [hx.frame]
    exact h
  · intro m₁ f _
    exact .haltWith_fault m₁ f

end Machine

/-! ## Runs -/

namespace Registry

variable {limit : Option Int} {fuel : Nat}

/-- If something ended the run, then the machine has halted, and what the run says is on record; but a
limit that has too many digits is refused, and the machine does not halt. -/
inductive Recorded (limit : Option Int) : Outcome (Option Ending) → Prop where
  | unended {m : Machine} : Recorded limit (.done none m)
  | ended {ending : Ending} {m : Machine} (halt : m.halt = some ⟨ending.reason, none⟩)
      (reason : ending.reason ≠ .fault) : Recorded limit (.done (some ending) m)
  | failed {f : Fault} {m : Machine} (halt : m.halt = some ⟨.fault, some f⟩) :
      Recorded limit (.failed (.fault f) m)
  | refused {l : Int} {m : Machine} (limited : limit = some l) (long : Text.isWritable l = false)
      (running : m.halt = none) : Recorded limit (.failed .tooManyDigits m)

/-- A run of a machine that has not halted is recorded, however it ends. -/
theorem RunsTo.recorded {o : Outcome (Option Ending)} (h : standard.RunsTo limit fuel m o)
    (hb : m.Bounded 16) (hend : m.console.inputEnd = .exhausted) (hm : m.halt = none) :
    Recorded limit o := by
  induction h with
  | halted halt =>
    rw [halt] at hm
    cases hm
  | asked running asked => exact .ended rfl (by decide)
  | @exceeded fuel m l running unasked limited reached =>
    cases hl : Text.isWritable l with
    | true =>
      rw [Machine.exceed_of_isWritable hl]
      exact .failed rfl
    | false =>
      rw [Machine.exceed_of_not_isWritable hl]
      exact .refused limited hl running
  | spent ready => exact .unended
  | failed ready step =>
    obtain ⟨f, rfl, hfault⟩ := Machine.fault_of_step hb hend hm step
    exact .failed hfault
  | @stopped fuel m m' a reason ready step halt =>
    obtain ⟨reason', hmem, halt'⟩ := Machine.reason_of_step step
    cases halt.symm.trans halt'
    refine .ended halt ?_
    rintro rfl
    simp at hmem
  | @next fuel m m' o ready step rest ih =>
    have hmachine : (standard.step m).machine = m' := by rw [step]; rfl
    have hm' : m'.halt = none := (lawful_standard.step_running step).2.1
    have hb' : m'.Bounded 16 := hmachine ▸ hb.step_of_le (Nat.le_refl 16)
    have hend' : m'.console.inputEnd = .exhausted := by
      rw [← hmachine, console_of_step, Console.inputEnd_serve, hend]
    exact ih hb' hend' hm'

/-- A run of a machine within 16 bits fails with a fault that has an address, or because it is
interrupted, or because its limit has too many digits. -/
theorem RunsTo.error (h : standard.RunsTo limit fuel m (.failed e m')) (hb : m.Bounded 16) :
    (∃ c p, e = .fault ⟨c, .number p⟩) ∨ e = .interrupted ∨
      e = .tooManyDigits ∧ ∃ l, limit = some l ∧ Text.isWritable l = false := by
  -- The rules are about any outcome, so the induction has to know of this one by an equation.
  generalize ho : Outcome.failed e m' = o at h
  induction h with
  | @exceeded fuel m l running unasked limited reached =>
    obtain ⟨p, hp, -⟩ := hb.counter
    cases hl : Text.isWritable l with
    | true =>
      rw [Machine.exceed_of_isWritable hl] at ho
      cases ho
      exact .inl ⟨.cycleLimit (.number l), p, by rw [← hp]; rfl⟩
    | false =>
      rw [Machine.exceed_of_not_isWritable hl] at ho
      cases ho
      exact .inr (.inr ⟨rfl, l, limited, hl⟩)
  | @failed fuel m m' e ready step =>
    obtain ⟨p, hp, -⟩ := hb.counter
    cases ho
    rcases Machine.error_of_step hb ready.running step with ⟨c, rfl, -⟩ | ⟨rfl, -⟩
    · exact .inl ⟨c, p, by rw [hp]⟩
    · exact .inr (.inl rfl)
  | next ready step rest ih =>
    have hb' := hb.step_of_le (Nat.le_refl 16)
    rw [step] at hb'
    exact ih hb' ho
  | _ => cases ho

end Registry

namespace Machine

variable {limit : Option Int} {fuel : Nat}

/-- A run of a halted machine answers with the reason on record, and only flushes the output. -/
theorem run_of_halted {reason : HaltReason} (h : m.haltReason = some reason) :
    Registry.standard.run limit fuel m = .done (some ⟨reason, none⟩) m.flush := by
  obtain ⟨h, hm, rfl⟩ := Option.map_eq_some_iff.1 h
  exact (Registry.RunsTo.halted hm).run_eq

end Machine

/-! ## Calls -/

/-- The call loads an image, and there is nothing wrong with the image. -/
def Call.Loads (c : Call) (m : Machine) : Prop :=
  match c with
  | .load files source => ∃ size m', m.load files source = .done size m'
  | .loadWords values => ∃ size m', m.loadWords values = .done size m'
  | _ => False

namespace Machine

theorem Explained.perform (h : m.Explained) (c : Call) : (c.perform m).Explained := by
  apply c.keeps h
  · intro m₁ h₁
    exact h₁.step
  · intro m₁ _
    exact .haltWith m₁ (by decide)
  · intro m₁ f _
    exact .haltWith_fault m₁ f
  · intro m₁ h₁
    exact h₁
  · intro m₁ memory size h₁
    exact h₁
  · intro m₁ h₁
    exact h₁

theorem inputEnd_perform (m : Machine) (c : Call) :
    (c.perform m).console.inputEnd = m.console.inputEnd := by
  apply c.keeps (P := fun m' => m'.console.inputEnd = m.console.inputEnd) rfl
  · intro m₁ h₁
    rw [Registry.console_of_step, Console.inputEnd_serve, h₁]
  · intro m₁ h₁
    exact h₁
  · intro m₁ f h₁
    exact h₁
  · intro m₁ h₁
    exact h₁
  · intro m₁ memory size h₁
    exact h₁
  · intro m₁ h₁
    exact h₁

/-- What is asked of a halted machine can put another image into memory, be remembered as a request
to stop, and flush the output. -/
theorem perform_of_halted (hm : m.halt ≠ none) (c : Call) :
    ∃ memory size asked flushes, (c.Loads m ∨ memory = m.memory) ∧ c.perform m =
      { m with
        memory := memory
        bytesLoaded := size
        stopRequested := asked
        console := { m.console with flushes := flushes } } := by
  cases c with
  | load files source =>
    rcases m.load_eq files source with ⟨data, h⟩ | ⟨e, h⟩
    · refine ⟨(m.install data).memory, data.length, m.stopRequested, m.console.flushes,
        .inl ⟨_, _, h⟩, ?_⟩
      rw [Call.perform, h]
      rfl
    · refine ⟨m.memory, m.bytesLoaded, m.stopRequested, m.console.flushes, .inr rfl, ?_⟩
      rw [Call.perform, h]
      rfl
  | loadWords values =>
    rcases m.loadWords_eq values with ⟨data, h⟩ | ⟨e, h⟩
    · refine ⟨(m.install data).memory, data.length, m.stopRequested, m.console.flushes,
        .inl ⟨_, _, h⟩, ?_⟩
      rw [Call.perform, h]
      rfl
    · refine ⟨m.memory, m.bytesLoaded, m.stopRequested, m.console.flushes, .inr rfl, ?_⟩
      rw [Call.perform, h]
      rfl
  | step =>
    rw [Call.perform, Registry.step_of_halted _ hm]
    exact ⟨m.memory, m.bytesLoaded, m.stopRequested, m.console.flushes, .inr rfl, rfl⟩
  | run limit fuel =>
    obtain ⟨h, hh⟩ := Option.ne_none_iff_exists'.1 hm
    rw [Call.perform, run_of_halted (congrArg (Option.map Halt.reason) hh)]
    exact ⟨m.memory, m.bytesLoaded, m.stopRequested, m.console.flush.flushes, .inr rfl, rfl⟩
  | stop => exact ⟨m.memory, m.bytesLoaded, true, m.console.flushes, .inr rfl, rfl⟩

/-- The program has got no further from `m` to `m'`, and nobody has seen anything of it. -/
def Frozen (m m' : Machine) : Prop :=
  m' = { m with
    memory := m'.memory
    bytesLoaded := m'.bytesLoaded
    stopRequested := m'.stopRequested
    console := { m.console with flushes := m'.console.flushes } }

theorem frozen_of_reaches (hm : m.halt ≠ none) (h : Reaches m m') : m.Frozen m' := by
  apply h.invariant (P := m.Frozen) rfl
  intro c m₁ _ h₁
  have hm₁ : m₁.halt ≠ none := by
    rw [h₁]
    exact hm
  obtain ⟨memory, size, asked, flushes, -, hc⟩ := perform_of_halted hm₁ c
  rw [Frozen, hc, h₁]

/-- A machine that was fresh once and whose input simply ends has a fault on record exactly if a
fault is why it halted. That it has halted exactly if there is a reason for it needs no proof about
calls: the reason and the fault stand in one record of how it halted, which is there or not.

A run of such a machine ends with an answer or a fault, and either way that is on record. The one
exception is a limit that is reached and has too many digits to be named in a fault: it is refused, and
the machine has not halted.

Once the machine has halted it stays so, whatever is asked of it: it refuses to take steps, and runs
give the reason on record and flush the output. -/
theorem lifecycle (h₀ : m₀.Fresh) (hend : m₀.console.inputEnd = .exhausted) (h : Reaches m₀ m) :
    (m.isHalted = true ↔ m.haltReason ≠ none) ∧
    (m.fault ≠ none ↔ m.haltReason = some .fault) ∧
    (m.isHalted = false → ∀ limit fuel,
      (∀ ending m', Registry.standard.run limit fuel m = .done (some ending) m' →
        ending.reason ∈ [HaltReason.halt, .emptyStack, .stopped] ∧
        m'.isHalted = true ∧ m'.haltReason = some ending.reason ∧ m'.fault = none) ∧
      (∀ e m', Registry.standard.run limit fuel m = .failed e m' →
        (∃ f, e = .fault f ∧
          m'.isHalted = true ∧ m'.haltReason = some .fault ∧ m'.fault = some f) ∨
        (e = .tooManyDigits ∧ m'.isHalted = false ∧
          ∃ l, limit = some l ∧ Text.isWritable l = false))) ∧
    ∀ reason, m.haltReason = some reason → ∀ m', Reaches m m' →
      m.Frozen m' ∧ Registry.standard.step m' = .failed .halted m' ∧
      (∀ limit fuel,
        Registry.standard.run limit fuel m' = .done (some ⟨reason, none⟩) m'.flush) ∧
      ∀ c : Call, c.Loads m' ∨ (c.perform m').memory = m'.memory := by
  have hb : m.Bounded 16 := bounded_of_reaches h₀ h
  have hexplained : m.Explained := by
    apply h.invariant (P := Explained)
    · intro halt hhalt
      rw [h₀] at hhalt
      cases hhalt
    · intro c m₁ _ h₁
      exact h₁.perform c
  have hend' : m.console.inputEnd = .exhausted := by
    apply h.invariant (P := fun m => m.console.inputEnd = .exhausted) hend
    intro c m₁ _ h₁
    rw [inputEnd_perform, h₁]
  refine ⟨?_, ?_, ?_, ?_⟩
  · simp [isHalted, haltReason, Option.isSome_iff_ne_none]
  · cases hm : m.halt with
    | none => simp [fault, haltReason, hm]
    | some halt => simpa [fault, haltReason, hm] using hexplained halt hm
  · intro hrunning limit fuel
    have hm : m.halt = none := by simpa [isHalted] using hrunning
    have hrecorded := (Registry.lawful_standard.runsTo_run limit fuel m).recorded hb hend' hm
    constructor
    · intro ending m' hrun
      rw [hrun] at hrecorded
      cases hrecorded with
      | ended halt reason =>
        refine ⟨?_, by simp [isHalted, halt], by simp [haltReason, halt], by simp [fault, halt]⟩
        cases hreason : ending.reason with
        | fault => exact absurd hreason reason
        | _ => simp
    · intro e m' hrun
      rw [hrun] at hrecorded
      cases hrecorded with
      | @failed f _ halt =>
        exact .inl
          ⟨f, rfl, by simp [isHalted, halt], by simp [haltReason, halt], by simp [fault, halt]⟩
      | @refused l _ limited long running =>
        exact .inr ⟨rfl, by simp [isHalted, running], l, limited, long⟩
  · intro reason hreason m' hreach
    have hm : m.halt ≠ none := by
      intro hnone
      simp [haltReason, hnone] at hreason
    have hfrozen : m.Frozen m' := frozen_of_reaches hm hreach
    have hhalt : m'.halt = m.halt := by rw [hfrozen]
    have hm' : m'.halt ≠ none := by rwa [hhalt]
    have hreason' : m'.haltReason = some reason := by rwa [haltReason, hhalt]
    refine ⟨hfrozen, Registry.step_of_halted _ hm', ?_, ?_⟩
    · intro limit fuel
      exact run_of_halted hreason'
    · intro c
      obtain ⟨memory, size, asked, flushes, hmemory, hc⟩ := perform_of_halted hm' c
      rw [hc]
      exact hmemory

/-- A word that starts no instruction halts the machine, and a second run says that it has. -/
theorem lifecycle_invalid :
    let f : Fault := ⟨.invalidOpcode (.number 22), .number 0⟩
    ∃ m m', ({} : Machine).Fresh ∧ Reaches {} m ∧ m.isHalted = false ∧
      Registry.standard.run none 1 m = .failed (.fault f) m' ∧ m'.fault = some f ∧
      Reaches {} m' ∧ Registry.standard.step m' = .failed .halted m' ∧
      Registry.standard.run none 1 m' = .done (some ⟨.fault, none⟩) m'.flush := by
  intro f
  let words : List Word := [22]
  let m : Machine := (Call.load (fun _ => .ok []) (.bytes (Image.ofWords words))).perform {}
  let m' : Machine := (m.advanced.haltWith .fault (some f)).flush
  have hfresh : ({} : Machine).Fresh := rfl
  have hreach : Reaches {} m := Reaches.perform .refl _
  have hb : m.Bounded 16 := bounded_of_reaches hfresh hreach
  have hcells : m.memory = overlay (Array.replicate memorySize 0) words := rfl
  have hd := hb.decode_of_fits (p := 0) rfl (by decide)
    (readMemory_of_overlay hcells (k := 0) rfl (by decide)) (by decide)
  have hstep : Registry.standard.step m =
      .failed (.fault f) (m.advanced.haltWith .fault (some f)) := by
    rw [Registry.step_of_decode rfl hd]
    change (Primitive.invalid _ m.advanced).settled m.pc = _
    rw [Primitive.invalid, Error.naming_toInt]
    rfl
  have hready : Registry.Ready none m := by
    constructor
    · rfl
    · rfl
    · intro l hl
      cases hl
  have hrun : Registry.standard.run none 1 m = .failed (.fault f) m' :=
    (Registry.RunsTo.failed hready hstep).run_eq
  have hreach' : Reaches {} m' := by
    have hcall : (Call.run none 1).perform m = m' := by
      change (Registry.standard.run none 1 m).machine = m'
      rw [hrun]
      rfl
    rw [← hcall]
    exact hreach.perform _
  obtain ⟨-, -, hends, -⟩ := lifecycle hfresh rfl hreach
  obtain ⟨-, -, -, hlast⟩ := lifecycle hfresh rfl hreach'
  obtain ⟨f', hf', -, -, hfault⟩ | ⟨hf', -⟩ := (hends rfl none 1).2 _ _ hrun
  case inr => cases hf'
  cases hf'
  obtain ⟨-, hrefused, hagain, -⟩ := hlast .fault rfl m' .refl
  exact ⟨m, m', hfresh, hreach, rfl, hrun, hfault, hreach', hrefused, hagain none 1⟩

/-- It is not so that a run always fails with a fault: a limit may have too many digits to be named in
one. Nor is it so that nothing is seen of a machine that has halted: a run still flushes its output. -/
theorem lifecycle_exceptions :
    (¬ ∀ (m₀ m : Machine), m₀.Fresh → m₀.console.inputEnd = .exhausted → Reaches m₀ m →
      m.isHalted = false → ∀ limit fuel e m',
        Registry.standard.run limit fuel m = .failed e m' → ∃ f, e = .fault f) ∧
    ¬ ∀ (m₀ m m' : Machine), m₀.Fresh → m₀.console.inputEnd = .exhausted → Reaches m₀ m →
      m.isHalted = true → Reaches m m' → m'.console = m.console := by
  have hfresh : ({} : Machine).Fresh := rfl
  constructor
  · intro h
    have hlow : -Text.overlong ≤ ({} : Machine).cycles := Text.neg_overlong_nonpos
    have hrun : Registry.standard.run (some (-Text.overlong)) 0 {} =
        .failed .tooManyDigits ({} : Machine).flush := by
      rw [← exceed_of_not_isWritable Text.isWritable_neg_overlong]
      exact (Registry.RunsTo.exceeded rfl rfl rfl hlow).run_eq
    obtain ⟨f, hf⟩ := h {} {} hfresh rfl .refl rfl _ 0 _ _ hrun
    cases hf
  · intro h
    -- A machine that was asked to stop is halted by its first run.
    let m : Machine := (({} : Machine).requestStop.haltWith .stopped none).flush
    have hreach : Reaches {} m := by
      have hrun : Registry.standard.run none 0 ({} : Machine).requestStop =
          .done (some ⟨.stopped, none⟩) m := (Registry.RunsTo.asked rfl rfl).run_eq
      have hcall : (Call.run none 0).perform (Call.stop.perform {}) = m := by
        change (Registry.standard.run none 0 ({} : Machine).requestStop).machine = m
        rw [hrun]
        rfl
      rw [← hcall]
      exact (Reaches.perform .refl .stop).perform _
    have hstopped : m.haltReason = some .stopped := rfl
    have hflushed : (Call.run none 0).perform m = m.flush := by
      rw [Call.perform, run_of_halted hstopped]
      rfl
    have hconsole := h {} m m.flush hfresh rfl hreach rfl (hflushed ▸ Reaches.perform .refl _)
    cases congrArg (fun c => c.flushes.size) hconsole

end Machine

end WordMachine
