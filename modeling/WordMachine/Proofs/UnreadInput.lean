import WordMachine.Proofs.Surroundings
import WordMachine.Proofs.Turns

/-! # Unread input has no influence

What a program does depends on the bytes that it has read, and not on those behind them.

* `Consumes f m p o`: doing `f` to `m` reads the bytes `p`, and comes to `o` whatever is behind them.
* `consumes_step` and `RunsTo.consumes`: steps and runs are like that, unless they end for want of
  input.
* `RunsTo.starves`: a run that ends for want of input has come to an instruction that waits for it.
* `unread_input_irrelevant` compares runs on different inputs.
-/

namespace WordMachine

variable {α : Type} {m m' : Machine} {e e' : Error} {a : Int} {b : UInt8} {p : Bytes}

/-! ## The end of input -/

/-- What a device answers that has no byte left. -/
def Error.EndsInput : Error → Prop
  | .interrupted => True
  | .fault f => f.cause = .inputExhausted
  | _ => False

theorem InputEnd.endsInput (device : InputEnd) : device.error.EndsInput := by
  cases device with
  | exhausted => exact rfl
  | interrupt => exact trivial

/-- An error stays what it is when it is given an address. -/
theorem Machine.endsInput_fail {address : Datum}
    (h : (m.fail address e : Outcome α) = .failed e' m') : e'.EndsInput ↔ e.EndsInput := by
  rcases Machine.fail_eq (α := α) m address e with ⟨f, rfl⟩ | heq
  · rw [Machine.fail_fault] at h
    cases h
    simp only [Error.EndsInput, Fault.cause_locate]
  · rw [heq] at h
    cases h
    rfl

/-- The next step waits for a byte, and there is none. -/
def Machine.Starves (m : Machine) (a : Int) : Prop :=
  m.request = .read a ∧ m.console.unread = []

/-- An error that names an integer is about that integer, and not about the input. -/
theorem Error.not_endsInput_naming {cause : Datum → Cause} {n : Int}
    (hcause : ∀ d, cause d ≠ .inputExhausted) : ¬ (naming cause n).EndsInput := by
  intro hends
  rcases naming_cases cause n with h | h
  · rw [h] at hends
    exact hcause _ hends
  · rw [h] at hends
    cases hends

/-- Decoding never waits for input. -/
theorem Machine.not_endsInput_of_decode (h : m.decode = .failed e m') : ¬ e.EndsInput := by
  intro hends
  rcases error_of_decode h with rfl | rfl | rfl | ⟨d, rfl⟩
  · cases hends
  · cases hends
  · cases hends
  · cases hends

/-- Of the rules for failing only one has to do with the end of input. -/
theorem Aborts.exhausted_of_endsInput {i : Instruction} (h : Aborts i m e m')
    (hends : e.EndsInput) : i.opcode = .input ∧ m.console.unread = [] := by
  have hoperand (a : Int) : ¬ (Error.naming .invalidOperand a).EndsInput :=
    Error.not_endsInput_naming fun d hcause => by cases hcause
  cases h with
  | exhausted op empty reason => exact ⟨op, empty⟩
  | invalid op reason =>
    subst reason
    exact absurd hends (Error.not_endsInput_naming fun d hcause => by cases hcause)
  | operand mem reason =>
    subst reason
    exact absurd hends (hoperand _)
  | @popped a top rest e op operands stack entry reason =>
    rcases reason with rfl | ⟨rfl, -⟩ | hword
    · exact absurd hends (hoperand a)
    · cases hends
    · rcases word_eq_error hword with rfl | rfl
      · cases hends
      · cases hends
  | consumed op operands read reason =>
    rcases reason with rfl | ⟨rfl, -⟩
    · exact absurd hends (hoperand _)
    · cases hends
  | _ => cases hends

namespace Registry

/-- A step that waits in vain fails, and the error says that the input has ended. -/
theorem step_of_starves (h : m.Starves a) :
    ∃ e m', standard.step m = .failed e m' ∧ e.EndsInput := by
  have hstep := step_of_read_nil h.1 h.2
  cases hfail : (m.advanced.flush.fail m.pc m.console.inputEnd.error : Outcome Step) with
  | done s m' => exact absurd hfail (Machine.fail_ne_done _ _ _ _)
  | failed e m' =>
    refine ⟨e, m', hstep.trans hfail, ?_⟩
    exact (Machine.endsInput_fail hfail).2 m.console.inputEnd.endsInput

/-- No other step fails with such an error. -/
theorem starves_of_step (h : standard.step m = .failed e m') (hends : e.EndsInput) :
    ∃ a, m.Starves a := by
  rcases step_eq_failed h with ⟨-, rfl, -⟩ | ⟨hm, e₀, m₀, hfail, hcause⟩
  · cases hends
  have hends₀ : e₀.EndsInput := (Machine.endsInput_fail hfail).1 hends
  rcases hcause with hd | ⟨i, m₁, hd, habort⟩
  · exact absurd hends₀ (Machine.not_endsInput_of_decode hd)
  · obtain ⟨op, hempty⟩ := habort.exhausted_of_endsInput hends₀
    have hnext : m.Next i := ⟨hm, m₁, hd⟩
    obtain ⟨a, operands⟩ := Machine.operands_of_next hnext (by rw [op]; rfl)
    refine ⟨a, request_eq_read_iff.2 ⟨i, hnext, op, operands⟩, ?_⟩
    obtain ⟨pc, rfl⟩ := Machine.frame_of_decode_done hd
    exact hempty

end Registry

/-! ## Other input -/

/-- The machine with other input. -/
def Machine.withInput (m : Machine) (unread : Bytes) : Machine :=
  { m with console := { m.console with unread := unread } }

@[simp] theorem Machine.withInput_withInput (m : Machine) (s t : Bytes) :
    (m.withInput s).withInput t = m.withInput t := rfl

theorem outward_withInput (s : Bytes) : Outward (·.withInput s) := fun _ _ => rfl

theorem Machine.emit_withInput (m : Machine) (b : UInt8) (s : Bytes) :
    (m.withInput s).emit b = (m.emit b).withInput s := by
  have hwrite : (m.withInput s).console.write b =
      { m.console.write b with unread := s } := by
    unfold Console.write
    split <;> rfl
  simp only [emit, hwrite]
  rfl

theorem Machine.exceed_withInput (m : Machine) (l : Int) (s : Bytes) :
    ((m.withInput s).exceed l : Outcome α) = (m.exceed l).onMachine (·.withInput s) := by
  cases h : Text.isWritable l with
  | true =>
    rw [exceed_of_isWritable h, exceed_of_isWritable h]
    rfl
  | false =>
    rw [exceed_of_not_isWritable h, exceed_of_not_isWritable h]
    rfl

/-- Doing `f` to `m` comes to `o` by reading the bytes `p`, and does so whatever is behind them. -/
structure Consumes (f : Machine → Outcome α) (m : Machine) (p : Bytes) (o : Outcome α) : Prop where
  unread : m.console.unread = p ++ o.machine.console.unread
  count : o.machine.console.bytesRead = m.console.bytesRead + p.length
  ignores : ∀ t, f (m.withInput (p ++ t)) = o.onMachine (·.withInput t)

namespace Registry

variable {limit : Option Int} {fuel : Nat}

/-! ## Steps -/

/-- A step that is not left waiting reads one byte or none, and ignores the others. -/
theorem consumes_step {o : Outcome Step} (h : standard.step m = o)
    (hends : ∀ e m', o = .failed e m' → ¬ e.EndsInput) : ∃ p, Consumes standard.step m p o := by
  subst h
  have hconsole := console_of_step m
  cases hrequest : m.request with
  | nothing =>
    refine ⟨[], ?_, ?_, ?_⟩
    · rw [hconsole, hrequest]
      rfl
    · rw [hconsole, hrequest]
      rfl
    · intro t
      exact step_outward (outward_withInput t) hrequest
  | write b =>
    refine ⟨[], ?_, ?_, ?_⟩
    · rw [hconsole, hrequest]
      exact (Console.unread_write m.console b).symm
    · rw [hconsole, hrequest]
      exact Console.bytesRead_write m.console b
    · intro t
      have hrequest' : (m.withInput t).request = .write b := by
        rw [(outward_withInput t).request, hrequest]
      change standard.step (m.withInput t) = _
      rw [step_of_write hrequest, step_of_write hrequest', (outward_withInput t).advanced,
        Machine.emit_withInput]
      rfl
  | read a =>
    cases hunread : m.console.unread with
    | nil =>
      obtain ⟨e, m', hstep, hends'⟩ := step_of_starves ⟨hrequest, hunread⟩
      exact absurd hends' (hends e m' hstep)
    | cons b rest =>
      refine ⟨[b], ?_, ?_, ?_⟩
      · rw [hconsole, hrequest, Console.serve_of_cons hunread, hunread]
        rfl
      · rw [hconsole, hrequest, Console.serve_of_cons hunread]
        rfl
      · intro t
        have hrequest' : (m.withInput (b :: t)).request = .read a := by
          rw [(outward_withInput (b :: t)).request, hrequest]
        have hafter : (m.withInput (b :: t)).advanced.afterRead t =
            (m.advanced.afterRead rest).withInput t := by
          rw [(outward_withInput (b :: t)).advanced]
          rfl
        change standard.step (m.withInput (b :: t)) = _
        rw [step_of_read_cons hrequest hunread, step_of_read_cons hrequest' rfl, hafter,
          (outward_withInput t).assign, (outward_withInput t).settled]
        rfl

/-! ## Runs -/

theorem Ready.withInput (h : Ready limit m) (s : Bytes) : Ready limit (m.withInput s) :=
  ⟨h.running, h.unasked, h.room⟩

/-- A run that does not end for want of input ignores what it has not read. -/
theorem RunsTo.consumes {o : Outcome (Option Ending)} (h : standard.RunsTo limit fuel m o)
    (hends : ∀ e m', o = .failed e m' → ¬ e.EndsInput) :
    ∃ p, Consumes (standard.run limit fuel) m p o := by
  induction h with
  -- A run that takes no step ends in the same way whatever its input.
  | @halted fuel m h halt =>
    refine ⟨[], rfl, rfl, ?_⟩
    intro t
    exact (RunsTo.halted (m := m.withInput t) halt).run_eq
  | @asked fuel m running asked =>
    refine ⟨[], rfl, rfl, ?_⟩
    intro t
    exact (RunsTo.asked (m := m.withInput t) running asked).run_eq
  | @exceeded fuel m l running unasked limited reached =>
    obtain ⟨halt, hmachine⟩ := m.flush.machine_exceed (α := Option Ending) l
    refine ⟨[], ?_, ?_, ?_⟩
    · rw [hmachine]
      rfl
    · rw [hmachine]
      rfl
    · intro t
      rw [← Machine.exceed_withInput]
      exact (RunsTo.exceeded (m := m.withInput t) running unasked limited reached).run_eq
  | spent ready =>
    refine ⟨[], rfl, rfl, ?_⟩
    intro t
    exact run_of_spent standard (ready.withInput t)
  | @failed fuel m m' e ready step =>
    obtain ⟨p, hunread, hcount, hignores⟩ := consumes_step step fun e' m₁ h => by
      cases h
      exact hends e m'.flush rfl
    refine ⟨p, hunread, hcount, ?_⟩
    intro t
    exact (RunsTo.failed (ready.withInput _) (hignores t)).run_eq
  | @stopped fuel m m' a reason ready step halt =>
    obtain ⟨p, hunread, hcount, hignores⟩ := consumes_step step fun e m₁ h => by cases h
    refine ⟨p, hunread, hcount, ?_⟩
    intro t
    exact (RunsTo.stopped (ready.withInput _) (hignores t) halt).run_eq
  | @next fuel m m' o ready step rest ih =>
    obtain ⟨p, hunread, hcount, hignores⟩ := consumes_step step fun e m₁ h => by cases h
    obtain ⟨q, hunread', hcount', hignores'⟩ := ih hends
    -- The step reads the first part, and the rest of the run the second.
    refine ⟨p ++ q, ?_, ?_, ?_⟩
    · rw [hunread, Outcome.machine, hunread', List.append_assoc]
    · rw [hcount', List.length_append, ← Nat.add_assoc]
      exact congrArg (· + q.length) hcount
    · intro t
      rw [List.append_assoc]
      exact (run_of_running (ready.withInput _) (hignores (q ++ t))).trans (hignores' t)

/-- Two inputs with the same beginning are the same to a run that reads no more than that. -/
theorem run_of_take_eq {o : Outcome (Option Ending)} {k : Nat} {s s' : Bytes}
    (h : Consumes (standard.run limit fuel) (m.withInput s) p o) (hk : p.length ≤ k)
    (heq : s.take k = s'.take k) :
    standard.run limit fuel (m.withInput s') = o.onMachine (·.withInput (s'.drop p.length)) := by
  have hs : p = s.take p.length := by
    have hunread : s = p ++ _ := h.unread
    rw [hunread, List.take_left' rfl]
  have hbeginning : s.take p.length = s'.take p.length := by
    have htake := congrArg (List.take p.length) heq
    rwa [List.take_take, List.take_take, Nat.min_eq_left hk] at htake
  have hs' : p ++ s'.drop p.length = s' := by
    have hsplit := List.take_append_drop p.length s'
    rwa [← hs.trans hbeginning] at hsplit
  have hignores := h.ignores (s'.drop p.length)
  rwa [Machine.withInput_withInput, hs'] at hignores

/-- A run that ends for want of input has come to an instruction that waits for it. -/
theorem RunsTo.starves {o : Outcome (Option Ending)} (h : standard.RunsTo limit fuel m o)
    (ho : o = .failed e m') (hends : e.EndsInput) :
    ∃ j a, j < fuel ∧ standard.RunEnds limit (j + 1) m (.failed e m') ∧
      (standard.after j m).Starves a := by
  induction h with
  | @failed fuel m m₁ e₁ ready step =>
    cases ho
    obtain ⟨a, hstarves⟩ := starves_of_step step hends
    exact ⟨0, a, Nat.succ_pos fuel, .failed ready step, hstarves⟩
  | @next fuel m m₁ o ready step rest ih =>
    obtain ⟨j, a, hj, hrun, hstarves⟩ := ih ho
    refine ⟨j + 1, a, Nat.succ_lt_succ hj, hrun.next ready step, ?_⟩
    rwa [after_succ, step]
  | exceeded running unasked limited reached =>
    refine absurd ((Machine.endsInput_fail ho).1 hends) (Error.not_endsInput_naming ?_)
    intro d hcause
    cases hcause
  | _ => cases ho

/-- The next step reads `b`, leaves `u` unread, and puts `b` where the operand `a` says, if that is a
register. -/
structure Reads (m : Machine) (a : Int) (b : UInt8) (u : Bytes) : Prop where
  console : (standard.step m).machine.console =
    { m.console.flush with unread := u, bytesRead := m.console.bytesRead + 1 }
  stored : ∀ r, m.Selects a r → ∃ m', standard.step m = .done .running m' ∧
    m'.registers = m.registers.setIfInBounds r b.toUInt16
  /-- It may still fail because there is no such register, but not for want of input. -/
  fed : ∀ e m', standard.step m = .failed e m' → ¬ e.EndsInput

/-- A step that waits for a byte gets it if there is one. -/
theorem reads_of_cons {u : Bytes} (h : m.request = .read a) (hunread : m.console.unread = b :: u) :
    Reads m a b u := by
  constructor
  · rw [console_of_step, h, Console.serve_of_cons hunread]
  · intro r hr
    let m₁ := m.advanced.afterRead u
    have hregisters : m₁.registers = m.registers := m.registers_advanced
    have hselects : m₁.Selects a r := ⟨hr.1, hregisters ▸ hr.2⟩
    let m₂ : Machine := { m₁ with registers := m₁.registers.setIfInBounds r b.toUInt16 }
    have hassign : m₁.assign a b.toUInt16 = .done true m₂ :=
      Machine.assign_eq_done_iff.2 ⟨rfl, r, hselects, rfl⟩
    refine ⟨m₂, ?_, ?_⟩
    · rw [step_of_read_cons h hunread, hassign]
      rfl
    · exact congrArg (·.setIfInBounds r b.toUInt16) hregisters
  · intro e m' hfail hends
    obtain ⟨a', hstarves⟩ := starves_of_step hfail hends
    cases hunread.symm.trans hstarves.2

/-! ## Different input -/

/-- A run that has not ended for want of input comes to the same on any other input that begins with
the same bytes, as far as the run has read them.

A run that did end so is at an instruction that waits for a byte. With more input it gets there in
the same way, and that instruction reads the first byte of what was added. -/
theorem unread_input_irrelevant (m : Machine) (limit : Option Int) :
    (∀ (s s' : Bytes) (k fuel : Nat), s.take k = s'.take k →
      let o := standard.run limit fuel (m.withInput s)
      let n := o.machine.console.bytesRead - m.console.bytesRead
      n ≤ k → (∀ e m', o = .failed e m' → ¬ e.EndsInput) →
      standard.run limit fuel (m.withInput s') = o.onMachine (·.withInput (s'.drop n))) ∧
    ∀ (s : Bytes) (fuel : Nat) (e : Error) (m' : Machine),
      standard.run limit fuel (m.withInput s) = .failed e m' → e.EndsInput →
      ∃ j a, j < fuel ∧
        let before := fun i => standard.after i (m.withInput s)
        standard.RunEnds limit (j + 1) (m.withInput s) (.failed e m') ∧
        (before j).Starves a ∧
        ∀ (b : UInt8) (u : Bytes),
          (∀ i, i ≤ j → standard.run limit i (m.withInput (s ++ b :: u)) =
            .done none ((before i).withInput ((before i).console.unread ++ b :: u))) ∧
          Reads ((before j).withInput (b :: u)) a b u := by
  have hruns := lawful_standard.runsTo_run limit
  constructor
  · intro s s' k fuel heq o n hn hends
    obtain ⟨p, hp⟩ := (hruns fuel (m.withInput s)).consumes hends
    have hlength : p.length = n := by
      have hcount : o.machine.console.bytesRead = m.console.bytesRead + p.length := hp.count
      omega
    rw [← hlength]
    exact run_of_take_eq hp (hlength ▸ hn) heq
  · intro s fuel e m' hrun hends
    obtain ⟨j, a, hj, hend, hstarves⟩ := (hruns fuel (m.withInput s)).starves hrun hends
    refine ⟨j, a, hj, hend, hstarves, ?_⟩
    intro b u
    constructor
    · intro i hi
      have hshort := hend.1 i (Nat.lt_succ_of_le hi)
      have hrunsTo := hruns i (m.withInput s)
      rw [hshort] at hrunsTo
      obtain ⟨p, hp⟩ := hrunsTo.consumes fun e m' h => by cases h
      have hs : s = p ++ (standard.after i (m.withInput s)).console.unread := hp.unread
      conv_lhs => rw [hs, List.append_assoc]
      exact hp.ignores _
    · apply reads_of_cons _ rfl
      rw [(outward_withInput (b :: u)).request, hstarves.1]

/-- A program that reads one byte takes no notice of a second one, and waits if there is none. -/
theorem unread_input_irrelevant_read :
    let m : Machine := { memory := #[20, 32768, 0] }
    let m' : Machine :=
      { memory := #[20, 32768, 0]
        registers := #[65, 0, 0, 0, 0, 0, 0, 0]
        pc := .number 3
        halt := some ⟨.halt, none⟩
        cycles := 2
        console := { unread := [1], flushes := #[0, 0], bytesRead := 1 } }
    let f : Fault := ⟨.inputExhausted, .number 0⟩
    standard.run none 2 (m.withInput [65, 1]) = .done (some ⟨.halt, some (.number 2)⟩) m' ∧
    standard.run none 2 (m.withInput [65, 2, 3]) =
      .done (some ⟨.halt, some (.number 2)⟩) (m'.withInput [2, 3]) ∧
    (∃ m₁, standard.run none 1 (m.withInput []) = .failed (.fault f) m₁) ∧
    Reads (m.withInput [65, 2]) 32768 65 [2] := by
  intro m m' f
  let m₁ : Machine :=
    { memory := #[20, 32768, 0]
      pc := .number 2
      halt := some ⟨.fault, some f⟩
      cycles := 1
      console := { flushes := #[0, 0] } }
  have hhalts : standard.run none 2 (m.withInput [65, 1]) =
      .done (some ⟨.halt, some (.number 2)⟩) m' := by decide +kernel
  have hwaits : standard.run none 1 (m.withInput []) = .failed (.fault f) m₁ := by rfl
  have hrequest : (m.withInput []).request = .read 32768 := by decide
  obtain ⟨hsame, hmore⟩ := unread_input_irrelevant m none
  refine ⟨hhalts, ?_, ⟨m₁, hwaits⟩, ?_⟩
  · have hrun := hsame [65, 1] [65, 2, 3] 1 2 rfl
    simp only [hhalts] at hrun
    apply hrun
    · decide
    · intro e m₁ h
      cases h
  · obtain ⟨j, a, hj, -, hstarves, hfed⟩ := hmore [] 1 _ m₁ hwaits rfl
    obtain rfl : j = 0 := Nat.lt_one_iff.1 hj
    cases hrequest.symm.trans hstarves.1
    exact (hfed 65 [2]).2

end Registry

end WordMachine
