import WordMachine.Proofs.Listings
import WordMachine.Proofs.Turns

/-! # Sweeping through memory

Under a registry whose primitives do nothing, a run does what decoding alone does: it goes through one
instruction after the other, counts them, and ends with memory.

* `Registry.Idle`: such a registry; `passThrough` is one.
* `Idle.step_of_decode`: a step moves the counter behind an instruction and counts a cycle.
* `Idle.runEnds_of_decodes`: a run goes through a row of instructions, and ends as it does behind them.
* `run_of_idle` is the account of such runs from any counter, and `run_of_idle_exceptions` says what it
  leaves out.
-/

namespace WordMachine.Registry

variable {r : Registry} {m m' m₁ : Machine} {i : Instruction} {is : List Instruction} {n : Nat}

/-- Every opcode has a primitive, which does nothing and lets the machine run on. -/
def Idle (r : Registry) : Prop :=
  ∀ op, ∃ primitive, r.find? op = some primitive ∧ ∀ i m, primitive i m = .done true m

theorem idle_passThrough : passThrough.Idle := by
  intro op
  refine ⟨Primitive.noop, ?_, fun i m => rfl⟩
  cases op <;> rfl

/-! ## One step -/

/-- Where an instruction is decoded, the counter is moved behind it and a cycle is counted. -/
theorem Idle.step_of_decode (hr : r.Idle) (hm : m.halt = none) (hd : m.decode = .done i m₁) :
    r.step m = .done .running m₁.counted := by
  obtain ⟨primitive, hfind, hidle⟩ := hr i.opcode
  exact step_eq_done_iff.2
    ⟨hm, i, m₁, true, hd, by rw [execute_of_find? hfind, hidle], rfl⟩

/-! ## Many steps -/

/-- A machine that runs and was not asked to stop is ready for a step if there is no limit. -/
theorem ready_of_unlimited (hm : m.halt = none) (hs : m.stopRequested = false) : Ready none m :=
  ⟨hm, hs, fun _ hl => by cases hl⟩

/-- A run goes through instructions as decoding does, counts them, and ends as it does from there. -/
theorem Idle.runEnds_of_decodes (hr : r.Idle) {o : Outcome Ending} (hready : Ready none m)
    (h : m.Decodes is m') (hend : r.RunEnds none n { m' with cycles := m.cycles + is.length } o) :
    r.RunEnds none (n + is.length) m o := by
  -- Each step changes the cycles of the machine that decoding goes on with, but not what is decoded.
  induction is generalizing m m' with
  | nil =>
    cases h
    rwa [List.length_nil, Int.natCast_zero, Int.add_zero] at hend
  | cons i is ih =>
    cases h with
    | @cons _ m₁ _ _ _ head rest =>
      have hstep := hr.step_of_decode hready.running head
      obtain ⟨pc₁, rfl⟩ := Machine.frame_of_decode_done head
      obtain ⟨pc', rfl⟩ := rest.frame
      have hcycles : m.cycles + ((i :: is).length : Int) = m.cycles + 1 + is.length := by
        rw [List.length_cons]
        omega
      rw [hcycles] at hend
      have hready₁ : Ready none ({ m with pc := pc₁ } : Machine).counted :=
        ready_of_unlimited hready.running hready.unasked
      exact .next hready hstep (ih hready₁ (rest.of_memory rfl rfl) hend)

/-! ## From any counter -/

/-- A run without a limit, of a machine that runs and was not asked to stop, under a registry whose
primitives do nothing.

From any cell on, or from behind the last one, it goes through the instructions that a listing shows,
and ends where the listing does, with the counter at the end of memory. It has counted each of these
instructions once, and the fault has the address of the one that is cut off if there is one, else the
end of memory. From any other counter it ends at once. Nothing else has changed, but the output is
flushed. If that counter has too many digits to be named in a fault, the machine has not even halted. -/
theorem run_of_idle (r : Registry) (m : Machine) (limit : Option Int) (p : Int) (hr : r.Idle)
    (hsized : m.Sized) (hm : m.halt = none) (hs : m.stopRequested = false)
    (hlimit : m.effectiveLimit limit = none) (hp : m.pc = .number p) :
    (0 ≤ p → p ≤ 32768 → ∃ (is : List Instruction) (q : Int),
      (is.length : Int) ≤ 32768 - p ∧ Instruction.Laid p is q ∧ (q = 32768 ∨ m.CutAt q) ∧
      (∀ n, is.length < n → m.listing n =
        (⟨is, some (.ofCause (.addressOutOfRange (.number 32768)))⟩,
          { m with pc := .number 32768 })) ∧
      let f : Fault := ⟨.addressOutOfRange (.number 32768), .number q⟩
      r.RunEnds (m.effectiveLimit limit) (is.length + 1) m (.failed (.fault f)
        { m with
          pc := .number 32768
          cycles := m.cycles + is.length
          halt := some ⟨.fault, some f⟩
          console := m.console.flush })) ∧
    (p < 0 ∨ 32768 < p →
      let f : Fault := ⟨.addressOutOfRange (.number p), .number p⟩
      r.RunEnds (m.effectiveLimit limit) 1 m
        (if Text.isWritable p then .failed (.fault f)
          { m with halt := some ⟨.fault, some f⟩, console := m.console.flush }
        else .failed .tooManyDigits { m with console := m.console.flush })) := by
  have hready : Ready none m := ready_of_unlimited hm hs
  rw [hlimit]
  constructor
  · intro h₀ h₁
    obtain ⟨is, q, hdecodes, hcount, hq, hend⟩ := hsized.exists_decodes hp h₀ h₁
    obtain ⟨-, hlaid, -, -⟩ := hdecodes.holds hp rfl
    have hstart : (is.length : Int) ≤ 32768 - p := Int.le_sub_left_of_add_le (Int.le_trans hcount hq)
    have hfailed := Machine.Sized.decode_of_end (m := { m with pc := .number q })
      ⟨hsized.memory, hsized.registers⟩ rfl (by omega) hend
    -- The machine that the run attempts its last step from has counted the instructions.
    let last : Machine := { m with pc := .number q, cycles := m.cycles + is.length }
    have hlast := Machine.Sized.decode_of_end (m := last) ⟨hsized.memory, hsized.registers⟩ rfl
      (by omega) hend
    have hstep := step_of_undecoded (m := last) r hm hlast
    have hends := hr.runEnds_of_decodes hready hdecodes
      (.failed (ready_of_unlimited (m := last) hm hs) hstep)
    rw [Nat.add_comm] at hends
    exact ⟨is, q, hstart, hlaid, hend, fun n hn => hdecodes.listing_of_failed hfailed hn, hends⟩
  · intro hout
    have hd := Machine.decode_of_outOfRange hp (hout.imp_right Int.le_of_lt)
    cases hwritable : Text.isWritable p with
    | true =>
      rw [Error.naming_of_isWritable hwritable] at hd
      have hstep := step_of_undecoded r hm hd
      rw [hp] at hstep
      exact .failed hready hstep
    | false => exact .failed hready (step_of_unnamed r hm hp hwritable)

/-- Memory full of words that begin an output, from the third-last on: the first takes the second for
its operand, and the last one finds none. -/
theorem run_of_idle_cut_off :
    let m : Machine := { memory := Array.replicate memorySize 19, pc := .number 32765 }
    let f : Fault := ⟨.addressOutOfRange (.number 32768), .number 32767⟩
    passThrough.Idle ∧ m.Sized ∧ m.effectiveLimit none = none ∧
      passThrough.RunEnds none 2 m (.failed (.fault f)
        { m with
          pc := .number 32768
          cycles := 1
          halt := some ⟨.fault, some f⟩
          console := m.console.flush }) := by
  intro m f
  have hsized : m.Sized := ⟨Array.size_replicate, Array.size_replicate⟩
  have hcell : ∀ (pc : Datum) (a : Int), 0 ≤ a → a < memorySize →
      ({ m with pc := pc } : Machine).readMemory a = .ok 19 := by
    intro pc a h₀ h₁
    have hk : a.toNat < memorySize := by omega
    exact Machine.readMemory_eq_ok_iff.2 ⟨a.toNat, (Int.toNat_of_nonneg h₀).symm, hk, by
      rw [Array.getElem?_replicate, if_pos hk]⟩
  have hfirst := hsized.decode_one rfl (by decide)
    (hcell (.number 32765) 32765 (by decide) (by decide)) (by decide)
    (hcell (.number 32765) (32765 + 1) (by decide) (by decide))
  have hcut := Machine.Sized.decode_of_cut (m := { m with pc := .number 32767 })
    ⟨hsized.memory, hsized.registers⟩ rfl (by decide)
    (hcell (.number 32767) 32767 (by decide) (by decide)) (by decide)
  have hrow : m.Decodes [⟨.output, [19], .number 32765, 19⟩] { m with pc := .number 32767 } :=
    .cons hfirst .nil
  obtain ⟨is, q, hcount, hlaid, -, hlisting, hrun⟩ :=
    (run_of_idle passThrough m none 32765 idle_passThrough hsized rfl rfl rfl rfl).1
      (by decide) (by decide)
  -- There is one listing only, so the instructions are known.
  have hlong := (hlisting 4 (by omega)).symm.trans (hrow.listing_of_failed hcut (by decide))
  cases hlong
  obtain ⟨-, rfl⟩ := hlaid
  exact ⟨idle_passThrough, hsized, rfl, hrun⟩

/-- It is not so that such a run always ends with a fault: a counter may have too many digits to be
named in one. Nor is it so if memory may have fewer cells than it should: then one of them is missing. -/
theorem run_of_idle_exceptions :
    (¬ ∀ (m : Machine) (p : Int), m.Sized → m.halt = none → m.stopRequested = false →
      m.effectiveLimit none = none → m.pc = .number p → p < 0 ∨ 32768 < p →
        ∃ n f m', passThrough.RunEnds none n m (.failed (.fault f) m')) ∧
    ¬ ∀ m : Machine, m.halt = none → m.stopRequested = false → m.effectiveLimit none = none →
      m.pc = .number 0 → ∃ n f m', passThrough.RunEnds none n m (.failed (.fault f) m') := by
  -- A run that ends with one error does not end with another.
  have hunique : ∀ {m m₁ : Machine} {e : Error}, Ready none m →
      passThrough.step m = .failed e m₁ → (∀ f, e ≠ .fault f) →
        ¬ ∃ n f m', passThrough.RunEnds none n m (.failed (.fault f) m') := by
    rintro m m₁ e hready hstep he ⟨n, f, m', -, hends⟩
    have hfailed := (RunEnds.failed hready hstep).2 (n + 1) (Nat.le_add_left 1 n)
    rw [hends (n + 1) (Nat.le_succ n)] at hfailed
    exact he f (Outcome.failed.inj hfailed).1.symm
  constructor
  · intro h
    have hlong := Text.isWritable_overlong
    have hrange := Text.natAbs_of_not_isWritable hlong
    let m : Machine := { pc := .number Text.overlong }
    have hsized : m.Sized := ⟨Array.size_replicate, Array.size_replicate⟩
    exact hunique (ready_of_unlimited rfl rfl) (step_of_unnamed _ rfl rfl hlong) (fun f hf => by cases hf)
      (h m _ hsized rfl rfl rfl rfl (by omega))
  · intro h
    let m : Machine := { memory := #[] }
    have hstep : passThrough.step m = .failed .missingCell m := rfl
    exact hunique (ready_of_unlimited rfl rfl) hstep (fun f hf => by cases hf) (h m rfl rfl rfl rfl)

end WordMachine.Registry
