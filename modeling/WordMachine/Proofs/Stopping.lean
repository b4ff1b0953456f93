import WordMachine.Proofs.Reachability
import WordMachine.Proofs.Surroundings

/-! # Stopping a run

A machine may be watched for what it writes: once the output has reached some length, every byte that
is written asks the machine to stop. That is honoured before the next instruction.

* `Machine.watch` sets the length, and `Fills` is a step whose byte asks the machine to stop.
* `step_watch_of_not_fills` and `step_watch_of_fills`: watching a machine makes no difference to a
  step, except that it asks the machine to stop when it fills the output.
* `RunsTo.watch` and `runEnds_watch`: so a run that is watched is the one that is not, cut off behind
  the first such step if there is one.
* `stop_between_instructions` is the account of both, and of requests that come from elsewhere.
-/

namespace WordMachine

variable {m m' : Machine} {limit : Option Int} {n : Int} {b : UInt8} {k fuel : Nat}

/-! ## Watching -/

/-- The machine, with every byte from a length of output on asking it to stop. -/
def Machine.watch (m : Machine) (length : Option Int) : Machine := { m with stopAt := length }

theorem outward_watch (length : Option Int) : Outward (·.watch length) := fun _ _ => rfl

/-- Output that is long enough asks the machine to stop. -/
theorem Machine.emit_watch_of_le (hn : n ≤ m.console.output.size + 1) :
    (m.watch (some n)).emit b = { m.emit b with stopAt := some n, stopRequested := true } := by
  have hsize : n ≤ ((m.console.write b).output.size : Int) := by
    rw [Console.output_write, Array.size_push]
    omega
  simp only [emit, watch, Option.any_some, hsize, decide_true, Bool.or_true]

/-- Other output makes no difference. -/
theorem Machine.emit_watch_of_lt (hu : m.stopAt = none) (hn : ¬ n ≤ m.console.output.size + 1) :
    (m.watch (some n)).emit b = (m.emit b).watch (some n) := by
  have hsize : ¬ n ≤ ((m.console.write b).output.size : Int) := by
    rw [Console.output_write, Array.size_push]
    omega
  simp only [emit, watch, hu, Option.any_some, Option.any_none, hsize, decide_false]

namespace Registry

/-- The next step is an output that succeeds, and leaves at least `n` bytes of output. -/
def Fills (n : Int) (m : Machine) : Prop :=
  ∃ i m', Takes m i m' ∧ i.opcode = .output ∧ n ≤ m'.console.output.size

/-- Such a step writes a byte, so there is one byte less before it. -/
theorem fills_iff : Fills n m ↔ ∃ b, m.request = .write b ∧ n ≤ m.console.output.size + 1 := by
  have hsize : ∀ b, ((m.advanced.emit b).console.output.size : Int) =
      m.console.output.size + 1 := by
    intro b
    change (((m.advanced.console.write b).output.size : Nat) : Int) = _
    rw [Console.output_write, Array.size_push, Machine.console_advanced, Int.natCast_succ]
  constructor
  · intro h
    obtain ⟨i, m', htakes, op, hn⟩ := h
    obtain ⟨hm, m₁, hd, hx⟩ := takes_iff.1 htakes
    obtain ⟨a, x, operands, hsource, -⟩ := hx.of_output op
    have hsource' : m.resolve a = .ok x := by
      rwa [Machine.resolve_counted, Machine.resolve_of_decode hd] at hsource
    have hrequest : m.request = .write x.lowByte :=
      request_eq_write_iff.2 ⟨i, a, x, ⟨hm, m₁, hd⟩, op, operands, hsource', rfl⟩
    cases htakes.2.symm.trans (step_of_write hrequest)
    rw [hsize] at hn
    exact ⟨x.lowByte, hrequest, hn⟩
  · intro h
    obtain ⟨b, hrequest, hn⟩ := h
    obtain ⟨i, a, x, hnext, op, -, -, -⟩ := request_eq_write_iff.1 hrequest
    refine ⟨i, _, ⟨hnext.2, step_of_write hrequest⟩, op, ?_⟩
    rw [hsize]
    exact hn

/-! ## Steps -/

/-- A step that fills the output moves the counter behind its instruction of two words. -/
theorem step_of_fills (h : Fills n m) :
    ∃ m' address, standard.step m = .done .running m' ∧ Machine.addressOf m.pc = .ok address ∧
      m'.pc = .number (address + 2) := by
  obtain ⟨b, hrequest, -⟩ := fills_iff.1 h
  obtain ⟨i, a, x, ⟨-, m₁, hd⟩, op, -, -, -⟩ := request_eq_write_iff.1 hrequest
  obtain ⟨address, ha, hpc⟩ := Machine.pc_of_decode hd
  have hcount : i.opcode.operandCount = 1 := by
    rw [op]
    rfl
  refine ⟨_, address, step_of_write hrequest, ha, ?_⟩
  change m.decode.machine.pc = _
  rw [hd, show Outcome.machine (.done i m₁) = m₁ from rfl, hpc, hcount, Datum.number.injEq]
  omega

/-- Watching a machine makes no difference to a step that does not fill the output. -/
theorem step_watch_of_not_fills (hu : m.stopAt = none) (h : ¬ Fills n m) :
    standard.step (m.watch (some n)) = (standard.step m).onMachine (·.watch (some n)) := by
  have hwatch := outward_watch (some n)
  cases hrequest : m.request with
  | nothing => exact step_outward hwatch hrequest
  | write b =>
    have hrequest' : (m.watch (some n)).request = .write b := by
      rw [hwatch.request, hrequest]
    have hn : ¬ n ≤ m.advanced.console.output.size + 1 := by
      intro hn
      rw [Machine.console_advanced] at hn
      exact h (fills_iff.2 ⟨b, hrequest, hn⟩)
    rw [step_of_write hrequest, step_of_write hrequest', hwatch.advanced,
      Machine.emit_watch_of_lt (m.stopAt_advanced.trans hu) hn]
    rfl
  | read a =>
    have hrequest' : (m.watch (some n)).request = .read a := by
      rw [hwatch.request, hrequest]
    cases hunread : m.console.unread with
    | nil =>
      change standard.step (m.watch (some n)) = _
      rw [step_of_read_nil hrequest hunread, step_of_read_nil hrequest' hunread, hwatch.advanced]
      exact hwatch.fail m.advanced.flush m.pc m.console.inputEnd.error
    | cons b rest =>
      rw [step_of_read_cons hrequest hunread, step_of_read_cons hrequest' hunread, hwatch.advanced]
      change (((m.advanced.afterRead rest).watch (some n)).assign a b.toUInt16).settled m.pc = _
      rw [hwatch.assign, hwatch.settled]

/-- One that does fill it asks the machine to stop as well, and does nothing else. -/
theorem step_watch_of_fills (h : Fills n m) :
    ∃ m', standard.step m = .done .running m' ∧
      standard.step (m.watch (some n)) =
        .done .running { m' with stopAt := some n, stopRequested := true } := by
  have hwatch := outward_watch (some n)
  obtain ⟨b, hrequest, hn⟩ := fills_iff.1 h
  have hrequest' : (m.watch (some n)).request = .write b := by
    rw [hwatch.request, hrequest]
  rw [← Machine.console_advanced] at hn
  refine ⟨_, step_of_write hrequest, ?_⟩
  rw [step_of_write hrequest', hwatch.advanced, Machine.emit_watch_of_le hn]

/-- The machine runs, and nobody wants it to stop. -/
structure Free (m : Machine) : Prop where
  running : m.halt = none
  unasked : m.stopRequested = false
  unwatched : m.stopAt = none

theorem Free.step (h : Free m) (hstep : standard.step m = .done .running m') : Free m' := by
  obtain ⟨-, hwatch, hasked⟩ := settings_of_step m
  rw [hstep] at hwatch hasked
  exact ⟨(lawful_standard.step_running hstep).2.1, (hasked h.unwatched).trans h.unasked,
    hwatch.trans h.unwatched⟩

/-! ## Runs -/

theorem Ready.watch (h : Ready limit m) (length : Option Int) : Ready limit (m.watch length) :=
  ⟨h.running, h.unasked, h.room⟩

/-- Room for more cycles after a step is room for one more before it. -/
theorem allows_step_iff (hstep : standard.step m = .done .running m') :
    Allows limit m' k ↔ Allows limit m (k + 1) := by
  have hcycles : m'.cycles = m.cycles + 1 := (lawful_standard.step_running hstep).2.2
  constructor
  · intro h l hl
    have hle := h l hl
    omega
  · intro h l hl
    have hle := h l hl
    omega

/-- A run without a step that fills the output is the same if it is watched. -/
theorem RunsTo.watch {o : Outcome (Option Ending)} (h : standard.RunsTo limit fuel m o)
    (hu : m.stopAt = none)
    (hnever : ∀ k, standard.RunsOn k m → Allows limit m (k + 1) →
      ¬ Fills n (standard.after k m)) :
    standard.RunsTo limit fuel (m.watch (some n)) (o.onMachine (·.watch (some n))) := by
  induction h with
  | halted halt => exact .halted halt
  | asked running asked => exact .asked running asked
  | @exceeded fuel m l running unasked limited reached =>
    have hsame : ((m.watch (some n)).flush.exceed l : Outcome (Option Ending)) =
        (m.flush.exceed l).onMachine (·.watch (some n)) :=
      (outward_watch (some n)).fail m.flush m.pc (.naming .cycleLimit l)
    rw [← hsame]
    exact .exceeded running unasked limited reached
  | spent ready => exact .spent (ready.watch _)
  | @failed fuel m m' e ready step =>
    have hstep := step_watch_of_not_fills hu (hnever 0 (runsOn_zero _ m) ready.room)
    rw [step] at hstep
    exact .failed (ready.watch _) hstep
  | @stopped fuel m m' a reason ready step halt =>
    have hstep := step_watch_of_not_fills hu (hnever 0 (runsOn_zero _ m) ready.room)
    rw [step] at hstep
    exact .stopped (ready.watch _) hstep halt
  | @next fuel m m' o ready step rest ih =>
    have hstep := step_watch_of_not_fills hu (hnever 0 (runsOn_zero _ m) ready.room)
    have hu' := (settings_of_step m).2.1.trans hu
    rw [step] at hstep hu'
    refine .next (ready.watch _) hstep (ih hu' ?_)
    intro k hk hroom
    have hlater := hnever (k + 1) (runsOn_succ_iff.2 ⟨m', step, hk⟩)
      ((allows_step_iff step).1 hroom)
    rwa [after_succ, step] at hlater

/-- The machine after a step that filled the output. -/
def filled (n : Int) (m : Machine) : Machine :=
  { (standard.step m).machine with stopAt := some n, stopRequested := true }

/-- A run that is watched ends with the first step that fills the output. -/
theorem runEnds_watch (hm : Free m) (hrun : standard.RunsOn k m)
    (hroom : Allows limit m (k + 1)) (hfills : Fills n (standard.after k m))
    (hfirst : ∀ j, j < k → ¬ Fills n (standard.after j m)) :
    standard.RunEnds limit (k + 1) (m.watch (some n))
      (.done ⟨.stopped, none⟩
        ((filled n (standard.after k m)).haltWith .stopped none).flush) := by
  have hready : ∀ {m k}, Free m → Allows limit m (k + 1) → Ready limit (m.watch (some n)) := by
    intro m k hm hroom
    exact ⟨hm.running, hm.unasked, hroom.mono (by omega)⟩
  induction k generalizing m with
  | zero =>
    rw [after_zero] at hfills ⊢
    obtain ⟨m', hstep, hstep'⟩ := step_watch_of_fills hfills
    have hfilled : filled n m = { m' with stopAt := some n, stopRequested := true } := by
      rw [filled, hstep]
      rfl
    have hm' : (filled n m).halt = none := by
      rw [hfilled]
      exact (hm.step hstep).running
    rw [← hfilled] at hstep'
    exact (RunEnds.of_asked hm' rfl).next (hready hm hroom) hstep'
  | succ k ih =>
    obtain ⟨m', hstep, hrest⟩ := runsOn_succ_iff.1 hrun
    have hstep' := step_watch_of_not_fills hm.unwatched (hfirst 0 (Nat.succ_pos k))
    have hafter : ∀ j, standard.after (j + 1) m = standard.after j m' := by
      intro j
      rw [after_succ, hstep]
      rfl
    rw [hstep] at hstep'
    rw [hafter] at hfills ⊢
    have hends := ih (hm.step hstep) hrest ((allows_step_iff hstep).2 hroom) hfills fun j hj => by
      rw [← hafter]
      exact hfirst (j + 1) (Nat.succ_lt_succ hj)
    exact hends.next (hready hm hroom) hstep'

/-! ## Requests -/

/-- A request to stop is not forgotten. -/
theorem asked_of_step (h : m.stopRequested = true) :
    (standard.step m).machine.stopRequested = true := by
  apply machine_step (P := fun m => m.stopRequested = true) h
  · intro e pc _ _
    exact h
  · intro i pc b m₂ _ _ hx
    cases hx with
    | output op operands source => simp [Machine.emit, Machine.counted, h]
    | _ => exact h
  · intro i pc e m₂ _ _ hx
    rw [hx.frame]
    exact h
  · intro m₁ f h₁
    exact h₁

end Registry

theorem asked_of_reaches (h : Reaches m.requestStop m') : m'.stopRequested = true := by
  apply h.invariant (P := fun m => m.stopRequested = true) rfl
  intro c m₁ _ h₁
  apply c.keeps (P := fun m => m.stopRequested = true) h₁
  · intro m₂ h₂
    exact Registry.asked_of_step h₂
  · intro m₂ h₂
    exact h₂
  · intro m₂ f h₂
    exact h₂
  · intro m₂ h₂
    exact h₂
  · intro m₂ memory size h₂
    exact h₂
  · intro m₂ _
    rfl

namespace Registry

/-! ## Stops -/

/-- Take a run that nothing stops from outside, and let every byte from a length of output on ask
the machine to stop. If a step of the run fills the output, then the run is cut off behind the first
such step, and only halts; it does not look at the limit again. If there is none, because the run
ends or the limit is reached before, it goes as if the machine were not watched.

A run of a machine that was asked to stop earlier only halts, whatever its limit. -/
theorem stop_between_instructions (m : Machine) (hm : m.halt = none)
    (hs : m.stopRequested = false) (limit : Option Int) (n : Int) :
    let u := m.watch none
    (∀ k, standard.RunsOn k u → Allows limit u (k + 1) → Fills n (standard.after k u) →
      (∀ j, j < k → ¬ Fills n (standard.after j u)) →
      let cut : Machine := { standard.after (k + 1) u with stopAt := some n, stopRequested := true }
      (∃ address, Machine.addressOf (standard.after k u).pc = .ok address ∧
          cut.pc = .number (address + 2)) ∧
        cut.cycles = m.cycles + (k + 1) ∧
        standard.RunEnds limit (k + 1) (m.watch (some n))
          (.done ⟨.stopped, none⟩ (cut.haltWith .stopped none).flush)) ∧
    ((∀ k, standard.RunsOn k u → Allows limit u (k + 1) → ¬ Fills n (standard.after k u)) →
      ∀ fuel, standard.run limit fuel (m.watch (some n)) =
        (standard.run limit fuel u).onMachine (·.watch (some n))) ∧
    ∀ m₀ m' : Machine, Reaches m₀.requestStop m' → m'.halt = none → ∀ limit fuel,
      standard.run limit fuel m' =
        .done (some ⟨.stopped, none⟩) (m'.haltWith .stopped none).flush := by
  intro u
  have hu : Free u := ⟨hm, hs, rfl⟩
  refine ⟨?_, ?_, ?_⟩
  · intro k hrun hroom hfills hfirst cut
    have hcut : filled n (standard.after k u) = cut := by
      rw [filled, ← after_succ']
    obtain ⟨m', address, hstep, haddress, hpc⟩ := step_of_fills hfills
    have hafter : standard.after (k + 1) u = m' := by
      rw [after_succ', hstep]
      rfl
    refine ⟨⟨address, haddress, ?_⟩, ?_, ?_⟩
    · change (standard.after (k + 1) u).pc = _
      rw [hafter, hpc]
    · have hrun' : standard.RunsOn (k + 1) u := runsOn_succ_iff'.2 ⟨hrun, by rw [hstep, hafter]⟩
      exact (lawful_standard.after_of_runsOn hu.running hrun').2
    · rw [← hcut]
      exact runEnds_watch hu hrun hroom hfills hfirst
  · intro hnever fuel
    exact ((lawful_standard.runsTo_run limit fuel u).watch rfl hnever).run_eq
  · intro m₀ m' hreach hm' limit fuel
    exact (RunsTo.asked hm' (asked_of_reaches hreach)).run_eq

/-- A program that writes one byte and halts is stopped behind that byte, even if its limit is
reached there, but not if two bytes are waited for. -/
theorem stop_between_instructions_output :
    let m : Machine := { memory := #[19, 65, 0] }
    m.halt = none ∧ m.stopRequested = false ∧
      (∃ m', m'.console.output = #[65] ∧ m'.fault = none ∧
        standard.RunEnds (some 1) 1 (m.watch (some 1)) (.done ⟨.stopped, none⟩ m')) ∧
      (∀ fuel, standard.run none fuel (m.watch (some 2)) =
        (standard.run none fuel (m.watch none)).onMachine (·.watch (some 2))) ∧
      standard.run (some 0) 1 m.requestStop =
        .done (some ⟨.stopped, none⟩) (m.requestStop.haltWith .stopped none).flush := by
  intro m
  let u := m.watch none
  -- The second step halts the machine.
  have hhalts : (standard.step (standard.after 1 u)).result = .ok (.halted (.number 2)) := by
    decide +kernel
  have hnever : ∀ k, standard.RunsOn k u → ¬ Fills 2 (standard.after k u) := by
    intro k hrun hfills
    by_cases hk : k = 0
    · subst hk
      obtain ⟨b, -, hn⟩ := fills_iff.1 hfills
      exact absurd hn (by decide)
    by_cases hk : k = 1
    · subst hk
      obtain ⟨m', address, hstep, -⟩ := step_of_fills hfills
      rw [hstep] at hhalts
      cases hhalts
    · rw [hrun 1 (by omega)] at hhalts
      cases hhalts
  have hfills : Fills 1 (standard.after 0 u) := fills_iff.2 ⟨65, by decide, by decide⟩
  have hroom : Allows (some 1) u (0 + 1) := by
    intro l hl
    cases hl
    decide
  obtain ⟨hcut, -, hasked⟩ := stop_between_instructions m rfl rfl (some 1) 1
  obtain ⟨-, hsame, -⟩ := stop_between_instructions m rfl rfl none 2
  obtain ⟨-, -, hends⟩ := hcut 0 (runsOn_zero standard u) hroom hfills fun j hj => by omega
  refine ⟨rfl, rfl, ⟨_, ?_, rfl, hends⟩, ?_, ?_⟩
  · decide +kernel
  · exact hsame fun k hrun _ => hnever k hrun
  · exact hasked m m.requestStop .refl rfl (some 0) 1

end Registry

end WordMachine
