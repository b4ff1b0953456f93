import WordMachine.Proofs.Running

/-! # A run, turn by turn

The ways in which a run can go, as rules: `Registry.RunsTo` has one rule for each way to end, one for
a run that has no step left, and one for a step after which the run goes on.

* `Lawful.runsTo_run`, `RunsTo.run_eq`: under a lawful registry a run follows exactly these rules.
* `RunsTo.machine`: what steps, halts and flushes keep is kept by a run, however it ends.
* `RunEnds.of_asked`, `RunEnds.failed` and `RunEnds.next` put runs together whose end is known.
* `Lawful.ends_of_limit` and `Lawful.run_add_fuel`: under a limit every run ends, and with an end
  more steps make no difference.
* `attempts` are the machines from which a run attempts a step.

Whatever holds of every run is proved by induction on the rules.
-/

namespace WordMachine.Registry

variable {r : Registry} {limit : Option Int} {n fuel : Nat} {m m' : Machine}

/-! ## The rules -/

/-- The loop takes a step: the machine runs, nobody has asked it to stop, and the limit has room for
a cycle. -/
structure Ready (limit : Option Int) (m : Machine) : Prop where
  running : m.halt = none
  unasked : m.stopRequested = false
  room : Allows limit m 1

/-- A run of at most `fuel` steps from `m` comes to `o`. -/
inductive RunsTo (r : Registry) (limit : Option Int) :
    Nat → Machine → Outcome (Option Ending) → Prop where
  | halted {fuel : Nat} {m : Machine} {h : Halt} (halt : m.halt = some h) :
      RunsTo r limit fuel m (.done (some ⟨h.reason, none⟩) m.flush)
  | asked {fuel : Nat} {m : Machine} (running : m.halt = none) (asked : m.stopRequested = true) :
      RunsTo r limit fuel m (.done (some ⟨.stopped, none⟩) (m.haltWith .stopped none).flush)
  | exceeded {fuel : Nat} {m : Machine} {l : Int} (running : m.halt = none)
      (unasked : m.stopRequested = false) (limited : limit = some l) (reached : l ≤ m.cycles) :
      RunsTo r limit fuel m (m.flush.exceed l)
  /-- The run has not ended, and is handed back as it stands. -/
  | spent {m : Machine} (ready : Ready limit m) : RunsTo r limit 0 m (.done none m)
  | failed {fuel : Nat} {m m' : Machine} {e : Error} (ready : Ready limit m)
      (step : r.step m = .failed e m') : RunsTo r limit (fuel + 1) m (.failed e m'.flush)
  | stopped {fuel : Nat} {m m' : Machine} {a : Datum} {reason : HaltReason}
      (ready : Ready limit m) (step : r.step m = .done (.halted a) m')
      (halt : m'.halt = some ⟨reason, none⟩) :
      RunsTo r limit (fuel + 1) m (.done (some ⟨reason, some a⟩) m'.flush)
  | next {fuel : Nat} {m m' : Machine} {o : Outcome (Option Ending)} (ready : Ready limit m)
      (step : r.step m = .done .running m') (rest : RunsTo r limit fuel m' o) :
      RunsTo r limit (fuel + 1) m o

/-! ## Rules and runs -/

/-- A run that takes a step after which the machine keeps running goes on from there. -/
theorem run_of_running (h : Ready limit m) (hstep : r.step m = .done .running m') :
    r.run limit (fuel + 1) m = r.run limit fuel m' := by
  rw [run, loop_succ r h.running h.unasked h.room, hstep, run]

/-- A run that has a step to take and no step left is handed back. -/
theorem run_of_spent (r : Registry) (h : Ready limit m) : r.run limit 0 m = .done none m := by
  rw [run, loop_zero r h.running h.unasked h.room]
  rfl

/-- Each rule is one that runs follow. -/
theorem RunsTo.run_eq {o : Outcome (Option Ending)} (h : r.RunsTo limit fuel m o) :
    r.run limit fuel m = o := by
  induction h with
  | halted halt =>
    rw [run, loop_of_halted r halt]
    rfl
  | asked running asked =>
    rw [run, loop_of_asked r running asked]
    rfl
  | exceeded running unasked limited reached =>
    rw [limited, run, loop_of_limit r running unasked reached, Machine.flushed_exceed]
  | spent ready => exact run_of_spent r ready
  | failed ready step =>
    rw [run, loop_succ r ready.running ready.unasked ready.room, step]
    rfl
  | stopped ready step halt =>
    rw [run, loop_succ r ready.running ready.unasked ready.room, step]
    simp only [loop_of_halted r halt]
    rfl
  | next ready step rest ih =>
    rw [run_of_running ready step]
    exact ih

/-- Where the loop takes no step, the run has ended, however many steps are left. -/
theorem ready_or_ended (r : Registry) (limit : Option Int) (m : Machine) :
    Ready limit m ∨ ∃ o : Outcome Ending, ∀ fuel, r.RunsTo limit fuel m (o.map some) := by
  cases hm : m.halt with
  | some h => exact .inr ⟨.done ⟨h.reason, none⟩ m.flush, fun _ => .halted hm⟩
  | none =>
    by_cases hs : m.stopRequested = true
    · exact .inr ⟨.done ⟨.stopped, none⟩ _, fun _ => .asked hm hs⟩
    have hs' : m.stopRequested = false := Bool.eq_false_iff.2 hs
    by_cases hl : Allows limit m 1
    · exact .inl ⟨hm, hs', hl⟩
    · rcases limit_of_not_allows hl with ⟨l, hlimit, hle⟩
      refine .inr ⟨m.flush.exceed l, fun _ => ?_⟩
      rw [Machine.map_exceed]
      exact .exceeded hm hs' hlimit hle

/-- Every run follows one of the rules. -/
theorem Lawful.runsTo_run (hr : r.Lawful) (limit : Option Int) (fuel : Nat) (m : Machine) :
    r.RunsTo limit fuel m (r.run limit fuel m) := by
  have hrule : ∃ o, r.RunsTo limit fuel m o := by
    induction fuel generalizing m with
    | zero =>
      rcases ready_or_ended r limit m with hready | ⟨o, ho⟩
      · exact ⟨_, .spent hready⟩
      · exact ⟨_, ho 0⟩
    | succ fuel ih =>
      rcases ready_or_ended r limit m with hready | ⟨o, ho⟩
      · cases hstep : r.step m with
        | failed e m' => exact ⟨_, .failed hready hstep⟩
        | done s m' =>
          cases s with
          | running =>
            rcases ih m' with ⟨o, ho⟩
            exact ⟨o, .next hready hstep ho⟩
          | halted a =>
            rcases hr.step_halted hstep with ⟨-, reason, halt⟩
            exact ⟨_, .stopped hready hstep halt⟩
      · exact ⟨_, ho (fuel + 1)⟩
  rcases hrule with ⟨o, ho⟩
  rw [ho.run_eq]
  exact ho

/-! ## What a run keeps -/

/-- What steps, halts and flushes keep is kept by a run. -/
theorem RunsTo.machine {P : Machine → Prop} {o : Outcome (Option Ending)}
    (h : r.RunsTo limit fuel m o) (hm : P m) (kept : ∀ m, P m → P (r.step m).machine)
    (stopped : ∀ m, P m → P (m.haltWith .stopped none))
    (faulted : ∀ m f, P m → P (m.haltWith .fault (some f)))
    (flushed : ∀ m, P m → P m.flush) : P o.machine := by
  induction h with
  | halted halt => exact flushed _ hm
  | asked running asked => exact flushed _ (stopped _ hm)
  | @exceeded fuel m l running unasked limited reached =>
    -- A limit that is refused leaves nothing but the flushed output.
    rcases m.flush.exceed_cases (α := Option Ending) l with ⟨f, he⟩ | he
    · rw [he]
      exact faulted _ f (flushed _ hm)
    · rw [he]
      exact flushed _ hm
  | spent ready => exact hm
  | failed ready step =>
    have hstep := kept _ hm
    rw [step] at hstep
    exact flushed _ hstep
  | stopped ready step halt =>
    have hstep := kept _ hm
    rw [step] at hstep
    exact flushed _ hstep
  | next ready step rest ih =>
    have hstep := kept _ hm
    rw [step] at hstep
    exact ih hstep

/-! ## Runs whose end is known -/

/-- A machine that was asked to stop is halted before it takes a step. -/
theorem RunEnds.of_asked (hm : m.halt = none) (hs : m.stopRequested = true) :
    r.RunEnds limit 0 m (.done ⟨.stopped, none⟩ (m.haltWith .stopped none).flush) := by
  constructor
  · intro fuel hfuel
    exact absurd hfuel (Nat.not_lt_zero fuel)
  · intro fuel _
    exact (RunsTo.asked hm hs).run_eq

/-- A step that fails ends the run. -/
theorem RunEnds.failed {e : Error} (hready : Ready limit m) (hstep : r.step m = .failed e m') :
    r.RunEnds limit 1 m (.failed e m'.flush) := by
  constructor
  · intro fuel hfuel
    rw [Nat.lt_one_iff.1 hfuel]
    exact run_of_spent r hready
  · intro fuel hfuel
    cases fuel with
    | zero => omega
    | succ fuel => exact (RunsTo.failed hready hstep).run_eq

/-- A run ends one step later than the run from where that step leads. -/
theorem RunEnds.next {o : Outcome Ending} (hready : Ready limit m)
    (hstep : r.step m = .done .running m') (h : r.RunEnds limit n m' o) :
    r.RunEnds limit (n + 1) m o := by
  constructor
  · intro fuel hfuel
    cases fuel with
    | zero => exact run_of_spent r hready
    | succ fuel =>
      have hrest : r.run limit fuel m' = .done none (r.after fuel m') := h.1 fuel (by omega)
      rw [run_of_running hready hstep, hrest, after_succ, hstep]
      rfl
  · intro fuel hfuel
    cases fuel with
    | zero => omega
    | succ fuel =>
      rw [run_of_running hready hstep]
      exact h.2 fuel (by omega)

/-! ## Whether a run has ended -/

/-- The machine that is handed back by a run that has not ended. -/
def unended? : Outcome (Option Ending) → Option Machine
  | .done none m => some m
  | _ => none

/-- A run that has ended hands back none. -/
@[simp] theorem unended?_map_some (o : Outcome Ending) : unended? (o.map some) = none := by
  cases o <;> rfl

@[simp] theorem unended?_exceed (m : Machine) (l : Int) : unended? (m.exceed l) = none := by
  rw [← Machine.map_exceed some, unended?_map_some]

/-- What a run comes to is either a machine that has not ended or an end. -/
theorem unended_or_ended (o : Outcome (Option Ending)) :
    (∃ m, o = .done none m) ∨ ∃ o' : Outcome Ending, o = o'.map some := by
  cases o with
  | failed e m => exact .inr ⟨.failed e m, rfl⟩
  | done ending m =>
    cases ending with
    | none => exact .inl ⟨m, rfl⟩
    | some ending => exact .inr ⟨.done ending m, rfl⟩

/-- Under a limit a run has ended once it has had as many steps as there is room for. -/
theorem RunsTo.ended_of_limit {l : Int} {o : Outcome (Option Ending)} (hr : r.Lawful)
    (h : r.RunsTo limit fuel m o) (hlimit : limit = some l) (hfuel : (l - m.cycles).toNat ≤ fuel) :
    unended? o = none := by
  induction h with
  | spent ready =>
    have hroom := ready.room l hlimit
    omega
  | next ready step rest ih =>
    -- The step takes one from the fuel, and a cycle from the room.
    obtain ⟨-, -, hcycles⟩ := hr.step_running step
    have hroom := ready.room l hlimit
    exact ih (by omega)
  | exceeded running unasked limited reached => exact unended?_exceed _ _
  | _ => rfl

/-- A run that has ended does not take the steps that it is given in addition. -/
theorem RunsTo.add_fuel {o : Outcome (Option Ending)} (h : r.RunsTo limit fuel m o)
    (hended : unended? o = none) (k : Nat) : r.RunsTo limit (fuel + k) m o := by
  induction h with
  | halted halt => exact .halted halt
  | asked running asked => exact .asked running asked
  | exceeded running unasked limited reached => exact .exceeded running unasked limited reached
  | spent ready => cases hended
  | @failed fuel m m' e ready step =>
    rw [Nat.add_right_comm]
    exact .failed ready step
  | @stopped fuel m m' a reason ready step halt =>
    rw [Nat.add_right_comm]
    exact .stopped ready step halt
  | @next fuel m m' o ready step rest ih =>
    rw [Nat.add_right_comm]
    exact .next ready step (ih hended)

theorem Lawful.run_add_fuel {o : Outcome Ending} (hr : r.Lawful)
    (h : r.run limit fuel m = o.map some) (k : Nat) : r.run limit (fuel + k) m = o.map some := by
  have hruns := hr.runsTo_run limit fuel m
  rw [h] at hruns
  exact (hruns.add_fuel (unended?_map_some o) k).run_eq

/-- So there is one end, however many steps it is given beyond those. -/
theorem Lawful.ends_of_limit (hr : r.Lawful) (l : Int) (m : Machine) :
    ∃ o : Outcome Ending, ∀ fuel, (l - m.cycles).toNat ≤ fuel →
      r.run (some l) fuel m = o.map some := by
  have hended := (hr.runsTo_run (some l) _ m).ended_of_limit hr rfl (Nat.le_refl _)
  rcases unended_or_ended (r.run (some l) (l - m.cycles).toNat m) with ⟨m', hrun⟩ | ⟨o, hrun⟩
  · rw [hrun] at hended
    cases hended
  · refine ⟨o, fun fuel hfuel => ?_⟩
    obtain ⟨k, rfl⟩ := Nat.exists_eq_add_of_le hfuel
    exact hr.run_add_fuel hrun k

/-! ## The attempts of a run -/

/-- The machines from which a run attempts a step, in order: those that runs with less fuel hand
back. -/
def attempts (r : Registry) (limit : Option Int) (fuel : Nat) (m : Machine) : List Machine :=
  (List.range fuel).filterMap fun k => unended? (r.run limit k m)

/-- The attempts of a run that ends are as many as it makes. -/
theorem RunEnds.attempts_eq {o : Outcome Ending} (h : r.RunEnds limit n m o) (hfuel : n ≤ fuel) :
    r.attempts limit fuel m = (List.range n).map fun k => r.after k m := by
  obtain ⟨k, rfl⟩ := Nat.exists_eq_add_of_le hfuel
  have hbefore : (List.range n).filterMap (fun k => unended? (r.run limit k m)) =
      (List.range n).map fun k => r.after k m := by
    rw [← List.filterMap_eq_map]
    apply List.filterMap_congr
    intro j hj
    rw [h.1 j (List.mem_range.1 hj)]
    rfl
  have hafter : (List.range k).filterMap (fun j => unended? (r.run limit (n + j) m)) = [] := by
    rw [List.filterMap_eq_nil_iff]
    intro j _
    rw [h.2 (n + j) (Nat.le_add_right n j), unended?_map_some]
  rw [attempts, List.range_add, List.filterMap_append, hbefore, List.filterMap_map]
  simp only [Function.comp_def, hafter, List.append_nil]

/-- A run that takes no step attempts none. -/
theorem attempts_of_ended {o : Outcome Ending} (h : ∀ k, r.run limit k m = o.map some) :
    r.attempts limit fuel m = [] := by
  have hends : r.RunEnds limit 0 m o :=
    ⟨fun k hk => absurd hk (Nat.not_lt_zero k), fun k _ => h k⟩
  exact hends.attempts_eq (Nat.zero_le fuel)

/-- A run attempts a step, and whatever it attempts after that. -/
theorem attempts_succ (hready : Ready limit m) :
    r.attempts limit (fuel + 1) m =
      m :: (List.range fuel).filterMap fun k => unended? (r.run limit (k + 1) m) := by
  rw [attempts, List.range_succ_eq_map, List.filterMap_cons, run_of_spent r hready,
    List.filterMap_map]
  rfl

theorem attempts_of_running (hready : Ready limit m) (hstep : r.step m = .done .running m') :
    r.attempts limit (fuel + 1) m = m :: r.attempts limit fuel m' := by
  simp only [attempts_succ hready, run_of_running hready hstep]
  rfl

/-- Nothing is attempted after the step that ends the run. -/
theorem attempts_of_last {o : Outcome Ending} (hready : Ready limit m)
    (h : ∀ k, r.run limit (k + 1) m = o.map some) : r.attempts limit (fuel + 1) m = [m] := by
  simp only [attempts_succ hready, h, unended?_map_some, List.cons.injEq, true_and]
  exact List.filterMap_eq_nil_iff.2 fun _ _ => rfl

end WordMachine.Registry
