import WordMachine.Proofs.Stepping

/-! # Runs and steps

A run is a row of steps under a limit on cycles. Given enough steps it ends as they do; with a limit
that is too low for that it is cut off where the limit is reached.

* `Registry.RunEnds` says that a run ends, after how many steps, and with what.
* `Lawful.runEnds_of_sufficient` and `Lawful.runEnds_of_insufficient` are the two ways to end, for
  any lawful registry that nobody asks to stop.
* `Lawful.machine_run` takes a run apart into its first step and a shorter run.
* `run_refines_steps` is the account of both for the standard machine, and
  `run_refines_steps_exceptions` says what it leaves out.
-/

namespace WordMachine

/-- What a run makes of the attempt at a step that ends it: it answers with the recorded reason, or
passes the error on, and flushes the output either way. -/
inductive Concludes : Outcome Step → Outcome Ending → Prop where
  | halted {a : Datum} {m : Machine} {h : Halt} (halt : m.halt = some h) :
      Concludes (.done (.halted a) m) (.done ⟨h.reason, some a⟩ m.flush)
  | failed {e : Error} {m : Machine} : Concludes (.failed e m) (.failed e m.flush)

/-- An attempt is concluded in one way only. -/
theorem Concludes.unique {s : Outcome Step} {o₁ o₂ : Outcome Ending} (h₁ : Concludes s o₁)
    (h₂ : Concludes s o₂) : o₁ = o₂ := by
  cases h₁ with
  | @halted a m h halt =>
    cases h₂ with
    | halted halt' =>
      cases halt.symm.trans halt'
      rfl
  | failed =>
    cases h₂ with
    | failed => rfl

/-! ## At the limit -/

namespace Machine

variable {m : Machine} {l : Int} {α : Type}

/-- A limit that can be named is the fault that halts the machine. -/
theorem exceed_of_isWritable (h : Text.isWritable l = true) :
    (m.exceed l : Outcome α) = .failed (.fault ⟨.cycleLimit (.number l), m.pc⟩)
      (m.haltWith .fault (some ⟨.cycleLimit (.number l), m.pc⟩)) := by
  rw [exceed, Error.naming_of_isWritable h]
  rfl

/-- One that cannot is refused, and the machine goes on as it was. -/
theorem exceed_of_not_isWritable (h : Text.isWritable l = false) :
    (m.exceed l : Outcome α) = .failed .tooManyDigits m := by
  rw [exceed, Error.naming_of_not_isWritable h]
  rfl

/-- Either way there is an error. -/
theorem exceed_cases (m : Machine) (l : Int) :
    (∃ f, (m.exceed l : Outcome α) = .failed (.fault f) (m.haltWith .fault (some f))) ∨
      (m.exceed l : Outcome α) = .failed .tooManyDigits m := by
  cases h : Text.isWritable l with
  | true => exact .inl ⟨_, exceed_of_isWritable h⟩
  | false => exact .inr (exceed_of_not_isWritable h)

/-- Only how the machine has halted may be new. -/
theorem machine_exceed (m : Machine) (l : Int) :
    ∃ halt, (m.exceed l : Outcome α).machine = { m with halt := halt } := by
  rcases m.exceed_cases (α := α) l with ⟨f, he⟩ | he
  · exact ⟨_, by rw [he]; rfl⟩
  · exact ⟨m.halt, by rw [he]; rfl⟩

@[simp] theorem map_exceed {β : Type} (f : α → β) (m : Machine) (l : Int) :
    (m.exceed l).map f = m.exceed l := by
  cases h : Text.isWritable l with
  | true => rw [exceed_of_isWritable h, exceed_of_isWritable h, Outcome.map_failed]
  | false => rw [exceed_of_not_isWritable h, exceed_of_not_isWritable h, Outcome.map_failed]

/-- The output can be flushed before or after. -/
theorem flushed_exceed (m : Machine) (l : Int) :
    (m.exceed l : Outcome (Option α)).flushed = m.flush.exceed l := by
  cases h : Text.isWritable l with
  | true =>
    rw [exceed_of_isWritable h, exceed_of_isWritable h]
    rfl
  | false =>
    rw [exceed_of_not_isWritable h, exceed_of_not_isWritable h]
    rfl

end Machine

namespace Registry

variable {r : Registry} {m m' : Machine} {limit : Option Int} {l : Int} {n fuel : Nat}

/-- The run ends with `o` after exactly `n` attempts at a step; allowed fewer, it is left where they
have brought it. -/
def RunEnds (r : Registry) (limit : Option Int) (n : Nat) (m : Machine) (o : Outcome Ending) :
    Prop :=
  (∀ fuel, fuel < n → r.run limit fuel m = .done none (r.after fuel m)) ∧
    ∀ fuel, n ≤ fuel → r.run limit fuel m = o.map some

/-- Exactly `n` steps run on: the attempt after them stops the machine or fails. -/
def StopsAfter (r : Registry) (n : Nat) (m : Machine) : Prop :=
  r.RunsOn n m ∧ ∀ m', r.step (r.after n m) ≠ .done .running m'

/-- Nobody has asked the machine to stop, nor does anything that it does while it runs. -/
def Undisturbed (r : Registry) (m : Machine) : Prop :=
  ∀ n, r.RunsOn n m → (r.after n m).stopRequested = false

/-- The limit, if there is one, leaves room for `n` cycles. -/
def Allows (limit : Option Int) (m : Machine) (n : Nat) : Prop :=
  ∀ l ∈ limit, m.cycles + n ≤ l

theorem Allows.mono {k : Nat} (h : Allows limit m n) (hk : k ≤ n) : Allows limit m k := by
  intro l hl
  have hn := h l hl
  omega

/-- A limit with room for a cycle has not been reached. -/
theorem Allows.filter (h : Allows limit m 1) : limit.filter (· ≤ m.cycles) = none := by
  rw [Option.filter_eq_none_iff]
  intro l hl
  have hroom := h l hl
  simp only [decide_eq_true_eq]
  omega

/-- One without room for a cycle has been reached. -/
theorem limit_of_not_allows (h : ¬ Allows limit m 1) : ∃ l, limit = some l ∧ l ≤ m.cycles := by
  cases limit with
  | none => exact absurd (fun l hmem => by cases hmem) h
  | some l =>
    refine ⟨l, rfl, Int.not_lt.1 ?_⟩
    intro hlt
    apply h
    intro l' hmem
    cases hmem
    omega

/-! ## One turn of the loop -/

/-- Below its limit a machine that runs and was not asked to stop takes a step. -/
theorem loop_succ (r : Registry) (hm : m.halt = none) (hs : m.stopRequested = false)
    (hl : Allows limit m 1) (a : Option Datum) :
    r.loop limit (fuel + 1) a m =
      match r.step m with
      | .failed e m => .failed e m
      | .done .running m => r.loop limit fuel none m
      | .done (.halted a) m => r.loop limit fuel (some a) m := by
  cases hstep : r.step m with
  | failed e m₁ =>
    rw [loop, hm]
    simp only [hs, hl.filter, hstep, Bool.false_eq_true, if_false]
  | done s m₁ =>
    cases s with
    | running =>
      rw [loop, hm]
      simp only [hs, hl.filter, hstep, Bool.false_eq_true, if_false]
    | halted a₁ =>
      rw [loop, hm]
      simp only [hs, hl.filter, hstep, Bool.false_eq_true, if_false]

/-- With no step left it is handed back. -/
theorem loop_zero (r : Registry) (hm : m.halt = none) (hs : m.stopRequested = false)
    (hl : Allows limit m 1) (a : Option Datum) : r.loop limit 0 a m = .done none m := by
  rw [loop, hm]
  simp only [hs, hl.filter, Bool.false_eq_true, if_false]

/-- At its limit the machine takes no step, however many are left. -/
theorem loop_of_limit (r : Registry) (hm : m.halt = none) (hs : m.stopRequested = false)
    (hl : l ≤ m.cycles) (a : Option Datum) : r.loop (some l) fuel a m = m.exceed l := by
  have hfilter : (some l).filter (· ≤ m.cycles) = some l := by
    rw [Option.filter_some, if_pos (by simpa using hl)]
  unfold loop
  rw [hm]
  simp only [hs, hfilter, Bool.false_eq_true, if_false]

/-- A halted machine takes none either. -/
theorem loop_of_halted (r : Registry) {h : Halt} (hm : m.halt = some h) (a : Option Datum) :
    r.loop limit fuel a m = .done (some ⟨h.reason, a⟩) m := by
  unfold loop
  rw [hm]

/-- Nor does one that was asked to stop. -/
theorem loop_of_asked (r : Registry) (hm : m.halt = none) (hs : m.stopRequested = true)
    (a : Option Datum) :
    r.loop limit fuel a m = .done (some ⟨.stopped, none⟩) (m.haltWith .stopped none) := by
  unfold loop
  rw [hm]
  simp only [hs, if_true]

/-- Where a run is in the end: it changed nothing but how the machine halted and the console, or it
took a step and did so after that, or it went on from there. -/
theorem Lawful.machine_run (hr : r.Lawful) (limit : Option Int) (fuel : Nat) (m : Machine) :
    (∃ halt console, (r.run limit fuel m).machine = { m with halt := halt, console := console }) ∨
      ∃ k, fuel = k + 1 ∧ m.halt = none ∧
        ((∃ m₁, r.step m = .done .running m₁ ∧
            (r.run limit fuel m).machine = (r.run limit k m₁).machine) ∨
          (∀ m₁, r.step m ≠ .done .running m₁) ∧
            ∃ halt console, (r.run limit fuel m).machine =
              { (r.step m).machine with halt := halt, console := console }) := by
  cases hm : m.halt with
  | some h =>
    left
    rw [run, loop_of_halted r hm]
    exact ⟨m.halt, m.console.flush, rfl⟩
  | none =>
    -- The same order as in the loop: a request to stop, the limit, the fuel.
    by_cases hs : m.stopRequested = true
    · left
      rw [run, loop_of_asked r hm hs]
      exact ⟨some ⟨.stopped, none⟩, m.console.flush, rfl⟩
    have hs' : m.stopRequested = false := Bool.eq_false_iff.2 hs
    by_cases hl : Allows limit m 1
    · cases fuel with
      | zero =>
        left
        rw [run, loop_zero r hm hs' hl]
        exact ⟨m.halt, m.console, rfl⟩
      | succ k =>
        right
        refine ⟨k, rfl, rfl, ?_⟩
        rw [run, loop_succ r hm hs' hl]
        cases hstep : r.step m with
        | failed e m₁ =>
          right
          refine ⟨fun _ h => (by cases h), m₁.halt, m₁.console.flush, rfl⟩
        | done s m₁ =>
          cases s with
          | running =>
            left
            exact ⟨m₁, rfl, rfl⟩
          | halted a =>
            right
            rcases hr.step_halted hstep with ⟨-, reason, hhalt⟩
            refine ⟨fun _ h => (by cases h), m₁.halt, m₁.console.flush, ?_⟩
            simp only [loop_of_halted r hhalt]
            rfl
    · left
      rcases limit_of_not_allows hl with ⟨l, rfl, hle⟩
      rw [run, loop_of_limit r hm hs' hle, Machine.flushed_exceed]
      rcases m.flush.machine_exceed (α := Option Ending) l with ⟨halt, hhalt⟩
      exact ⟨halt, m.console.flush, hhalt⟩

/-! ## Many turns -/

theorem Undisturbed.step (hu : r.Undisturbed m) (h : r.step m = .done .running m') :
    r.Undisturbed m' := by
  intro n hn
  have hlast := hu (n + 1) (runsOn_succ_iff.2 ⟨m', h, hn⟩)
  rwa [after_succ, h] at hlast

/-- As long as the steps run on and the limit has room for them, a run is where they are. -/
theorem Lawful.loop_of_runsOn (hr : r.Lawful) (hm : m.halt = none) (hu : r.Undisturbed m)
    (h : r.RunsOn n m) (hl : Allows limit m n) :
    r.loop limit (n + fuel) none m = r.loop limit fuel none (r.after n m) := by
  -- The loop makes the first step first, so the induction is over the machine that it leaves.
  induction n generalizing m with
  | zero => rw [Nat.zero_add, after_zero]
  | succ n ih =>
    rcases runsOn_succ_iff.1 h with ⟨m', hstep, hrest⟩
    rcases hr.step_running hstep with ⟨-, hm', hc⟩
    have hl' : Allows limit m' n := by
      intro l hmem
      have hroom := hl l hmem
      omega
    have hs : m.stopRequested = false := hu 0 (runsOn_zero r m)
    rw [show n + 1 + fuel = n + fuel + 1 by omega,
      loop_succ r hm hs (hl.mono (by omega)), hstep]
    rw [after_succ, hstep]
    exact ih hm' (hu.step hstep) hrest hl'

/-- A run that is allowed no more steps than run on has not ended by then. -/
theorem Lawful.run_of_runsOn (hr : r.Lawful) (hm : m.halt = none) (hu : r.Undisturbed m)
    (h : r.RunsOn n m) (hl : Allows limit m (n + 1)) :
    r.run limit n m = .done none (r.after n m) := by
  rcases hr.after_of_runsOn hm h with ⟨hm', hc⟩
  have hl' : Allows limit (r.after n m) 1 := by
    intro l hmem
    have hroom := hl l hmem
    omega
  have hloop : r.loop limit (n + 0) none m = r.loop limit 0 none (r.after n m) :=
    hr.loop_of_runsOn hm hu h (hl.mono (Nat.le_succ n))
  rw [Nat.add_zero] at hloop
  rw [run, hloop, loop_zero r hm' (hu n h) hl', Outcome.flushed]

/-- A limit with room for all steps has no effect: the run ends as they do. -/
theorem Lawful.runEnds_of_sufficient (hr : r.Lawful) (hm : m.halt = none) (hu : r.Undisturbed m)
    (h : r.StopsAfter n m) (hl : Allows limit m (n + 1)) :
    ∃ o, Concludes (r.step (r.after n m)) o ∧ r.RunEnds limit (n + 1) m o := by
  rcases h with ⟨hrun, hlast⟩
  rcases hr.after_of_runsOn hm hrun with ⟨hm', hc⟩
  have hl' : Allows limit (r.after n m) 1 := by
    intro l hmem
    have hroom := hl l hmem
    omega
  have hshort : ∀ fuel, fuel < n + 1 → r.run limit fuel m = .done none (r.after fuel m) := by
    intro fuel hfuel
    exact hr.run_of_runsOn hm hu (hrun.mono (by omega)) (hl.mono (by omega))
  -- After the steps that run on, the loop is about to make the attempt that ends it.
  have hlong : ∀ fuel, n + 1 ≤ fuel → r.loop limit fuel none m =
      r.loop limit (fuel - (n + 1) + 1) none (r.after n m) := by
    intro fuel hfuel
    rw [← hr.loop_of_runsOn hm hu hrun (hl.mono (Nat.le_succ n))]
    congr 1
    omega
  cases hstep : r.step (r.after n m) with
  | failed e m₁ =>
    refine ⟨_, .failed, hshort, ?_⟩
    intro fuel hfuel
    rw [run, hlong fuel hfuel, loop_succ r hm' (hu n hrun) hl', hstep]
    rfl
  | done s m₁ =>
    cases s with
    | running => exact absurd hstep (hlast m₁)
    | halted a =>
      rcases hr.step_halted hstep with ⟨-, reason, hhalt⟩
      refine ⟨_, .halted hhalt, hshort, ?_⟩
      intro fuel hfuel
      rw [run, hlong fuel hfuel, loop_succ r hm' (hu n hrun) hl', hstep]
      simp only [loop_of_halted r hhalt]
      rfl

/-- A limit without room for the attempt that would end the run cuts it off after as many steps as
it has room for. -/
theorem Lawful.runEnds_of_insufficient (hr : r.Lawful) (hm : m.halt = none)
    (hu : r.Undisturbed m) (h : r.RunsOn (l - m.cycles).toNat m) :
    r.RunEnds (some l) (l - m.cycles).toNat m
      ((r.after (l - m.cycles).toNat m).flush.exceed l) := by
  rcases hr.after_of_runsOn hm h with ⟨hm', hc⟩
  refine ⟨?_, ?_⟩
  · intro fuel hfuel
    apply hr.run_of_runsOn hm hu (h.mono (Nat.le_of_lt hfuel))
    intro l' hmem
    cases hmem
    omega
  · intro fuel hfuel
    -- A limit that is exceeded already leaves room for no step at all, not for fewer than none.
    have hroom : (l - m.cycles).toNat = 0 ∨ Allows (some l) m (l - m.cycles).toNat := by
      rcases Int.lt_or_le l m.cycles with hlt | hle
      · exact .inl (by omega)
      · right
        intro l' hmem
        cases hmem
        omega
    have hloop : r.loop (some l) fuel none m =
        r.loop (some l) (fuel - (l - m.cycles).toNat) none (r.after (l - m.cycles).toNat m) := by
      rcases hroom with hzero | hroom
      · rw [hzero, Nat.sub_zero, after_zero]
      · rw [← hr.loop_of_runsOn hm hu h hroom]
        congr 1
        omega
    rw [run, hloop, loop_of_limit r hm' (hu _ h) (by omega), Machine.flushed_exceed,
      Machine.map_exceed]

/-- If the steps do not run on for long, there is one that ends them. -/
theorem exists_stopsAfter {k : Nat} (h : ¬ r.RunsOn k m) : ∃ n, n < k ∧ r.StopsAfter n m := by
  induction k with
  | zero => exact absurd (runsOn_zero r m) h
  | succ k ih =>
    by_cases hk : r.RunsOn k m
    · -- Step k is the first that does not run on.
      refine ⟨k, Nat.lt_succ_self k, hk, ?_⟩
      intro m' hstep
      apply h
      rw [runsOn_succ_iff', after_succ', hstep]
      exact ⟨hk, rfl⟩
    · rcases ih hk with ⟨n, hn, hstop⟩
      exact ⟨n, Nat.lt_succ_of_lt hn, hstop⟩

/-- A machine that nobody has asked to stop, and that is not watched for what it writes, is not
disturbed. -/
theorem undisturbed_of_unwatched (hs : m.stopRequested = false) (hw : m.stopAt = none) :
    standard.Undisturbed m := by
  intro n _
  have hafter : (standard.after n m).stopAt = none ∧
      (standard.after n m).stopRequested = false := by
    apply after_induction (P := fun _ m => m.stopAt = none ∧ m.stopRequested = false) ⟨hw, hs⟩
    intro k _ h
    rcases settings_of_step (standard.after k m) with ⟨-, hw', hs'⟩
    exact ⟨hw'.trans h.1, (hs' h.1).trans h.2⟩
  exact hafter.2

/-! ## Where steps lead -/

/-- So many steps, after each of which the machine keeps running, lead from `m` to `m'`. -/
def LeadsTo (n : Nat) (m m' : Machine) : Prop := standard.RunsOn n m ∧ standard.after n m = m'

theorem LeadsTo.refl (m : Machine) : LeadsTo 0 m m := ⟨runsOn_zero standard m, rfl⟩

/-- The first step apart. -/
theorem LeadsTo.step {m₁ : Machine} (h : standard.step m = .done .running m₁)
    (hrest : LeadsTo n m₁ m') : LeadsTo (n + 1) m m' := by
  refine ⟨runsOn_succ_iff.2 ⟨m₁, h, hrest.1⟩, ?_⟩
  rw [after_succ, h]
  exact hrest.2

/-- A run that ends within the cycles that are left ends as it does without a limit on steps. -/
theorem RunEnds.runWithin {limit : Int} {o : Outcome Ending}
    (h : standard.RunEnds (some limit) n m o) (hn : n ≤ (limit - m.cycles).toNat) :
    standard.runWithin limit m = o := by
  rw [Registry.runWithin, h.2 _ hn]
  cases o with
  | done ending m₁ => rfl
  | failed e m₁ => rfl

/-- A limit that has room for the steps that run on and for the one after them has no effect. -/
theorem LeadsTo.runWithin {limit : Int} {o : Outcome Ending} (h : LeadsTo n m m')
    (hm : m.halt = none) (hu : standard.Undisturbed m) (hend : Concludes (standard.step m') o)
    (hroom : m.cycles + n + 1 ≤ limit) : standard.runWithin limit m = o := by
  obtain ⟨hrun, rfl⟩ := h
  have hstops : standard.StopsAfter n m := by
    refine ⟨hrun, ?_⟩
    intro m₁ hstep
    rw [hstep] at hend
    cases hend
  have hallows : Allows (some limit) m (n + 1) := by
    intro l hl
    cases hl
    omega
  obtain ⟨o', hend', hends⟩ := lawful_standard.runEnds_of_sufficient hm hu hstops hallows
  cases hend.unique hend'
  exact hends.runWithin (by omega)

/-- One that has room for fewer cuts the run off where they lead. -/
theorem LeadsTo.runWithin_cut {limit : Int} (h : LeadsTo n m m')
    (hn : n = (limit - m.cycles).toNat) (hm : m.halt = none) (hu : standard.Undisturbed m) :
    standard.runWithin limit m = m'.flush.exceed limit := by
  obtain ⟨hrun, rfl⟩ := h
  subst hn
  exact (lawful_standard.runEnds_of_insufficient hm hu hrun).runWithin (Nat.le_refl _)

/-! ## The standard machine -/

/-- A run does what steps do, as far as its limit has room for them.

With room for all of them it ends where they do and as they do, and flushes the output. Otherwise
it takes as many as there is room for, all of which run on, and halts with the limit as its fault; if
the limit has too many digits to be named, it is refused there and the machine is not halted. So a run
under a limit always ends, one without a limit ends only if the steps do, and limits that all have room
make no difference. -/
theorem run_refines_steps (m : Machine) (limit : Option Int) (hm : m.halt = none)
    (hu : standard.Undisturbed m) :
    (∀ n, standard.StopsAfter n m → Allows (m.effectiveLimit limit) m (n + 1) →
      ∃ o, Concludes (standard.step (standard.after n m)) o ∧
        standard.RunEnds (m.effectiveLimit limit) (n + 1) m o) ∧
    (∀ l, m.effectiveLimit limit = some l →
      (∀ n, standard.StopsAfter n m → l < m.cycles + (n + 1)) →
      let n := (l - m.cycles).toNat
      let m' := standard.after n m
      let f : Fault := { cause := .cycleLimit (.number l), pc := m'.pc }
      standard.RunsOn n m ∧ m'.cycles = max m.cycles l ∧
        standard.RunEnds (some l) n m
          (if Text.isWritable l then .failed (.fault f) (m'.haltWith .fault (some f)).flush
          else .failed .tooManyDigits m'.flush)) ∧
    (∀ l, m.effectiveLimit limit = some l →
      ∃ n o, n ≤ (l - m.cycles).toNat ∧ standard.RunEnds (some l) n m o) ∧
    (m.effectiveLimit limit = none → (∀ n, standard.RunsOn n m) →
      ∀ fuel, standard.run none fuel m = .done none (standard.after fuel m)) ∧
    ∀ n, standard.StopsAfter n m → ∀ l₁ l₂, Allows l₁ m (n + 1) → Allows l₂ m (n + 1) →
      ∀ fuel, standard.run l₁ fuel m = standard.run l₂ fuel m := by
  have hr := lawful_standard
  -- If one of the steps up to the limit did not run on, the limit would have room for it.
  have hcut : ∀ l, (∀ n, standard.StopsAfter n m → l < m.cycles + (n + 1)) →
      standard.RunsOn (l - m.cycles).toNat m := by
    intro l hlow
    apply Classical.byContradiction
    intro hstop
    rcases exists_stopsAfter hstop with ⟨n, hn, hstops⟩
    have hroom := hlow n hstops
    omega
  refine ⟨?_, ?_, ?_, ?_, ?_⟩
  · intro n hstops hl
    exact hr.runEnds_of_sufficient hm hu hstops hl
  · intro l _ hlow
    have hrun := hcut l hlow
    have hends := hr.runEnds_of_insufficient hm hu hrun
    refine ⟨hrun, ?_, ?_⟩
    · rw [(hr.after_of_runsOn hm hrun).2]
      omega
    · cases hl : Text.isWritable l with
      | true => rwa [Machine.exceed_of_isWritable hl] at hends
      | false => rwa [Machine.exceed_of_not_isWritable hl] at hends
  · intro l _
    -- A limit is sufficient or it is not, and the run ends either way.
    by_cases hroom : ∃ n, standard.StopsAfter n m ∧ m.cycles + (n + 1) ≤ l
    · rcases hroom with ⟨n, hstops, hn⟩
      have hl : Allows (some l) m (n + 1) := by
        intro l' hmem
        cases hmem
        exact hn
      rcases hr.runEnds_of_sufficient hm hu hstops hl with ⟨o, -, ho⟩
      exact ⟨n + 1, o, by omega, ho⟩
    · have hlow : ∀ n, standard.StopsAfter n m → l < m.cycles + (n + 1) := by
        intro n hstops
        exact Int.not_le.1 fun hn => hroom ⟨n, hstops, hn⟩
      exact ⟨_, _, Nat.le_refl _, hr.runEnds_of_insufficient hm hu (hcut l hlow)⟩
  · intro _ hforever fuel
    exact hr.run_of_runsOn hm hu (hforever fuel) fun l hl => by cases hl
  · intro n hstops l₁ l₂ h₁ h₂ fuel
    rcases hr.runEnds_of_sufficient hm hu hstops h₁ with ⟨o₁, hc₁, hshort₁, hlong₁⟩
    rcases hr.runEnds_of_sufficient hm hu hstops h₂ with ⟨o₂, hc₂, hshort₂, hlong₂⟩
    rcases Nat.lt_or_ge fuel (n + 1) with hlt | hge
    · rw [hshort₁ fuel hlt, hshort₂ fuel hlt]
    · rw [hlong₁ fuel hge, hlong₂ fuel hge, hc₁.unique hc₂]

/-- One cycle is not enough for two instructions: the run stops before the second. -/
theorem run_refines_steps_noop_halt :
    let m : Machine := { memory := #[21, 0] }
    m.halt = none ∧ standard.Undisturbed m ∧
      ∃ m', m'.pc = .number 1 ∧ standard.RunEnds (some 1) 1 m
        (.failed (.fault { cause := .cycleLimit (.number 1), pc := .number 1 }) m') := by
  intro m
  have hu : standard.Undisturbed m := undisturbed_of_unwatched rfl rfl
  have hstep : standard.step m =
      .done .running { memory := #[21, 0], pc := .number 1, cycles := 1 } := by decide
  have hafter : standard.after 1 m = { memory := #[21, 0], pc := .number 1, cycles := 1 } := by
    rw [after_succ, hstep]
    rfl
  have hlow : ∀ n, standard.StopsAfter n m → (1 : Int) < m.cycles + (n + 1) := by
    intro n hstops
    cases n with
    | zero => exact absurd hstep (hstops.2 _)
    | succ n => simp only [show m.cycles = 0 from rfl]; omega
  have hends := ((run_refines_steps m (some 1) rfl hu).2.1 1 rfl hlow).2.2
  have hone : ((1 : Int) - m.cycles).toNat = 1 := rfl
  rw [hone, hafter] at hends
  exact ⟨rfl, hu, _, rfl, hends⟩

/-- It is not so that a limit without room always halts the machine with a fault: it may have too many
digits to be named. Nor is it so that a machine that nobody has asked to stop before it runs ends as
its steps do: what it writes may have it asked then. -/
theorem run_refines_steps_exceptions :
    (¬ ∀ (m : Machine) (l : Int), m.halt = none → standard.Undisturbed m → l ≤ m.cycles →
      ∃ f m', standard.RunEnds (some l) 0 m (.failed (.fault f) m')) ∧
    ¬ ∀ (m : Machine) (n : Nat), m.halt = none → m.stopRequested = false →
      standard.StopsAfter n m →
        ∃ o, Concludes (standard.step (standard.after n m)) o ∧
          standard.RunEnds none (n + 1) m o := by
  constructor
  · intro h
    have hlow : -Text.overlong ≤ ({} : Machine).cycles := Text.neg_overlong_nonpos
    obtain ⟨f, m', -, hends⟩ := h {} _ rfl (undisturbed_of_unwatched rfl rfl) hlow
    have hrun := hends 0 (Nat.le_refl 0)
    rw [run, loop_of_limit standard rfl rfl hlow,
      Machine.exceed_of_not_isWritable Text.isWritable_neg_overlong] at hrun
    cases hrun
  · intro h
    -- The output of one letter is enough for the stop, and the instruction after it is not executed.
    let m : Machine := { memory := #[19, 65, 0], stopAt := some 1 }
    let m₁ : Machine :=
      { m with pc := .number 2, cycles := 1, stopRequested := true,
               console := { output := #[65], bytesWritten := 1 } }
    have hstep : standard.step m = .done .running m₁ := by decide
    have hlast : standard.step m₁ = .done (.halted (.number 2))
        { m₁ with pc := .number 3, cycles := 2, halt := some ⟨.halt, none⟩ } := by decide
    have hstops : standard.StopsAfter 1 m := by
      refine ⟨runsOn_succ_iff.2 ⟨m₁, hstep, runsOn_zero _ _⟩, ?_⟩
      intro m' hruns
      rw [after_succ, hstep] at hruns
      cases hlast.symm.trans hruns
    obtain ⟨o, -, hshort, -⟩ := h m 1 rfl rfl hstops
    have hrun := hshort 1 (by decide)
    have hallows : Allows none m 1 := fun l hl => by cases hl
    rw [run, loop_succ standard rfl rfl hallows, hstep] at hrun
    simp only [loop_of_asked standard (m := m₁) rfl rfl] at hrun
    cases hrun

end Registry

end WordMachine
