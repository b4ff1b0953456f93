import WordMachine.Registry

/-! # Running

Single steps, and runs of many steps.

* A step decodes one instruction and executes it. A fatal condition halts the machine, and is told
  the address of its instruction; any other error leaves the machine running.
* A run ends when the machine has halted, when it was asked to stop, or when the limit on cycles is
  reached, looked for in this order before each instruction. However it ends, the output is flushed.
* A run is given the largest number of steps it may take, since a program need not end; a run that
  used them all up can be taken up again where it was left.
-/

namespace WordMachine

/-- How a step went. -/
inductive Step where
  | running
  /-- The instruction at this address stopped the machine. -/
  | halted (address : Datum)
  deriving DecidableEq, Repr

/-- How a run ended. -/
structure Ending where
  reason : HaltReason
  /-- The address of the instruction that stopped the machine in this run, if one did. -/
  address : Option Datum
  deriving DecidableEq, Repr

namespace Machine

/-- Ends an instruction at an address with an error: a fatal one halts the machine. -/
def fail {α : Type} (m : Machine) (address : Datum) (e : Error) : Outcome α :=
  match e with
  | .fault f =>
    let f := f.locate address
    .failed (.fault f) (m.haltWith .fault (some f))
  | e => .failed e m

/-- The limit that a run goes by: its own, else the machine's. -/
def effectiveLimit (m : Machine) (limit : Option Int) : Option Int := limit.or m.maxCycles

/-- Halts at the limit on cycles, if the fault can name the limit. -/
def exceed {α : Type} (m : Machine) (limit : Int) : Outcome α :=
  m.fail m.pc (.naming .cycleLimit limit)

end Machine

/-- The outcome of something that has come to an end flushes the output; one that has not does not. -/
def Outcome.flushed {α : Type} : Outcome (Option α) → Outcome (Option α)
  | .done none m => .done none m
  | .done (some a) m => .done (some a) m.flush
  | .failed e m => .failed e m.flush

namespace Registry

/-- Decodes and executes one instruction. -/
def step (r : Registry) (m : Machine) : Outcome Step :=
  if m.isHalted then .failed .halted m
  else
    let address := m.pc
    match m.decode with
    | .failed e m => m.fail address e
    | .done i m =>
      match r.execute i m with
      | .failed e m => m.fail address e
      | .done true m => .done .running m
      | .done false m => .done (.halted address) m

/-- Steps until the run ends, at most `fuel` times; `none` if it has not ended by then. The address
is that of the instruction that stopped the machine just before, if one did. -/
def loop (r : Registry) (limit : Option Int) (fuel : Nat) (address : Option Datum) (m : Machine) :
    Outcome (Option Ending) :=
  match m.halt with
  | some h => .done (some ⟨h.reason, address⟩) m
  | none =>
    if m.stopRequested then .done (some ⟨.stopped, none⟩) (m.haltWith .stopped none)
    else
      match limit.filter (· ≤ m.cycles) with
      | some l => m.exceed l
      | none =>
        match fuel with
        | 0 => .done none m
        | fuel + 1 =>
          match r.step m with
          | .failed e m => .failed e m
          | .done .running m => r.loop limit fuel none m
          | .done (.halted a) m => r.loop limit fuel (some a) m

/-- Runs for at most `fuel` steps under an optional limit on cycles. -/
def run (r : Registry) (limit : Option Int) (fuel : Nat) (m : Machine) :
    Outcome (Option Ending) :=
  (r.loop limit fuel none m).flushed

/-- Runs under a limit on cycles. Every step but the last counts one cycle, so the cycles that are
left are steps enough. -/
def runWithin (r : Registry) (limit : Int) (m : Machine) : Outcome Ending :=
  (r.run (some limit) (limit - m.cycles).toNat m).andThen fun ending m =>
    match ending with
    | some ending => .done ending m
    | none => m.exceed limit

end Registry

end WordMachine
