import WordMachine.CommandLine.Arguments
import WordMachine.Image
import WordMachine.Run

/-! # Running from the command line

What the program prints and with which code it ends.

* Arguments that are refused end it with code 2, a program that cannot be loaded or that meets a fatal
  condition with 1, an interruption with 130, and everything else with 0.
* `--quiet` takes away the banner and nothing else; `--verbose` puts log lines in front of whatever
  else is printed as errors.
-/

namespace WordMachine.CommandLine

/-- How the program ends. -/
structure Verdict where
  code : Nat
  /-- Whether it ended while it read its arguments. -/
  early : Bool := false
  stdout : Bytes := []
  stderr : String := ""
  deriving DecidableEq, Repr

/-! ## Log lines -/

/-- What is worth a line in the log. -/
inductive LogLine where
  | loaded (bytes words : Nat)
  | read (bytes : Nat)
  | fault (fault : Fault)
  | halted (reason : HaltReason) (address : Datum) (cycles : Int)
  | stopped (pc : Datum)
  | finished (reason : HaltReason)
  deriving DecidableEq, Repr

/-- The name under which the command line logs. -/
abbrev logName : String := "synacor_vm.cli"

/-- The text of a log line; `name` is that of the command line. -/
def LogLine.text (name : String) : LogLine → String
  | .loaded bytes words => s!"DEBUG synacor_vm.loader: Loaded {bytes} bytes ({words} words)\n"
  | .read bytes => s!"INFO synacor_vm.machine: Read {bytes} bytes\n"
  | .fault f => s!"DEBUG synacor_vm.machine: Fault: {f.text}\n"
  | .halted reason address cycles =>
    s!"DEBUG synacor_vm.machine: Halted ({reason.text}) at pc={address.shown} after {cycles} cycles\n"
  | .stopped pc => s!"INFO synacor_vm.machine: Stopped at pc={pc.shown}\n"
  | .finished reason => s!"INFO {name}: Finished: {reason.text}\n"

/-- The lines about an image of the given size. -/
def loadLog (bytes : Nat) : List LogLine := [.loaded bytes (bytes / 2), .read bytes]

/-- The lines about a run that came to an end. -/
def endingLog (ending : Ending) (m : Machine) : List LogLine :=
  let last := match ending.address, ending.reason with
    | some address, reason => [.halted reason address m.cycles]
    | none, .stopped => [.stopped m.pc]
    | none, _ => []
  last ++ [.finished ending.reason]

/-- The lines about a fatal condition: the limit on cycles has none. -/
def faultLog (f : Fault) : List LogLine :=
  match f.cause with
  | .cycleLimit _ => []
  | _ => [.fault f]

/-- What stands in the log, if a log is wanted. -/
def logText (name : String) (a : Arguments) (lines : List LogLine) : String :=
  if a.verbose then String.join (lines.map (LogLine.text name)) else ""

/-! ## Verdicts -/

/-- The verdict on arguments that are refused. -/
def refusal (error : UsageError) : Verdict := { code := 2, early := true, stderr := complaint error }

/-- The verdict on arguments that end the program. -/
def Early.verdict : Early → Except Error Verdict
  | .help => .ok { code := 0, early := true, stdout := helpText.toUTF8.toList }
  | .refused error => .ok (refusal error)
  | .limitNotNumber => .error .notNumber

/-- What is printed before the program runs. -/
def banner (a : Arguments) (bytes : Nat) : Bytes :=
  if a.quiet then []
  else Text.toBytes (s!"Read {bytes} bytes, executing.\n" ++
    String.ofList (List.replicate 25 '=') ++ "\n")

/-- The verdict on a program that could not be loaded. -/
def loadVerdict (fault : Fault) : Verdict := { code := 1, stderr := s!"Error: {fault.text}\n" }

/-- The verdict on a run; none on an error that no program can cause. -/
def runVerdict (name : String) (a : Arguments) (bytes : Nat) :
    Outcome Ending → Except Error Verdict
  | .done ending m =>
    .ok { code := 0, stdout := banner a bytes ++ m.console.output.toList,
          stderr := logText name a (loadLog bytes ++ endingLog ending m) }
  | .failed (.fault f) m =>
    .ok { code := 1, stdout := banner a bytes ++ m.console.output.toList,
          stderr := logText name a (loadLog bytes ++ faultLog f) ++
            s!"\nExecution error: {f.text}\n" }
  | .failed .interrupted m =>
    .ok { code := 130, stdout := banner a bytes ++ m.console.output.toList,
          stderr := logText name a (loadLog bytes) ++ "\nInterrupted\n" }
  | .failed e _ => .error e

/-! ## Command lines -/

/-- Loads the program that the arguments name into a fresh machine. -/
def load (files : FileSystem) (console : Console) (a : Arguments) : Outcome Nat :=
  ({ console, maxCycles := a.maxCycles } : Machine).load files (.path a.program)

/-- The verdict on arguments whose program takes at most `fuel` steps; `none` if it takes more. -/
def execute (name : String) (files : FileSystem) (console : Console) (a : Arguments)
    (fuel : Nat) : Option (Except Error Verdict) :=
  match a.refusal? with
  | some e => some (.ok (refusal e))
  | none =>
    match load files console a with
    | .failed (.fault f) _ => some (.ok (loadVerdict f))
    | .failed e _ => some (.error e)
    | .done bytes m =>
      match Registry.standard.run a.maxCycles fuel m with
      | .done none _ => none
      | .done (some ending) m => some (runVerdict name a bytes (.done ending m))
      | .failed e m => some (runVerdict name a bytes (.failed e m))

/-- The verdict on a command line whose program takes at most `fuel` steps; `none` if it takes more. -/
def run (name : String) (files : FileSystem) (console : Console) (argv : List String)
    (fuel : Nat) : Option (Except Error Verdict) :=
  match Arguments.read argv with
  | .error early => some early.verdict
  | .ok a => execute name files console a fuel

end WordMachine.CommandLine
