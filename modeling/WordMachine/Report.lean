import WordMachine.Gallery
import WordMachine.Image
import WordMachine.Machine.Summary
import WordMachine.Run
import WordMachine.Text.Numeral

/-! # Run reports

Runs a program on a given text and reports what it wrote, how it ended and what is in the registers.

* The limit on cycles is read first, then the program is looked up, then it is loaded.
* A program that cannot be loaded has a report as well; a limit that is no number has none.
-/

namespace WordMachine

/-- What to run. -/
inductive Choice where
  /-- An example program, by name. -/
  | bundled (name : String)
  /-- The image that a path leads to. -/
  | upload (path : String)
  deriving DecidableEq, Repr

/-- A limit on cycles as somebody gave it. -/
inductive Amount where
  | whole (value : Int)
  | decimal (value : Decimal)
  | typed (text : String)
  deriving DecidableEq, Repr

/-- Why there is no report. -/
inductive ReportError where
  /-- The limit is no integer. -/
  | limit (text : String) (error : Text.NumeralError)
  /-- There is no example of that name. -/
  | unknownExample (name : String)
  /-- The machine failed in a way that is no fault of the program. -/
  | machine (error : Error)
  deriving DecidableEq, Repr

/-- The number of characters after which a quoted limit is cut off. -/
abbrev quotedWidth : Nat := 200

/-- A limit as messages show it: quoted, and cut off when that is too long. -/
def quotedLimit (text : String) : String :=
  String.ofList ((Text.quote text).toList.take quotedWidth)

/-- The message of a report that is missing. -/
def ReportError.message : ReportError → String
  | .limit text .malformed => s!"invalid literal for int() with base 10: {quotedLimit text}"
  | .limit _ (.tooLong digits) =>
    s!"Exceeds the limit ({Text.maxDigits} digits) for integer string conversion: value has {digits} digits; "
      ++ "use sys.set_int_max_str_digits() to increase the limit"
  | .unknownExample name => name
  | .machine error => error.message

/-- What is reported of a run. -/
structure Report where
  /-- What the program wrote. -/
  output : String
  summary : String
  registers : String
  deriving DecidableEq, Repr

namespace Amount

/-- The integer that an amount stands for; a fraction is cut off toward zero. -/
def toInt : Amount → Except ReportError Int
  | .whole value => .ok value
  | .decimal value => .ok value.truncate
  | .typed text =>
    match Text.readInt text with
    | .ok value => .ok value
    | .error e => .error (.limit text e)

end Amount

namespace Report

/-- A text in a column that is six characters wide or wider, at its right edge. -/
def column (s : String) : String :=
  String.ofList (List.replicate (6 - s.length) ' ') ++ s

/-- A row of equals signs. -/
def rule (width : Nat) : String := String.ofList (List.replicate width '=')

/-- The lines of a summary; the fault stands apart below them. -/
def summaryText (s : Summary) (fault : Option Fault) : String :=
  let reason := (s.haltReason.map HaltReason.text).getD "None"
  let lines := [
    "EXECUTION SUMMARY",
    rule 40,
    s!"Bytes loaded: {s.bytesLoaded}",
    s!"Cycles:       {s.cycles}",
    s!"Halt reason:  {reason}",
    s!"Output bytes: {s.outputBytes}",
    s!"Stack depth:  {s.stackDepth}"]
  let last := match fault with
    | some f => [s!"\nFault: {f.text}"]
    | none => []
  "\n".intercalate (lines ++ last)

/-- The lines of the registers; those that are not zero are marked. -/
def registersText (s : Summary) : String :=
  let lines := s.registers.map fun (name, w) =>
    s!"  {name}: {column (toString w.toNat)}" ++ (if w = 0 then "" else " *")
  "\n".intercalate
    (["FINAL REGISTERS", rule 30] ++ lines ++ [s!"  PC: {column s.pc.shown}"])

/-- The report of a machine after its run. -/
def ofMachine (m : Machine) (fault : Option Fault) : Report where
  output := Text.ofBytes m.console.output.toList
  summary := summaryText m.summary fault
  registers := registersText m.summary

/-- The report of a program that could not be loaded. -/
def ofLoadFault (fault : Fault) : Report where
  output := ""
  summary := s!"Error: {fault.text}"
  registers := ""

/-- Loads what was chosen. -/
def load (files : FileSystem) (choice : Choice) (m : Machine) :
    Except ReportError (Outcome Nat) :=
  match choice with
  | .upload path => .ok (m.load files (.path path))
  | .bundled name =>
    match Gallery.find? name with
    | some words => .ok (m.loadWords words)
    | none => .error (.unknownExample name)

/-- The report of a machine that is ready to run. -/
def ofRun (limit : Int) (m : Machine) : Except ReportError Report :=
  match Registry.standard.runWithin limit m with
  | .done _ m => .ok (ofMachine m none)
  | .failed (.fault f) m => .ok (ofMachine m (some f))
  | .failed e _ => .error (.machine e)

/-- Runs a program on a text under a limit on cycles. -/
def run (files : FileSystem) (choice : Choice) (input : String) (amount : Amount) :
    Except ReportError Report := do
  let limit ← amount.toInt
  let fresh : Machine := { console := .ofInput (Text.toBytes input), maxCycles := some limit }
  match ← load files choice fresh with
  | .done _ m => ofRun limit m
  | .failed (.fault f) _ => .ok (ofLoadFault f)
  | .failed e _ => .error (.machine e)

end Report

end WordMachine
