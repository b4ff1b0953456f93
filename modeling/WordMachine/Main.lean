import WordMachine.CommandLine.Verdict

/-! # The program

Reads a program image named on the command line, runs it between standard input and output, and ends
with the code of its verdict. Input is read byte by byte, when the program asks for it.
-/

namespace WordMachine.CommandLine

/-- Why a file could not be read. -/
def accessError : IO.Error → AccessError
  | .noFileOrDirectory _ _ _ => .notFound
  | .inappropriateType _ code text => ofCode code text
  | .invalidArgument _ code text => ofCode code text
  | .permissionDenied _ code text => .other code.toNat text
  | e => .other 5 (toString e)
where
  /-- The reason with a given number, which may come with its sign turned around. -/
  ofCode (code : UInt32) (text : String) : AccessError :=
    match min code.toNat (-code).toNat with
    | 20 => .notDirectory
    | 21 => .isDirectory
    | 36 => .nameTooLong
    | n => .other n text

/-- What a path leads to in the real file system. -/
def readPath (path : String) : IO (Except AccessError Bytes) := do
  try
    let data ← IO.FS.readBinFile (Path.ofText path).text
    return .ok data.toList
  catch e => return .error (accessError e)

/-- Prints bytes and makes sure that they are seen. -/
def put (stream : IO.FS.Stream) (bytes : Bytes) : IO Unit := do
  stream.write ⟨bytes.toArray⟩
  stream.flush

/-- Prints a verdict and answers with its code. -/
def Verdict.put (v : Verdict) : IO UInt32 := do
  CommandLine.put (← IO.getStdout) v.stdout
  CommandLine.put (← IO.getStderr) v.stderr.toUTF8.toList
  return UInt32.ofNat v.code

/-- Whether the next instruction needs a byte that is not there. -/
def awaitsInput (m : Machine) : Bool :=
  m.console.unread.isEmpty &&
    match m.decode with
    | .done i _ => i.opcode == .input
    | .failed _ _ => false

/-- Adds the next byte of standard input, if there is one, to what can be read. -/
def feed (m : Machine) : IO Machine := do
  let bytes ← (← IO.getStdin).read 1
  return { m with console := { m.console with unread := bytes.toList } }

/-- Prints what a machine has written between two points of its output. -/
def putOutput (m : Machine) (start stop : Nat) : IO Unit := do
  if start < stop then
    put (← IO.getStdout) (m.console.output.extract start stop).toList

/-- Runs a machine to its end, with input as it is asked for. What the machine has flushed is printed;
`printed` bytes have been printed before. -/
partial def converse (a : Arguments) (m : Machine) (printed : Nat) :
    IO (Outcome Ending) := do
  match Registry.standard.run a.maxCycles 0 m with
  | .done (some ending) m =>
    putOutput m printed m.console.output.size
    return .done ending m
  | .failed e m =>
    putOutput m printed m.console.output.size
    return .failed e m
  | .done none m =>
    let asking := awaitsInput m
    let seen := if asking then m.console.output.size
      else max printed (m.console.flushes.back?.getD 0)
    putOutput m printed seen
    let m ← if asking then feed m else pure m
    match Registry.standard.run a.maxCycles 1 m with
    | .done none m => converse a m seen
    | .done (some ending) m =>
      putOutput m seen m.console.output.size
      return .done ending m
    | .failed e m =>
      putOutput m seen m.console.output.size
      return .failed e m

/-- Runs the program that the arguments name. -/
def perform (a : Arguments) : IO UInt32 := do
  if let some e := a.refusal? then
    return ← (refusal e).put
  let answer ← readPath a.program
  match load (fun _ => answer) {} a with
  | .failed (.fault f) _ => (loadVerdict f).put
  | .failed e _ => throw (IO.userError e.message)
  | .done bytes m =>
    put (← IO.getStdout) (banner a bytes)
    match runVerdict logName a bytes (← converse a m 0) with
    | .ok v => Verdict.put { v with stdout := [] }
    | .error e => throw (IO.userError e.message)

/-- Does what the command line asks for. -/
def start (args : List String) : IO UInt32 :=
  match Arguments.read args with
  | .error early =>
    match early.verdict with
    | .ok v => v.put
    | .error e => throw (IO.userError e.message)
  | .ok a => perform a

end WordMachine.CommandLine

/-- Runs the command line. -/
def main (args : List String) : IO UInt32 := WordMachine.CommandLine.start args
