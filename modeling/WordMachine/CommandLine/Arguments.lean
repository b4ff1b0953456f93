import WordMachine.CommandLine.Usage
import WordMachine.Text.Numeral

/-! # Arguments

Reads the arguments of the command line.

* Each argument is classified by itself first: an operand, an option with or without a value attached,
  or an option that nobody knows. After `--` everything is an operand.
* Options may be abbreviated as long as one option is meant, and flags of one letter may be joined;
  an equals sign between the first letter and the others changes nothing.
* Then the arguments are taken in order. The first that cannot be taken ends the reading, and so does
  a request for help; whatever is left over is complained about at the end.
-/

namespace WordMachine.CommandLine

/-! ## Single arguments -/

/-- What is attached to an option within the same argument. -/
inductive Attached where
  | nothing
  /-- What follows an equals sign. -/
  | value (text : String)
  /-- What follows a short option, behind an equals sign or not; not empty. -/
  | joined (letters : List Char)
  deriving DecidableEq, Repr

/-- An argument, classified. -/
inductive Argument where
  | operand (text : String)
  | option (flag : Flag) (attached : Attached)
  /-- An option that nobody knows. -/
  | unknown (text : String)
  deriving DecidableEq, Repr

/-- Splits a text at its first equals sign, if it has one. -/
def splitEquals (s : String) : String × Option String :=
  let cs := s.toList
  match cs.dropWhile (· != '=') with
  | [] => (s, none)
  | _ :: value => (String.ofList (cs.takeWhile (· != '=')), some (String.ofList value))

/-- Whether a text is a row of digits, and perhaps a newline. -/
def isDigits (cs : List Char) : Bool :=
  let rest := cs.dropWhile Text.isDigit
  cs.head?.any Text.isDigit && (rest == [] || rest == ['\n'])

/-- Whether a text that starts with a dash is a negative number, with or without a fraction. -/
def isNegativeNumber (s : String) : Bool :=
  match s.toList with
  | '-' :: body =>
    isDigits body ||
      (match body.dropWhile Text.isDigit with
        | '.' :: fraction => isDigits fraction
        | _ => false)
  | _ => false

/-- What a value behind an equals sign is to an option of the given spelling. -/
def attachValue (spelling value : String) : Attached :=
  if spelling.startsWith "--" || value.isEmpty then .value value else .joined value.toList

/-- The options that an argument may stand for, each with its spelling and what is attached. Two
dashes start an abbreviation; one dash starts a letter and whatever is joined to it. -/
def candidates (s : String) : List (String × Flag × Attached) :=
  if s.startsWith "--" then
    let (start, value) := splitEquals s
    let attached := match value with
      | some v => .value v
      | none => .nothing
    (Flag.spellings.filter fun entry => entry.1.startsWith start).map
      fun (spelling, flag) => (spelling, flag, attached)
  else
    let letters := s.toList.drop 2
    (Flag.spellings.filter fun entry => entry.1.toList == s.toList.take 2).map
      fun (spelling, flag) => (spelling, flag, .joined letters)

/-- Classifies an argument that starts with a dash and is longer than that. -/
def classifyDashed (s : String) : Except UsageError Argument :=
  match Flag.ofSpelling? s with
  | some flag => .ok (.option flag .nothing)
  | none =>
    let (start, value) := splitEquals s
    match value, Flag.ofSpelling? start with
    | some v, some flag => .ok (.option flag (attachValue start v))
    | _, _ =>
      match candidates s with
      | [(_, flag, attached)] => .ok (.option flag attached)
      | [] =>
        if isNegativeNumber s || s.toList.contains ' ' then .ok (.operand s) else .ok (.unknown s)
      | several => .error (.ambiguous s (several.map (·.1)))

/-- Classifies an argument. -/
def classify (s : String) : Except UsageError Argument :=
  match s.toList with
  | '-' :: _ :: _ => classifyDashed s
  | _ => .ok (.operand s)

/-! ## Taking arguments -/

/-- What the arguments ask for. -/
structure Arguments where
  program : String
  maxCycles : Option Int
  quiet : Bool
  verbose : Bool
  deriving DecidableEq, Repr

/-- Why the program ends without running anything. -/
inductive Early where
  | help
  | refused (error : UsageError)
  /-- The limit on cycles cannot be compared to a number. -/
  | limitNotNumber
  deriving DecidableEq, Repr

/-- What the arguments say about the limit on cycles. -/
inductive Limit where
  | absent
  | cycles (count : Int)
  /-- The mark that ends options, which is taken out and leaves no value behind. -/
  | mark
  deriving DecidableEq, Repr

/-- What has been taken so far. -/
structure Draft where
  program : Option String := none
  limit : Limit := .absent
  quiet : Bool := false
  verbose : Bool := false
  /-- Arguments that nobody asked for, in order. -/
  extras : List String := []
  deriving DecidableEq, Repr

/-- The flags that stand for a flag and the letters joined to it. Where a letter is no flag, it and all
letters after it are a value that the flag before it does not take. -/
def unjoin (flag : Flag) : List Char → Except UsageError (List Flag)
  | [] => .ok [flag]
  | letter :: rest =>
    match Flag.ofSpelling? (String.ofList ['-', letter]) with
    | none => .error (.valueIgnored flag (String.ofList (letter :: rest)))
    | some next =>
      match unjoin next rest with
      | .ok flags => .ok (flag :: flags)
      | .error e => .error e

/-- Takes flags in order. -/
def Draft.takeFlags (d : Draft) : List Flag → Except Early Draft
  | [] => .ok d
  | .help :: _ => .error .help
  | .quiet :: rest => { d with quiet := true }.takeFlags rest
  | .verbose :: rest => { d with verbose := true }.takeFlags rest
  | .maxCycles :: _ => .error (.refused (.valueMissing .maxCycles))

/-- Takes an option that takes no value. -/
def Draft.takeFlag (d : Draft) (flag : Flag) (attached : Attached) : Except Early Draft :=
  match attached with
  | .nothing => d.takeFlags [flag]
  | .value text => .error (.refused (.valueIgnored flag text))
  | .joined letters =>
    match unjoin flag letters with
    | .error e => .error (.refused e)
    | .ok flags => d.takeFlags flags

/-- Takes a limit on cycles. -/
def Draft.takeLimit (d : Draft) (text : String) : Except Early Draft :=
  if text = "--" then .ok { d with limit := .mark }
  else
    match Text.readInt text with
    | .ok n => .ok { d with limit := .cycles n }
    | .error _ => .error (.refused (.invalidInteger .maxCycles text))

/-- Takes arguments in order. The answer also says whether the last of them named the program. -/
def Draft.take (d : Draft) (named : Bool) : List Argument → Except Early (Draft × Bool)
  | [] => .ok (d, named)
  | .operand text :: rest =>
    match d.program with
    | none => { d with program := some text }.take true rest
    | some _ => { d with extras := d.extras ++ [text] }.take false rest
  | .unknown text :: rest => { d with extras := d.extras ++ [text] }.take false rest
  | .option .maxCycles (.value text) :: rest =>
    match d.takeLimit text with
    | .ok d => d.take false rest
    | .error e => .error e
  | .option .maxCycles _ :: .operand text :: rest =>
    match d.takeLimit text with
    | .ok d => d.take false rest
    | .error e => .error e
  | .option .maxCycles _ :: _ => .error (.refused (.valueMissing .maxCycles))
  | .option flag attached :: rest =>
    match d.takeFlag flag attached with
    | .ok d => d.take false rest
    | .error e => .error e

/-- Takes what stands after `--`. The dashes go with the program if it stands next to them. -/
def Draft.takeTail (d : Draft) (named : Bool) (tail : List String) : Draft :=
  match d.program, tail with
  | none, [] => { d with extras := d.extras ++ ["--"] }
  | none, text :: rest => { d with program := some text, extras := d.extras ++ rest }
  | some _, tail => { d with extras := d.extras ++ (if named then tail else "--" :: tail) }

/-- What a complete draft asks for. -/
def Draft.finish (d : Draft) : Except Early Arguments :=
  match d.program with
  | none => .error (.refused .programMissing)
  | some program =>
    if d.extras ≠ [] then .error (.refused (.unrecognized d.extras))
    else
      let arguments (maxCycles : Option Int) : Arguments :=
        { program, maxCycles, quiet := d.quiet, verbose := d.verbose }
      match d.limit with
      | .absent => .ok (arguments none)
      | .cycles count => .ok (arguments (some count))
      | .mark => .error .limitNotNumber

/-- Reads the arguments of the command line. -/
def Arguments.read (argv : List String) : Except Early Arguments :=
  match (argv.takeWhile (· ≠ "--")).mapM classify with
  | .error e => .error (.refused e)
  | .ok arguments =>
    match ({} : Draft).take false arguments with
    | .error e => .error e
    | .ok (d, named) =>
      match argv.dropWhile (· ≠ "--") with
      | [] => d.finish
      | _ :: tail => (d.takeTail named tail).finish

/-- What is wrong with arguments that can be read: a limit has to be positive. -/
def Arguments.refusal? (a : Arguments) : Option UsageError :=
  if a.maxCycles.any (· ≤ 0) then some .limitNotPositive else none

end WordMachine.CommandLine
