import WordMachine.Text.Quoted

/-! # Usage

The options of the command line, the texts that explain them, and the complaints about arguments.
-/

namespace WordMachine.CommandLine

/-- The options. -/
inductive Flag where
  | help | maxCycles | quiet | verbose
  deriving DecidableEq, Repr

namespace Flag

/-- Every spelling of an option, in the order in which they are listed. -/
def spellings : List (String × Flag) :=
  [("-h", .help), ("--help", .help), ("--max-cycles", .maxCycles), ("--quiet", .quiet),
    ("-q", .quiet), ("--verbose", .verbose), ("-v", .verbose)]

/-- The option of a given spelling. -/
def ofSpelling? (s : String) : Option Flag := spellings.lookup s

/-- How complaints call an option: by all its spellings. -/
def display (flag : Flag) : String :=
  "/".intercalate ((spellings.filter fun entry => entry.2 == flag).map (·.1))

end Flag

/-- What is wrong with the arguments. -/
inductive UsageError where
  /-- An abbreviation that stands for several options. -/
  | ambiguous (text : String) (candidates : List String)
  /-- An option that takes a value has none. -/
  | valueMissing (flag : Flag)
  /-- The value of an option is no integer. -/
  | invalidInteger (flag : Flag) (text : String)
  /-- An option that takes no value has one. -/
  | valueIgnored (flag : Flag) (text : String)
  /-- No program is named. -/
  | programMissing
  /-- Arguments that nobody asked for. -/
  | unrecognized (texts : List String)
  /-- The limit on cycles is zero or less. -/
  | limitNotPositive
  deriving DecidableEq, Repr

/-- The message of a complaint. -/
def UsageError.message : UsageError → String
  | .ambiguous text candidates =>
    s!"ambiguous option: {text} could match " ++ ", ".intercalate candidates
  | .valueMissing flag => s!"argument {flag.display}: expected one argument"
  | .invalidInteger flag text =>
    s!"argument {flag.display}: invalid int value: {Text.quote text}"
  | .valueIgnored flag text =>
    s!"argument {flag.display}: ignored explicit argument {Text.quote text}"
  | .programMissing => "the following arguments are required: program"
  | .unrecognized texts => "unrecognized arguments: " ++ " ".intercalate texts
  | .limitNotPositive => "--max-cycles must be positive"

/-- The line that shows how to call the program. -/
def usageLine : String :=
  "usage: synacor-vm [-h] [--max-cycles MAX_CYCLES] [--quiet] [--verbose] program\n"

/-- The text that explains the program. -/
def helpText : String :=
  usageLine ++ "\n".intercalate [
    "",
    "Run a 16-bit word program image on the virtual machine",
    "",
    "positional arguments:",
    "  program               Path to program image (little-endian 16-bit words)",
    "",
    "options:",
    "  -h, --help            show this help message and exit",
    "  --max-cycles MAX_CYCLES",
    "                        Maximum instructions to execute. Default: unbounded",
    "  --quiet, -q           Only print program output",
    "  --verbose, -v         Debug logging on stderr",
    "",
    "Examples:",
    "    # Run an image interactively",
    "    synacor-vm challenge.bin",
    "",
    "    # Feed scripted input, cap execution length",
    "    synacor-vm challenge.bin --max-cycles 5000000 < moves.txt",
    "        ",
    ""]

/-- What is printed when the arguments are refused. -/
def complaint (error : UsageError) : String :=
  usageLine ++ s!"synacor-vm: error: {error.message}\n"

example : Flag.quiet.display = "--quiet/-q" := by decide

end WordMachine.CommandLine
