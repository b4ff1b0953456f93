import WordMachine.Word

/-! # Example programs

A few small programs, each as a row of words under a name.
-/

namespace WordMachine.Gallery

/-- The operand that selects a register. -/
def register (index : Nat) : Int := (registerBase + index : Nat)

/-- Prints a fixed line, character by character. -/
def helloWorld : List Int :=
  ("Hello, world!\n".toList.flatMap fun c => [19, (c.toNat : Int)]) ++ [0]

/-- Adds five and six by way of the stack and prints the sum as a letter. -/
def stackAdd : List Int :=
  [2, 5,
    2, 6,
    3, register 0,
    3, register 1,
    9, register 2, register 0, register 1,
    9, register 2, register 2, 54,
    19, register 2,
    19, 10,
    0]

/-- Prints every byte of input, up to and including the first newline. -/
def echoLine : List Int :=
  [20, register 0,
    19, register 0,
    4, register 1, register 0, 10,
    8, register 1, 0,
    0]

/-- Counts down from nine, one digit a line; the line is printed by a subroutine at address 14. -/
def countdown : List Int :=
  [1, register 0, 9,
    17, 14,
    9, register 0, register 0, 32767,
    7, register 0, 3,
    0,
    21,
    9, register 1, register 0, 48,
    19, register 1,
    19, 10,
    18]

/-- The programs by name. -/
def programs : List (String × List Int) :=
  [("Hello world", helloWorld), ("Stack add", stackAdd), ("Echo line", echoLine),
    ("Countdown", countdown)]

/-- The program of a given name. -/
def find? (name : String) : Option (List Int) := programs.lookup name

example : find? "Echo line" = some echoLine := by decide

end WordMachine.Gallery
