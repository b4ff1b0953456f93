import WordMachine.Path
import WordMachine.Text.Latin

/-! # Reading files

What a path leads to. A `FileSystem` answers every path with the bytes of a file or with the reason
why there are none.
-/

namespace WordMachine

/-- Why a path leads to no bytes. -/
inductive AccessError where
  | notFound
  | notDirectory
  | isDirectory
  | nameTooLong
  /-- Any other reason that a file system gives. -/
  | other (number : Nat) (text : String)
  deriving DecidableEq, Repr

namespace AccessError

/-- The number of the error. -/
def number : AccessError → Nat
  | .notFound => 2
  | .notDirectory => 20
  | .isDirectory => 21
  | .nameTooLong => 36
  | .other n _ => n

/-- The text of the error. -/
def text : AccessError → String
  | .notFound => "No such file or directory"
  | .notDirectory => "Not a directory"
  | .isDirectory => "Is a directory"
  | .nameTooLong => "File name too long"
  | .other _ t => t

end AccessError

/-- What every path leads to. -/
abbrev FileSystem := Path → Except AccessError Bytes

end WordMachine
