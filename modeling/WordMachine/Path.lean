/-! # Paths

A path as text is a row of names between slashes. Empty names and single dots are dropped when it is
read; two dots are kept, since what they lead to depends on the directory.
-/

namespace WordMachine

/-- A path, read from its text. -/
structure Path where
  /-- The slashes in front: none, one, or exactly two. -/
  root : String
  /-- The names, outermost first; none is empty or a single dot. -/
  names : List String
  deriving DecidableEq, Repr

namespace Path

/-- The slashes that stay in front of a path: two stay two, any other number becomes one. -/
def rootOf (s : String) : String :=
  match s.toList with
  | '/' :: '/' :: '/' :: _ => "/"
  | '/' :: '/' :: _ => "//"
  | '/' :: _ => "/"
  | _ => ""

/-- Reads a path. -/
def ofText (s : String) : Path where
  root := rootOf s
  names := (s.splitOn "/").filter fun name => name ≠ "" ∧ name ≠ "."

/-- The text of a path; the path of no name at all is a single dot. -/
def text (p : Path) : String :=
  if p.root = "" ∧ p.names = [] then "." else p.root ++ "/".intercalate p.names

end Path

end WordMachine
