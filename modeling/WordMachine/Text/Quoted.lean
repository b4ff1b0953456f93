import WordMachine.Text.Printable

/-! # Quoted text

How a piece of text is shown inside a message: between quotes, with what is not printable escaped.

* The quote is `'`, unless the text has a `'` and no `"`.
* The quote and the backslash are escaped, and so is every character that is not printable.
-/

namespace WordMachine.Text

/-- The quote that a text is normally shown with. -/
abbrev singleMark : Char := '\x27'

/-- The quote of a text that has the other one inside. -/
abbrev doubleMark : Char := '\x22'

/-- The character that starts an escape. -/
abbrev backslash : Char := '\x5c'

/-- A number in hexadecimal, filled up with zeros to a width. -/
def hex (width n : Nat) : String :=
  let digits := Nat.toDigits 16 n
  String.ofList (List.replicate (width - digits.length) '0' ++ digits)

/-- The escape of a character that is not printable: as short as its code point allows. -/
def escape (c : Char) : String :=
  let n := c.toNat
  if n < 0x100 then "\\x" ++ hex 2 n
  else if n < 0x10000 then "\\u" ++ hex 4 n
  else "\\U" ++ hex 8 n

/-- One character between quotes. -/
def quoteChar (mark c : Char) : String :=
  if c = mark ∨ c = backslash then String.ofList [backslash, c]
  else if c = '\n' then "\\n"
  else if c = '\r' then "\\r"
  else if c = '\t' then "\\t"
  else if isPrintable c then c.toString
  else escape c

/-- The quote that a text is shown with. -/
def mark (s : String) : Char :=
  if s.toList.contains singleMark && !s.toList.contains doubleMark then doubleMark else singleMark

/-- A text between quotes. -/
def quote (s : String) : String :=
  let q := mark s
  q.toString ++ String.join (s.toList.map (quoteChar q)) ++ q.toString

end WordMachine.Text
