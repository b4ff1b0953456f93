import WordMachine.Decimal
import WordMachine.Text.Quoted

/-! # Data

What the stack, the counter and a message can hold. Programs put integers there only; a caller may put
anything, and nobody looks at it before it is used.

* `Datum.shown` is how a datum appears in texts, and `Datum.quoted` how it does where text has quotes.
* Integers and truth values are whole numbers; with decimals they are what can be compared to integers.
-/

namespace WordMachine

/-- A piece of data. -/
inductive Datum where
  | number (value : Int)
  /-- A truth value, which counts as one or zero. -/
  | truth (value : Bool)
  | decimal (value : Decimal)
  /-- Nothing. -/
  | blank
  | text (value : String)
  /-- Data of another shape: how it appears in texts, and how its owner writes it. -/
  | foreign (shown written : String)
  deriving DecidableEq, Repr

namespace Datum

/-- How a datum appears in texts. -/
def shown : Datum → String
  | .number value => toString value
  | .truth true => "True"
  | .truth false => "False"
  | .decimal value => value.text
  | .blank => "None"
  | .text value => value
  | .foreign shown _ => shown

/-- How a datum appears where text is shown between quotes. -/
def quoted : Datum → String
  | .text value => Text.quote value
  | d => d.shown

/-- The whole number that a datum stands for. -/
def toInt? : Datum → Option Int
  | .number value => some value
  | .truth value => some (if value then 1 else 0)
  | _ => none

/-- How a datum stands to an integer, if it can be compared to one. -/
def compareTo? (d : Datum) (n : Int) : Option Ordering :=
  match d with
  | .decimal value => some (value.compareTo n)
  | d => d.toInt?.map (compare · n)

/-- Whether a datum lies between two integers, the lower one included and the upper one not. -/
def liesIn? (d : Datum) (low high : Int) : Option Bool :=
  match d.compareTo? low, d.compareTo? high with
  | some toLow, some toHigh => some (toLow.isGE && toHigh.isLT)
  | _, _ => none

/-! ## Small facts -/

@[simp] theorem toInt?_number (n : Int) : (number n).toInt? = some n := rfl

@[simp] theorem compareTo?_number (m n : Int) : (number m).compareTo? n = some (compare m n) := rfl

end Datum

end WordMachine
