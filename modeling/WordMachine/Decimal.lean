/-! # Decimals

Numbers with a fraction, as they are written: a sign, digits and an exponent.

* `Decimal.text` shows a decimal without the zeros that say nothing. The point stays among the digits
  for magnitudes from `10 ^ -4` up to `10 ^ 16`; any other has an exponent.
* Decimals are compared with integers exactly.
* `Decimal.truncate` cuts the fraction off. Large magnitudes have no more than 53 significant bits.
-/

namespace WordMachine

/-- The number `digits * 10 ^ exponent`, or its negative. -/
structure Decimal where
  negative : Bool := false
  digits : Nat
  exponent : Int
  deriving DecidableEq, Repr

namespace Decimal

/-! ## Text -/

/-- A row of zeros. -/
def zeros (count : Int) : List Char := List.replicate count.toNat '0'

/-- The digits that say something, and how many digits stand in front of the point. -/
def significant (x : Decimal) : List Char × Int :=
  let all := Nat.toDigits 10 x.digits
  if x.digits = 0 then (all, 1)
  else ((all.reverse.dropWhile (· == '0')).reverse, all.length + x.exponent)

/-- Digits with a point among them, which has a digit on either side. -/
def positional (digits : List Char) (point : Int) : List Char :=
  if point ≤ 0 then '0' :: '.' :: (zeros (-point) ++ digits)
  else if digits.length ≤ point then digits ++ zeros (point - digits.length) ++ ['.', '0']
  else digits.take point.toNat ++ '.' :: digits.drop point.toNat

/-- The exponent behind digits: its sign, and two digits or more. -/
def exponentText (exponent : Int) : List Char :=
  let digits := Nat.toDigits 10 exponent.natAbs
  'e' :: (if exponent < 0 then '-' else '+') :: (zeros (2 - digits.length) ++ digits)

/-- Digits with a point behind the first of several, and an exponent. -/
def scientific (digits : List Char) (point : Int) : List Char :=
  match digits with
  | first :: rest@(_ :: _) => first :: '.' :: (rest ++ exponentText (point - 1))
  | digits => digits ++ exponentText (point - 1)

/-- The text of a decimal. -/
def text (x : Decimal) : String :=
  let (digits, point) := x.significant
  let body := if -4 < point ∧ point ≤ 16 then positional digits point else scientific digits point
  String.ofList (if x.negative then '-' :: body else body)

/-! ## Value -/

/-- The magnitude of a decimal, as a numerator and a denominator. -/
def ratio (x : Decimal) : Nat × Nat :=
  (x.digits * Nat.pow 10 x.exponent.toNat, Nat.pow 10 (-x.exponent).toNat)

/-- How a decimal stands to an integer. -/
def compareTo (x : Decimal) (n : Int) : Ordering :=
  let (numerator, denominator) := x.ratio
  compare (if x.negative then -(numerator : Int) else numerator) (n * denominator)

/-- The number of significant bits of a magnitude. -/
abbrev precision : Nat := 53

/-- The natural number nearest to a quotient; of two equally near ones the even one. -/
def roundDiv (numerator denominator : Nat) : Nat :=
  let quotient := numerator / denominator
  match compare (2 * (numerator % denominator)) denominator with
  | .lt => quotient
  | .gt => quotient + 1
  | .eq => quotient + quotient % 2

/-- The magnitude without its fraction, rounded to the significant bits if it has more. -/
def magnitude (x : Decimal) : Nat :=
  let (numerator, denominator) := x.ratio
  let whole := numerator / denominator
  if whole < Nat.pow 2 precision then whole
  else
    let unit := Nat.pow 2 (whole.log2 + 1 - precision)
    roundDiv numerator (denominator * unit) * unit

/-- The integer that is left when the fraction is cut off. -/
def truncate (x : Decimal) : Int := if x.negative then -(x.magnitude : Int) else x.magnitude

example : text ⟨false, 2, 0⟩ = "2.0" := by decide
example : text ⟨true, 0, 0⟩ = "-0.0" := by decide
example : text ⟨false, 400005, -1⟩ = "40000.5" := by decide
example : text ⟨false, 10, -6⟩ = "1e-05" := by decide
example : text ⟨true, 125, 20⟩ = "-1.25e+22" := by decide
example : truncate ⟨true, 19, -1⟩ = -1 := by decide
example : truncate ⟨false, 9007199254740993, 0⟩ = 9007199254740992 := by decide

end Decimal

end WordMachine
