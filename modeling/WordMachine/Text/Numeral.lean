import WordMachine.Text.Blank
import WordMachine.Text.Digit

/-! # Numerals

Reading an integer that somebody typed: blanks around it, one sign, decimal digits of any script, and
single underscores between digits. A number has at most `maxDigits` digits, read or written.
-/

namespace WordMachine.Text

/-- Why a text is no integer. -/
inductive NumeralError where
  /-- The text has another shape. -/
  | malformed
  /-- There are more digits than the reader accepts. -/
  | tooLong (digits : Nat)
  deriving DecidableEq, Repr

/-- The largest number of digits that is read or written. -/
abbrev maxDigits : Nat := 4300

/-- Splits off the sign: whether it is a minus, and the rest. -/
def splitSign : List Char → Bool × List Char
  | '-' :: rest => (true, rest)
  | '+' :: rest => (false, rest)
  | rest => (false, rest)

/-- Digits with single underscores between them, from the front: their values and what follows. -/
def spanDigits : List Char → List Nat × List Char
  | [] => ([], [])
  | '_' :: c :: rest =>
    match digit? c with
    | some d => let (ds, rest') := spanDigits rest; (d :: ds, rest')
    | none => ([], '_' :: c :: rest)
  | c :: rest =>
    match digit? c with
    | some d => let (ds, rest') := spanDigits rest; (d :: ds, rest')
    | none => ([], c :: rest)

/-- The number that a row of digits writes. -/
def ofDigits (digits : List Nat) : Nat := digits.foldl (fun n d => 10 * n + d) 0

/-- Reads an integer. The first character after the sign has to be a digit, and an underscore that is
not between two digits is noticed before there are too many of them. -/
def readInt (s : String) : Except NumeralError Int :=
  let (negative, body) := splitSign (s.toList.dropWhile isBlank)
  if !(body.head?.any isDigit) then .error .malformed
  else
    let (digits, rest) := spanDigits body
    if rest.head? = some '_' then .error .malformed
    else if maxDigits < digits.length then .error (.tooLong digits.length)
    else if !(rest.all isBlank) then .error .malformed
    else
      let n : Int := (ofDigits digits : Int)
      .ok (if negative then -n else n)

/-! ## Writing -/

/-- Whether an integer has few enough digits to be written; the sign is not counted. -/
def isWritable (n : Int) : Bool := (Nat.toDigits 10 n.natAbs).length ≤ maxDigits

theorem isWritable_iff {n : Int} : isWritable n = true ↔ n.natAbs < Nat.pow 10 4300 := by
  rw [isWritable, decide_eq_true_eq, maxDigits]
  -- The power is too large to be computed, so the bound is a variable here.
  generalize hbound : 4300 = k
  have hpos : 0 < k := by omega
  exact Nat.length_toDigits_le_iff (by decide) hpos

/-- A number of fewer digits can be written. -/
theorem isWritable_of_lt {n : Int} {k : Nat} (hk : k ≤ maxDigits) (h : n.natAbs < Nat.pow 10 k) :
    isWritable n = true := by
  rw [isWritable_iff]
  rw [maxDigits] at hk
  generalize 4300 = j at hk ⊢
  have hpow : Nat.pow 10 k ≤ Nat.pow 10 j := Nat.pow_le_pow_right (by decide) hk
  exact Nat.lt_of_lt_of_le h hpow

/-- What fits a word has few digits. -/
theorem isWritable_of_le {n : Int} (h : n.natAbs ≤ 65535) : isWritable n = true :=
  isWritable_of_lt (k := 5) (by decide) (Nat.lt_of_le_of_lt h (by decide))

theorem natAbs_of_not_isWritable {n : Int} (h : isWritable n = false) : 65535 < n.natAbs := by
  refine Nat.lt_of_not_le fun hle => ?_
  rw [isWritable_of_le hle] at h
  cases h

@[simp] theorem isWritable_neg (n : Int) : isWritable (-n) = isWritable n := by
  rw [isWritable, isWritable, Int.natAbs_neg]

/-- The smallest number that has too many digits. -/
def overlong : Int := Nat.pow 10 4300

theorem overlong_pos : 0 < overlong := by
  have hpow : ∀ k, 0 < Nat.pow 10 k := fun _ => Nat.pow_pos (by decide)
  exact Int.natCast_pos.2 (hpow 4300)

theorem isWritable_overlong : isWritable overlong = false := by
  rw [← Bool.not_eq_true, isWritable_iff, overlong, Int.natAbs_natCast]
  exact Nat.lt_irrefl _

/-- Its opposite cannot be written either, and is below zero. -/
theorem isWritable_neg_overlong : isWritable (-overlong) = false := by
  rw [isWritable_neg, isWritable_overlong]

theorem neg_overlong_nonpos : -overlong ≤ 0 := Int.neg_nonpos_of_nonneg (Int.le_of_lt overlong_pos)

end WordMachine.Text
