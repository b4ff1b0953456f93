/-! # Blanks

The characters that may stand around a numeral: the six ASCII blanks, and beyond ASCII every
character with the white-space property. The four ASCII separators (0x1c to 0x1f) are not blanks.
-/

namespace WordMachine.Text

/-- Whether a character is skipped before and after a numeral. -/
def isBlank (c : Char) : Bool :=
  let n := c.toNat
  n == 0x20 || (0x09 ≤ n && n ≤ 0x0d) || n == 0x85 || n == 0xa0 || n == 0x1680 ||
    (0x2000 ≤ n && n ≤ 0x200a) || n == 0x2028 || n == 0x2029 || n == 0x202f || n == 0x205f ||
    n == 0x3000

end WordMachine.Text
