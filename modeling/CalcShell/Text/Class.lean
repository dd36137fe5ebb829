import CalcShell.Text.Alphabetic
import CalcShell.Text.Numeric
import CalcShell.Text.Mark
import CalcShell.Text.Blank
import CalcShell.Text.Printable
import CalcShell.Text.Recent

/-!
# Character classes

The classes that names, numbers, words and blanks are made of, over all of Unicode.
-/

namespace CalcShell.Text

/-- White space. -/
def isBlank (c : Char) : Bool := blanks.contains c

/-- Letters, in the wide sense of the property Alphabetic. -/
def isAlphabetic (c : Char) : Bool := alphabetic.contains c

/-- Numbers of any kind: digits, letter numbers, fractions and superscripts. -/
def isNumeric (c : Char) : Bool := numeric.contains c

/-- Letters and numbers. -/
def isAlphanumeric (c : Char) : Bool := isAlphabetic c || isNumeric c

/-- Decimal digits of any script. -/
def isDecimalDigit (c : Char) : Bool := decimalDigits.contains c

/-- The ten digits `0` to `9`. -/
def isAsciiDigit (c : Char) : Bool := '0' ≤ c && c ≤ '9'

/-- Word characters: letters, marks, decimal digits, connectors such as `_`, and the join
controls. -/
def isWord (c : Char) : Bool :=
  isAlphabetic c || marks.contains c || isDecimalDigit c || connectors.contains c ||
    joinControls.contains c

/-- Characters that version 17 of the standard added. -/
def isRecent (c : Char) : Bool := recent.contains c

/-- Whether a quoted text shows `c` as itself, the quoting characters aside. -/
def isPlain (c : Char) : Bool := !attaching.contains c && !glyphless.contains c

end CalcShell.Text
