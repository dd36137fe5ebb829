import CalcShell.Text.Class

/-!
# Counts in digits

A count is written in the digits `0` to `9`, possibly with a plus sign before them, and fits in 64
bits.
-/

namespace CalcShell.Text

/-- The greatest count, one below the 64th power of two. -/
def maxNatural : Nat := 18446744073709551615

/-- The number that digits write. -/
def ofDigits (ds : List Char) : Nat := ds.foldl (fun n d => 10 * n + (d.toNat - '0'.toNat)) 0

/-- The characters behind a plus sign, or all if there is none. -/
def unsigned : List Char → List Char
  | '+' :: ds => ds
  | ds => ds

/-- The count that a text writes. -/
def natural? (s : String) : Option Nat :=
  let ds := unsigned s.toList
  if !ds.isEmpty && ds.all isAsciiDigit && ofDigits ds ≤ maxNatural then some (ofDigits ds)
  else none

end CalcShell.Text
