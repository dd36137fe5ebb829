/-!
# Positions in a source

A position counts bytes from the start of the source, lines from one, and characters within the line
from one.
-/

namespace CalcShell.Calc

/-- A place between two characters of a source. -/
structure Position where
  /-- The number of bytes before the place. -/
  offset : Nat
  /-- One more than the number of line ends before the place. -/
  line : Nat
  /-- One more than the number of characters between the last line end and the place. -/
  col : Nat
deriving DecidableEq, Repr

end CalcShell.Calc
