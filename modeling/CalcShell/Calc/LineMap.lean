import CalcShell.Calc.Position

/-!
# The lines of a source

A `LineMap` holds the offsets at which the lines of a source start. They are found once, and then
each offset is located among them by halving; only the characters between the start of its line and
the offset are counted.
-/

namespace CalcShell.Calc

/-- Looks for a number in the part of a sorted array from place `low` on and before `high`
(`binary_search`): gives its place or, as an error, the place where it would go. -/
def search (sorted : Array Nat) (x low high : Nat) : Except Nat Nat :=
  if low < high then
    let middle := low + (high - low) / 2
    if sorted.getD middle 0 = x then .ok middle
    else if sorted.getD middle 0 < x then search sorted x (middle + 1) high
    else search sorted x low middle
  else .error low
termination_by high - low

/-- The offsets at which the lines of a source start (`LineMap`). -/
structure LineMap where
  starts : Array Nat

namespace LineMap

/-- The offsets behind the line ends among characters that stand at an offset. -/
def behindLineEnds (offset : Nat) : List Char → List Nat
  | [] => []
  | c :: cs =>
    if c = '\n' then (offset + 1) :: behindLineEnds (offset + 1) cs
    else behindLineEnds (offset + c.utf8Size) cs

/-- The lines of a source (`new`). -/
def ofText (src : String) : LineMap := ⟨(0 :: behindLineEnds 0 src.toList).toArray⟩

/-- The number of the last line that starts at or before an offset; the first one is zero. -/
def lineAt (m : LineMap) (offset : Nat) : Nat :=
  match search m.starts offset 0 m.starts.size with
  | .ok i => i
  | .error 0 => 0
  | .error (i + 1) => i

/-- The position at an offset in a source (`locate`). Only the characters behind the start of the
line are counted. -/
def locate (m : LineMap) (src : String) (offset : Nat) : Position :=
  let start := m.starts.getD (m.lineAt offset) 0
  ⟨offset, m.lineAt offset + 1, (String.Pos.Raw.extract src ⟨start⟩ ⟨offset⟩).length + 1⟩

end LineMap

end CalcShell.Calc
