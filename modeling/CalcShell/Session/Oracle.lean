import CalcShell.Session.Host
import CalcShell.Text.Trim

/-!
# Other ways to tell units

A host may be given another way to tell whether a text is complete.
-/

namespace CalcShell

/-- A way to tell whether a text is complete. -/
abbrev Oracle := String → Verdict

namespace Oracle

/-- Every text is complete. -/
def always : Oracle := fun _ => .complete

/-- Whether some characters stand next to one another in others. -/
def occursIn (part : List Char) : List Char → Bool
  | [] => part.isEmpty
  | c :: cs => part.isPrefixOf (c :: cs) || occursIn part cs

/-- A text with `go` in it is complete; of another one nothing can be said. -/
def picky : Oracle := fun text =>
  if occursIn ['g', 'o'] text.toList then .complete
  else .fault ⟨"SyntaxError", "cannot tell yet"⟩

/-- A text is complete if among its words there are at most as many `do` as `end`. -/
def balanced : Oracle := fun text =>
  if (Text.words text).count "do" ≤ (Text.words text).count "end" then .complete
  else .incomplete none

end Oracle

/-- The host with another way to tell whether a text is complete. -/
def Host.withOracle (H : Host) (oracle : Oracle) : Host := { H with judge := oracle }

end CalcShell
