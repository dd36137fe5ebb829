import CalcShell.Outcome

/-!
# Reading a line

What comes back when a line is asked for.
-/

namespace CalcShell.Line

/-- What reading a line gives. -/
inductive Read where
  /-- A line, without its end. -/
  | line (text : String)
  /-- There is nothing more to read. -/
  | eof
  /-- The line was given up by the user. -/
  | interrupted
deriving DecidableEq, Repr

/-- What reading a line gives, or why it failed. -/
abbrev ReadResult := Except IoError Read

end CalcShell.Line
