import CalcShell.Value

/-!
# Open sessions

The sessions that are open stand on a stack, outermost first. What can be seen of them is the stack,
the last result and which session is active.
-/

namespace CalcShell

/-- An open session: its level and what it is held on (`Frame`). -/
structure Frame where
  depth : Nat
  receiver : Value
deriving DecidableEq

/-- The level of the innermost of the open sessions, which stand outermost first (`level`). -/
def levelOf (stack : List Frame) : Nat := (stack.getLast?.map Frame.depth).getD 0

/-- What can be seen of the sessions at some moment. -/
structure Snapshot where
  stack : List Frame
  last : Value
  active : Option SessionId
deriving DecidableEq

namespace Snapshot

/-- The number of open sessions. -/
def depth (s : Snapshot) : Nat := s.stack.length

/-- The level of the innermost session. -/
def level (s : Snapshot) : Nat := levelOf s.stack

end Snapshot

end CalcShell
