import CalcShell.Line.Buffer
import CalcShell.Text.Trim

/-!
# History

The lines entered so far, and the walk through them with the arrow keys. While the walk is inside
the history, the line that was being typed waits in the stash.
-/

namespace CalcShell.Line

/-- Lines entered, the oldest first, up to a limit (`History`). -/
structure History where
  entries : List String := []
  limit : Nat := 1000
deriving DecidableEq, Repr

namespace History

/-- Adds a line without the blanks around it (`push`). An empty line and one like the last are not
added; at the limit the oldest line goes. -/
def push (h : History) (entry : String) : History :=
  if Text.trim entry = "" ∨ h.entries.getLast? = some (Text.trim entry) then h
  else
    { h with
      entries := (if h.entries.length = h.limit then h.entries.drop 1 else h.entries) ++
        [Text.trim entry] }

/-- The entry at a place, counted from the oldest (`get`). -/
def get (h : History) (i : Nat) : String := h.entries.getD i ""

end History

/-- Where the walk through the history stands (`Recall`). -/
structure Recall where
  /-- The entry that is shown, if the walk is inside the history. -/
  index : Option Nat := none
  /-- The line as it was when the walk began. -/
  stash : String := ""
deriving DecidableEq, Repr

namespace Recall

/-- Walks to the entry before, if there is one (`older`). -/
def older (r : Recall) (h : History) (line : LineBuffer) : Bool × Recall × LineBuffer :=
  match r.index with
  | none =>
    if h.entries.isEmpty then (false, r, line)
    else
      (true, ⟨some (h.entries.length - 1), line.text⟩, .ofText (h.get (h.entries.length - 1)))
  | some 0 => (false, r, line)
  | some (i + 1) => (true, { r with index := some i }, .ofText (h.get i))

/-- Walks to the entry behind, or out of the history to the line that was being typed (`newer`). -/
def newer (r : Recall) (h : History) (line : LineBuffer) : Bool × Recall × LineBuffer :=
  match r.index with
  | none => (false, r, line)
  | some i =>
    if i + 1 < h.entries.length then
      (true, { r with index := some (i + 1) }, .ofText (h.get (i + 1)))
    else (true, { r with index := none }, .ofText r.stash)

/-- Leaves the history (`detach`): the line shown is now the one being typed. -/
def detach (r : Recall) : Recall := { r with index := none }

end Recall

end CalcShell.Line
