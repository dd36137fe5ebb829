/-!
# The line being edited

Characters and a cursor among them. An operation says whether anything changed, so that the screen
is drawn again only then.
-/

namespace CalcShell.Line

/-- A line and the cursor in it. -/
structure LineBuffer where
  chars : List Char := []
  /-- The number of characters before the cursor. -/
  cursor : Nat := 0
deriving DecidableEq, Repr

namespace LineBuffer

/-- The line without the cursor. -/
def text (b : LineBuffer) : String := String.ofList b.chars

/-- Whether the line has no characters. -/
def isEmpty (b : LineBuffer) : Bool := b.chars.isEmpty

/-- Puts a character before the cursor (`insert`). -/
def insert (b : LineBuffer) (c : Char) : LineBuffer :=
  ⟨b.chars.insertIdx b.cursor c, b.cursor + 1⟩

/-- Deletes the character before the cursor (`delete_left`). -/
def deleteLeft (b : LineBuffer) : Bool × LineBuffer :=
  if b.cursor = 0 then (false, b) else (true, ⟨b.chars.eraseIdx (b.cursor - 1), b.cursor - 1⟩)

/-- Deletes the character behind the cursor (`delete_right`). -/
def deleteRight (b : LineBuffer) : Bool × LineBuffer :=
  if b.chars.length ≤ b.cursor then (false, b) else (true, ⟨b.chars.eraseIdx b.cursor, b.cursor⟩)

/-- Moves the cursor to the left (`left`). -/
def left (b : LineBuffer) : Bool × LineBuffer := (0 < b.cursor, { b with cursor := b.cursor - 1 })

/-- Moves the cursor to the right (`right`). -/
def right (b : LineBuffer) : Bool × LineBuffer :=
  if b.cursor < b.chars.length then (true, { b with cursor := b.cursor + 1 }) else (false, b)

/-- Moves the cursor to the start (`home`). -/
def home (b : LineBuffer) : Bool × LineBuffer := (b.cursor ≠ 0, { b with cursor := 0 })

/-- Moves the cursor to the end (`end`). -/
def finish (b : LineBuffer) : Bool × LineBuffer :=
  (b.cursor ≠ b.chars.length, { b with cursor := b.chars.length })

/-- Empties the line (`kill`). -/
def kill (b : LineBuffer) : Bool × LineBuffer := (!b.chars.isEmpty, {})

/-- A line with the cursor at its end (`replace`). -/
def ofText (s : String) : LineBuffer := ⟨s.toList, s.toList.length⟩

end LineBuffer

end CalcShell.Line
