import CalcShell.Line.History
import CalcShell.Line.Key
import CalcShell.Line.Plain

/-!
# The line editor

Reads a line key by key from a terminal. Whenever the line changes, the prompt and the line are
drawn again and the cursor is put back to its place. Input that comes from no terminal is read as
plain lines.
-/

namespace CalcShell.Line

/-- The state while a line is edited. -/
structure Editing where
  line : LineBuffer := {}
  past : Recall := {}
deriving DecidableEq, Repr

/-- What a key leads to. -/
inductive KeyStep where
  /-- The editing goes on; the line may have changed. -/
  | edit (changed : Bool) (e : Editing)
  /-- The read ends, after something is written. -/
  | stop (written : String) (result : Read)
deriving DecidableEq, Repr

/-- Editing goes on with a changed line. -/
def Editing.withLine (e : Editing) (r : Bool × LineBuffer) : KeyStep :=
  .edit r.1 { e with line := r.2 }

/-- Editing goes on after a step in the history. -/
def KeyStep.recalled (r : Bool × Recall × LineBuffer) : KeyStep := .edit r.1 ⟨r.2.2, r.2.1⟩

/-- What a key leads to. -/
def Editing.press (h : History) (e : Editing) : Key → KeyStep
  | .enter => .stop "\r\n" (.line e.line.text)
  | .cancel => .stop "^C\r\n" .interrupted
  | .delete => if e.line.isEmpty then .stop "\r\n" .eof else e.withLine e.line.deleteRight
  | .backspace => e.withLine e.line.deleteLeft
  | .left => e.withLine e.line.left
  | .right => e.withLine e.line.right
  | .home => e.withLine e.line.home
  | .finish => e.withLine e.line.finish
  | .kill => e.withLine e.line.kill
  | .up => .recalled (e.past.older h e.line)
  | .down => .recalled (e.past.newer h e.line)
  | .char c => .edit true ⟨e.line.insert c, e.past.detach⟩
  | .other => .edit false e

/-- Draws the prompt and the line again, and puts the cursor back to its place (`redraw`). -/
def redraw (prompt : String) (line : LineBuffer) : String :=
  let back := line.chars.length - line.cursor
  "\r" ++ prompt ++ line.text ++ "\x1b[K" ++ (if 0 < back then s!"\x1b[{back}D" else "")

/-- A read that is over: its result, what was written, and the bytes left. -/
structure EditResult where
  result : ReadResult
  screen : String
  rest : List UInt8

/-- Edits a line by the keys in the bytes; `screen` is what is written so far. -/
def editFrom (prompt : String) (h : History) (e : Editing) (screen : String) (bytes : List UInt8) :
    EditResult :=
  match _h : nextKey bytes with
  | .none => ⟨.ok .eof, screen, []⟩
  | .truncated => ⟨.error .truncated, screen, []⟩
  | .key k rest =>
    match e.press h k with
    | .stop written result => ⟨.ok result, screen ++ written, rest⟩
    | .edit true e => editFrom prompt h e (screen ++ redraw prompt e.line) rest
    | .edit false e => editFrom prompt h e screen rest
termination_by bytes.length
decreasing_by all_goals exact nextKey_length _h

/-- Reads a line by the keys in the bytes, under the prompt (`edit_line`). -/
def editLine (prompt : String) (h : History) (bytes : List UInt8) : EditResult :=
  editFrom prompt h {} prompt bytes

/-- An editor on a stream of bytes (`LineEditor`). -/
structure Editor where
  bytes : List UInt8
  /-- Whether the bytes come from a terminal. -/
  terminal : Bool := true
  history : History := {}

namespace Editor

/-- Reads under a prompt that was written before (`read_line`): the result, what is written behind
the prompt, and the editor behind it. -/
def readLine (e : Editor) (prompt : String) : ReadResult × String × Editor :=
  if e.terminal then
    let r := editFrom prompt e.history {} "" e.bytes
    (r.result, r.screen, { e with bytes := r.rest })
  else
    let (result, p) := Plain.next ⟨e.bytes, .shared⟩
    (result, "", { e with bytes := p.bytes })

/-- Remembers a line (`add_history`). -/
def remember (e : Editor) (entry : String) : Editor :=
  { e with history := e.history.push entry }

end Editor

end CalcShell.Line
