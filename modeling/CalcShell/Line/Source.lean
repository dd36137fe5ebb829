import CalcShell.Line.Editor
import CalcShell.Line.Scripted

/-!
# Inputs

The inputs that a session may read from.
-/

namespace CalcShell.Line

/-- An input (`LineSource`). -/
inductive Source where
  | scripted (s : Scripted)
  | plain (p : Plain)
  | editor (e : Editor)

namespace Source

/-- What the input writes to the output of a session before it reads under a prompt. -/
def announce (s : Source) (prompt : String) : List Piece :=
  match s with
  | .plain ⟨_, .shared⟩ | .editor _ => promptPieces prompt
  | .scripted _ | .plain _ => []

/-- Reads under a prompt: the result, what is written to the output of the session meanwhile, and
the input behind it. -/
def readLine (s : Source) (prompt : String) : ReadResult × String × Source :=
  match s with
  | .scripted s =>
    let (result, s) := s.readLine prompt
    (result, "", .scripted s)
  | .plain p =>
    let (result, p) := p.readLine prompt
    (result, "", .plain p)
  | .editor e =>
    let (result, shown, e) := e.readLine prompt
    (result, shown, .editor e)

/-- Remembers a line; a plain input has no memory. -/
def remember (s : Source) (entry : String) : Source :=
  match s with
  | .scripted s => .scripted (s.remember entry)
  | .plain p => .plain p
  | .editor e => .editor (e.remember entry)

end Source

end CalcShell.Line
