import CalcShell.Line.Read

/-!
# Scripted input

An input that gives prepared results, one for each read, and then nothing more. It keeps the prompts
it was shown and the lines it was asked to remember.
-/

namespace CalcShell.Line

/-- Prepared results and what happened so far (`ScriptedInput`). -/
structure Scripted where
  /-- The results still to come. -/
  queue : List ReadResult
  /-- The prompts shown, in order. -/
  prompts : List String := []
  /-- The lines remembered, in order. -/
  history : List String := []

namespace Scripted

/-- Reads under a prompt (`read_line`). -/
def readLine (s : Scripted) (prompt : String) : ReadResult × Scripted :=
  match s.queue with
  | [] => (.ok .eof, { s with prompts := s.prompts ++ [prompt] })
  | r :: queue => (r, { s with queue := queue, prompts := s.prompts ++ [prompt] })

/-- Remembers a line (`add_history`). -/
def remember (s : Scripted) (entry : String) : Scripted :=
  { s with history := s.history ++ [entry] }

end Scripted

end CalcShell.Line
