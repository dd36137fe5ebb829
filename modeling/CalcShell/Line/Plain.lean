import CalcShell.Line.Read
import CalcShell.Session.Sink
import CalcShell.Text.Utf8

/-!
# Plain input

Lines from a stream of bytes. A line ends with a line feed, before which one carriage return is
dropped; the last line may lack its end. A line that is not well-formed UTF-8 is an error of its own
and does no harm to the lines behind it.
-/

namespace CalcShell.Line

/-- The byte that ends a line. -/
def lineFeed : UInt8 := 0x0a

/-- The bytes up to and including the next line feed, and those behind it. -/
def cutLine : List UInt8 → List UInt8 × List UInt8
  | [] => ([], [])
  | b :: bs =>
    if b = lineFeed then ([b], bs)
    else
      match cutLine bs with
      | (line, rest) => (b :: line, rest)

/-- Text without `c` at its end, if it is there. -/
def dropLast (c : Char) (cs : List Char) : List Char :=
  if cs.getLast? = some c then cs.dropLast else cs

/-- A line without its end. -/
def stripEnd (s : String) : String := String.ofList (dropLast '\r' (dropLast '\n' s.toList))

/-- Where an input writes its prompts. -/
inductive Echo where
  /-- Nowhere. -/
  | silent
  /-- To a sink of its own. -/
  | own (sink : Sink)
  /-- To the output of the sessions that read from it. -/
  | shared

/-- What is written of a prompt: the prompt, flushed. -/
def promptPieces (prompt : String) : List Piece := [.text prompt, .flush]

/-- The echo after a prompt was written to it, and why that failed if it did. What goes to the
output of sessions is not written here. -/
def Echo.show (prompt : String) : Echo → Option IoError × Echo
  | .silent => (none, .silent)
  | .own sink =>
    match sink.takeAll (promptPieces prompt) with
    | (failure, sink) => (failure, .own sink)
  | .shared => (none, .shared)

/-- A stream of bytes to read lines from (`PlainInput`). -/
structure Plain where
  bytes : List UInt8
  echo : Echo := .silent

namespace Plain

/-- Reads a line (`read_line`, behind the prompt): the result and what is left. -/
def next (p : Plain) : ReadResult × Plain :=
  let (line, rest) := cutLine p.bytes
  if line.isEmpty then (.ok .eof, p)
  else
    match Text.Utf8.decode? line with
    | none => (.error .notUtf8, { p with bytes := rest })
    | some s => (.ok (.line (stripEnd s)), { p with bytes := rest })

/-- Reads under a prompt (`read_line`). If the prompt cannot be written then nothing is read. -/
def readLine (p : Plain) (prompt : String) : ReadResult × Plain :=
  match p.echo.show prompt with
  | (some e, echo) => (.error e, { p with echo := echo })
  | (none, echo) => next { p with echo := echo }

end Plain

end CalcShell.Line
