import CalcShell.Calc.Token
import CalcShell.Text.Quoted

/-!
# Errors in a source

A source is rejected for a cause at a position. A cause has a code and a message; `Diagnostic` is
what is shown of it. Two of the causes mean that the source stops too early, so that more text may
repair it.
-/

namespace CalcShell.Calc

/-- What is shown of an error (`ErrorInfo`): a code, a message, and what is known of the place. -/
structure Diagnostic where
  code : String
  message : String
  /-- The byte offset of the place. -/
  offset : Option Nat := none
  line : Option Nat := none
  col : Option Nat := none
  /-- The line of the source to show below the message. -/
  snippet : Option String := none
deriving DecidableEq, Repr

namespace Diagnostic

/-- The codes of the errors that more text may repair (`INCOMPLETE_CODES`). -/
def incompleteCodes : List String := ["PAR001", "LEX002"]

/-- Whether more text may repair the error (`is_incomplete`). -/
def isIncomplete (d : Diagnostic) : Bool := incompleteCodes.contains d.code

/-- The place as the message names it: line and column if both are known, else the offset. -/
def place (d : Diagnostic) : String :=
  match d.line, d.col, d.offset with
  | some l, some c, _ => s!" @line={l},col={c}"
  | _, _, some p => s!" @pos={p}"
  | _, _, _ => ""

/-- The snippet with a caret below the column, if both are known. -/
def excerpt (d : Diagnostic) : String :=
  match d.snippet, d.col with
  | some s, some c => "\n" ++ s ++ "\n" ++ String.ofList (List.replicate (c - 1) ' ') ++ "^"
  | _, _ => ""

/-- The text of the error. -/
def render (d : Diagnostic) : String :=
  "[" ++ d.code ++ "] " ++ d.message ++ d.place ++ d.excerpt

end Diagnostic

/-- What the parser was ready to accept where it stopped. -/
inductive Expected where
  /-- A token of one kind. -/
  | token (kind : TokenKind)
  /-- The end of an open block. -/
  | blockEnd
  /-- The end of a statement. -/
  | separator
  /-- The start of an expression. -/
  | expression
  /-- No second comparison. -/
  | comparisonEnd
  /-- A number in range. -/
  | integer
deriving DecidableEq, Repr

/-- The words for what was expected. -/
def Expected.describe : Expected → String
  | .token kind => kind.label
  | .blockEnd => "`end`"
  | .separator => "newline or `;`"
  | .expression => "expression"
  | .comparisonEnd => "end of comparison"
  | .integer => "integer"

/-- How deep expressions may nest (`MAX_NESTING`). -/
def maxNesting : Nat := 128

/-- Why a source is rejected. -/
inductive Cause where
  /-- A character that starts no token. -/
  | strayChar (c : Char)
  /-- A string that is not closed. -/
  | openString
  /-- An escape that is not known, in a string. -/
  | badEscape (c : Char)
  /-- A number that is too large. -/
  | numberRange (digits : String)
  /-- The source ends where something is expected. -/
  | endOfInput (expected : Expected)
  /-- A token stands where something else is expected. -/
  | unexpected (text : String) (expected : Expected)
  /-- Expressions nest too deep. -/
  | tooDeep
deriving DecidableEq, Repr

namespace Cause

/-- The code of a cause. -/
def code : Cause → String
  | .strayChar _ => "LEX001"
  | .openString => "LEX002"
  | .badEscape _ => "LEX003"
  | .numberRange _ => "LEX004"
  | .endOfInput _ => "PAR001"
  | .unexpected _ _ => "PAR002"
  | .tooDeep => "PAR003"

/-- The message of a cause. -/
def message : Cause → String
  | .strayChar c => "unexpected character `" ++ c.toString ++ "`"
  | .openString => "unterminated string literal"
  | .badEscape c => "unknown escape sequence `\\" ++ c.toString ++ "`"
  | .numberRange digits => "integer literal out of range: " ++ digits
  | .endOfInput expected => "unexpected end of input, expected " ++ expected.describe
  | .unexpected text expected =>
    "unexpected `" ++ Text.escaped text ++ "`, expected " ++ expected.describe
  | .tooDeep => s!"expression nested deeper than {maxNesting} levels"

end Cause

/-- Why and where a source is rejected (`ParseError`). -/
structure SourceError where
  cause : Cause
  position : Position
deriving DecidableEq, Repr

namespace SourceError

/-- What is shown of the error. -/
def diagnostic (e : SourceError) : Diagnostic where
  code := e.cause.code
  message := e.cause.message
  offset := some e.position.offset
  line := some e.position.line
  col := some e.position.col

/-- Whether more text may repair the error: the source ends early, or within a string. -/
def isIncomplete (e : SourceError) : Bool := e.diagnostic.isIncomplete

/-- The text of the error. -/
def render (e : SourceError) : String := e.diagnostic.render

end SourceError

end CalcShell.Calc
