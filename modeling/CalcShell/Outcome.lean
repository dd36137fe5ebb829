import CalcShell.Value

/-!
# Outcomes and interrupts

Evaluating a unit has an outcome: a value or a fault. Both are results that a session prints before
it goes on. An interrupt is no result: it ends the evaluation and the sessions around it.
-/

namespace CalcShell

/-- What went wrong while a unit was evaluated: a class and a message. -/
structure Fault where
  kind : String
  message : String
deriving DecidableEq, Repr

/-- The text of a fault. -/
def Fault.display (f : Fault) : String := f.kind ++ ": " ++ f.message

/-- The result of evaluating a unit. -/
inductive Outcome where
  | value (v : Value)
  | fault (f : Fault)
deriving DecidableEq

namespace Outcome

/-- The value, if there is one. -/
def value? : Outcome → Option Value
  | .value v => some v
  | .fault _ => none

/-- The fault, if there is one. -/
def fault? : Outcome → Option Fault
  | .value _ => none
  | .fault f => some f

end Outcome

/-- What went wrong while a line was read or a text written. -/
inductive IoError where
  /-- A line is not well-formed UTF-8. -/
  | notUtf8
  /-- The input ends within a character. -/
  | truncated
  /-- Anything else, in words. -/
  | other (message : String)
deriving DecidableEq, Repr

/-- The text of an error of input or output. -/
def IoError.message : IoError → String
  | .notUtf8 => "stream did not contain valid UTF-8"
  | .truncated => "failed to fill whole buffer"
  | .other message => message

/-- What ends an evaluation and unwinds the sessions around it (`Interrupt`). -/
inductive Interrupt where
  /-- Unwinds to the session that was entered at the level. -/
  | breakout (level : Nat)
  /-- Ends the program with a status. -/
  | exit (status : Int)
  /-- There is no more input. -/
  | endOfInput
  /-- Reading or writing failed. -/
  | io (error : IoError)
deriving DecidableEq, Repr

/-- The text of an interrupt. -/
def Interrupt.display : Interrupt → String
  | .breakout level => s!"breakout to nesting level {level}"
  | .exit status => s!"exit requested with status {status}"
  | .endOfInput => "end of input"
  | .io error => "I/O error: " ++ error.message

end CalcShell
