import CalcShell.Session.Host
import CalcShell.Session.Sink
import CalcShell.Session.Snapshot

/-!
# What happens in sessions

Everything that happens while sessions run is kept in order: an event, and what could be seen when
it happened. Some events show in a trace as a line of text.
-/

namespace CalcShell

/-- What happens in the sessions of a host. -/
inductive Event (H : Host) where
  /-- A piece was written. -/
  | wrote (piece : Piece)
  /-- A prompt is shown to read a line from an input. -/
  | prompted (input : Nat) (prompt : String)
  /-- A hook is called. -/
  | fired (name : String) (args : List Value)
  /-- A session begins. -/
  | started (id : SessionId) (depth : Nat) (receiver : Value)
  /-- A session is put on the stack. -/
  | pushed (id : SessionId) (depth : Nat)
  /-- A session is taken off the stack. -/
  | popped (depth : Nat) (found : Bool)
  /-- An interrupt arises. -/
  | raised (i : Interrupt)
  /-- A session ends by an interrupt. -/
  | aborted (id : SessionId) (reason : Interrupt)
  /-- A session ends and unwinding goes on. -/
  | propagated (id : SessionId) (level depth : Nat)
  /-- A session ends where unwinding ends. -/
  | ended (id : SessionId) (level : Nat)
  /-- The user gave the line up. -/
  | cancelled
  /-- A line was read. -/
  | lineRead (text : String)
  /-- A command was called. -/
  | dispatched (usage : String)
  /-- The host could not tell whether a text is complete. -/
  | undecided (f : Fault)
  /-- A text is not complete, for a reason. -/
  | incomplete (reason : String)
  /-- A session evaluates a unit in its context. -/
  | evaluating (id : SessionId) (context : H.Context) (source : String)
  /-- A session evaluates the source of a command in its context. -/
  | consulting (id : SessionId) (context : H.Context) (source : String)
  /-- A unit had a value. -/
  | valued (id : SessionId) (v : Value)
  /-- A unit had a fault. -/
  | faulted (id : SessionId) (f : Fault)
  /-- An outcome is handed to be printed. -/
  | printed (id : SessionId) (outcome : Outcome)

namespace Event

variable {H : Host}

/-- The text of an event in a trace, if it shows there. -/
def trace? : Event H → Option String
  | .started id depth receiver =>
    some (s!"DEBUG session start session={id} entry_depth={depth} receiver=" ++ receiver.inspect)
  | .pushed id depth => some s!"DEBUG frame pushed session={id} depth={depth}"
  | .popped depth found => some s!"DEBUG frame popped depth={depth} popped={found}"
  | .aborted id reason => some (s!"DEBUG session aborted session={id} reason=" ++ reason.display)
  | .propagated id level depth =>
    some s!"DEBUG breakout propagated session={id} level={level} entry_depth={depth}"
  | .ended id level => some s!"DEBUG session end session={id} level={level}"
  | .cancelled => some "TRACE input interrupted; discarding pending buffer"
  | .lineRead text => some ("TRACE line read line=" ++ text)
  | .dispatched usage => some ("DEBUG command dispatched command=" ++ usage)
  | .undecided f =>
    some ("TRACE completeness check failed; treating as incomplete fault=" ++ f.display)
  | .incomplete reason => some ("TRACE unit not complete yet error=" ++ reason)
  | .faulted _ f => some ("DEBUG evaluation fault captured fault=" ++ f.display)
  | _ => none

/-- The text that an event adds to the output. -/
def output : Event H → String
  | .wrote piece => piece.shown
  | _ => ""

end Event

/-- An event, and what could be seen when it happened. -/
structure Moment (H : Host) where
  event : Event H
  view : Snapshot
  /-- The state of the host. -/
  host : H.State

end CalcShell
