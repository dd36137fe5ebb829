import CalcShell.Command.Pattern
import CalcShell.Session.Host
import CalcShell.Session.Sink
import CalcShell.Session.Snapshot
import CalcShell.Text.Trim

/-!
# Commands

A line that a command's keys match is not read as source: the handler of the command is called
instead. Commands stand in a table, and the first one that matches is taken.

What a handler does is a `Plan`, made from the call: it asks for deeds, one after the other, and
goes on with what they give. A deed may be interrupted, and then so is the plan, unless it asks to
be told how the deed ended.
-/

namespace CalcShell

namespace Command

/-- What a command is called by (`Matcher`). -/
inductive Key where
  /-- A line that is exactly the text. -/
  | literal (text : String)
  /-- A line in which the pattern matches. -/
  | pattern (p : Pattern)

/-- The parts that a key captures of a line it matches. -/
def Key.captures? : Key → String → Option (List (Option String))
  | .literal text, line => if text = line then some [] else none
  | .pattern p, line => p.captures? line

/-- What a command is called by and how it is shown (`Command`). -/
structure Listing where
  keys : List Key
  usage : String
  description : String

namespace Listing

/-- The parts that the first matching key captures (`matches`). -/
def captures? (l : Listing) (line : String) : Option (List (Option String)) :=
  l.keys.findSome? fun k => k.captures? line

/-- Whether a name is the first word of one of the ways a command is shown to be used. -/
def isNamed (name : String) (l : Listing) : Bool :=
  (l.usage.splitOn ", ").any fun usage => (Text.words usage).head? = some name

/-- The command that a name means: the one it calls, or else the first that it names (`lookup`). -/
def lookup? (ls : List Listing) (name : String) : Option Listing :=
  (ls.find? fun l => (l.captures? (Text.trim name)).isSome).or (ls.find? (isNamed name))

end Listing

/-! ## Handlers -/

/-- What a handler is called with (`CommandContext`): the line as it was read, the parts captured of
it, the open sessions, the context of the session, and the commands that it has. -/
structure Call (H : Host) where
  line : String
  captures : List (Option String)
  stack : List Frame
  context : H.Context
  listings : List Listing

namespace Call

variable {H : Host}

/-- The first captured part (`capture`). -/
def argument? (c : Call H) : Option String := c.captures.head?.join

/-- The level of the innermost session (`level`). -/
def level (c : Call H) : Nat := levelOf c.stack

end Call

/-- What a handler may ask of the session that called it. -/
inductive Deed (H : Host) where
  /-- To write something. -/
  | write (w : Writing)
  /-- To evaluate a source in a context. -/
  | evaluate (context : H.Context) (source : String)
  /-- To print an outcome. -/
  | print (outcome : Outcome)
  /-- To open a session inside of it. -/
  | nest (target : Target H.Context)

/-- What comes of a deed. -/
def Deed.Result {H : Host} : Deed H → Type
  | .write _ => Unit
  | .evaluate _ _ => Outcome
  | .print _ => Unit
  | .nest _ => Value

/-- What can be seen while a handler runs: the pending text, the open sessions and the state of the
host. -/
structure Sight (H : Host) where
  pending : String
  view : Snapshot
  host : H.State

/-- What a handler does. -/
inductive Plan (H : Host) where
  /-- Nothing more. -/
  | done
  /-- It interrupts. -/
  | interrupt (i : Interrupt)
  /-- It changes the pending text. -/
  | edit (f : String → String) (next : Plan H)
  /-- It looks at what can be seen. -/
  | look (next : Sight H → Plan H)
  /-- It asks for a deed and goes on with what comes of it. -/
  | act (d : Deed H) (next : d.Result → Plan H)
  /-- It asks for a deed and goes on however that ended. -/
  | attempt (d : Deed H) (next : Except Interrupt d.Result → Plan H)

end Command

/-- A command: what it is called by, how it is shown and what it does. -/
structure Command (H : Host) extends Command.Listing where
  handler : Command.Call H → Command.Plan H

namespace Command

/-- Commands in the order in which they are tried (`CommandSet`). -/
abbrev Table (H : Host) := List (Command H)

namespace Table

variable {H : Host}

/-- How the commands are called and shown. -/
def listings (t : Table H) : List Listing := t.map Command.toListing

/-- The first command that matches a line without the blanks around it, and what it captures
(`find`). -/
def find? (t : Table H) (line : String) : Option (Command H × List (Option String)) :=
  t.findSome? fun c => (c.captures? (Text.trim line)).map fun captures => (c, captures)

end Table

end Command

end CalcShell
