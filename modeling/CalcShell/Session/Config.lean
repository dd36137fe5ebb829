import CalcShell.Command.Standard

/-!
# How a session presents itself

The parts of a session that can be chosen: its input, its commands, its prompts, how outcomes are
printed and what is written when it begins and ends. A session takes over what it is not given from
the defaults.
-/

namespace CalcShell

/-- The prompts: one for a new unit, one for going on with a unit. Each is made from the receiver
and the level. -/
structure Prompts where
  fresh : Value → Nat → String
  continuation : Value → Nat → String

namespace Prompts

/-- Prompts that start with a label (`labelled`). -/
def labelled (label : String) : Prompts where
  fresh receiver level := label ++ "(" ++ receiver.display ++ s!")[{level}]> "
  continuation receiver level := label ++ "(" ++ receiver.display ++ s!")[{level}]* "

/-- The prompts of a session that is given no others. -/
def standard : Prompts := labelled "nest"

/-- Prompts that show all they are given. -/
def tagged : Prompts where
  fresh receiver level := "F:" ++ receiver.inspect ++ s!":{level}"
  continuation receiver level := "C:" ++ receiver.inspect ++ s!":{level}"

/-- The prompt for a new unit or for going on with one (`select`). -/
def select (p : Prompts) (fresh : Bool) : Value → Nat → String :=
  if fresh then p.fresh else p.continuation

end Prompts

/-- What is written on an occasion, made from the values it concerns. -/
abbrev Hook := List Value → Writing

namespace Hook

/-- A line that starts with a text and ends with the first value. -/
def banner (text : String) : Hook := fun args =>
  .line [text, (args.head?.map Value.inspect).getD ""]

/-- A line with a text and all values. -/
def announce (text : String) : Hook := fun args =>
  .texts [text, "[", String.intercalate "|" (args.map Value.display), "]\n"]

/-- A failure. -/
def fail (message : String) : Hook := fun _ => .fail (.other message)

end Hook

/-- The hooks of a session, by the names of the occasions. -/
abbrev Hooks := List (String × Hook)

/-- The occasion that a session begins. -/
def beforeSession : String := "before_session"

/-- The occasion that a session ends. -/
def afterSession : String := "after_session"

namespace Hooks

/-- Lines at the begin and at the end of a session that name its receiver. -/
def standard : Hooks :=
  [(beforeSession, .banner "Beginning session for "), (afterSession, .banner "Ending session for ")]

/-- Whether there is a hook for an occasion (`contains`). -/
def has (h : Hooks) (name : String) : Bool := (List.lookup name h).isSome

/-- What is written on an occasion: what the hook writes, flushed, if there is one (`fire`). -/
def writing (h : Hooks) (name : String) (args : List Value) : Writing :=
  match List.lookup name h with
  | none => ⟨[], none⟩
  | some hook => (hook args).flushed

end Hooks

/-- How an outcome is printed. -/
abbrev Print := Outcome → Writing

namespace Print

/-- An arrow and the value, or the fault (`print_outcome`). -/
def standard : Print
  | .value v => .line ["=> ", v.inspect]
  | .fault f => .line [f.kind, ": ", f.message]

/-- The bare parts of an outcome in brackets behind a letter. -/
def tagged : Print
  | .value v => .texts ["V<", v.display, ">\n"]
  | .fault f => .texts ["F<", f.kind, "|", f.message, ">\n"]

/-- A failure. -/
def fail (message : String) : Print := fun _ => .fail (.other message)

end Print

/-- What a session is made of. -/
structure Config (H : Host) where
  /-- The number of the input it reads from. -/
  input : Nat
  commands : Command.Table H
  print : Print
  prompts : Prompts
  hooks : Hooks

namespace Config

/-- The standard parts, around an input. -/
def standard {H : Host} (input : Nat) : Config H where
  input := input
  commands := Command.standard
  print := .standard
  prompts := .standard
  hooks := .standard

end Config

/-- The parts that a session is given. -/
structure Overrides (H : Host) where
  input : Option Nat := none
  commands : Option (Command.Table H) := none
  print : Option Print := none
  prompts : Option Prompts := none
  hooks : Option Hooks := none

/-- The parts given, and the others as they were (`merge`). -/
def Config.merge {H : Host} (c : Config H) (o : Overrides H) : Config H where
  input := o.input.getD c.input
  commands := o.commands.getD c.commands
  print := o.print.getD c.print
  prompts := o.prompts.getD c.prompts
  hooks := o.hooks.getD c.hooks

end CalcShell
