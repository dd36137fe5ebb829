import CalcShell.Command.Table
import CalcShell.Text.Natural

/-!
# The standard commands

The commands that a session has unless it is given others. Each of them empties the pending text
first, so that its line is never read as source.
-/

namespace CalcShell.Command

namespace Pattern

/-- The characters of a text, one after the other, and then a pattern. -/
def word (text : String) (p : Pattern) : Pattern :=
  text.toList.foldr (fun c q => .seq (.one (.only c)) q) p

/-- The word `help`, alone or with a name behind it. -/
def help : Pattern :=
  .seq .start <| word "help" <|
    .seq (.opt (.seq (.oneOrMore .blank) (.group 0 (.oneOrMore .solid)))) .stop

/-- The word `cd` and two points. -/
def cdUp : Pattern :=
  .seq .start <| word "cd" <| .seq (.many .blank) <| word ".." .stop

/-- The word `cd` and a source. -/
def cd : Pattern :=
  .seq .start <| word "cd" <| .seq (.oneOrMore .blank) <| .seq (.group 0 (.oneOrMore .any)) .stop

/-- The word `jump_to` and a level, which may be missing. -/
def jumpTo : Pattern :=
  .seq .start <| word "jump_to" <| .seq (.many .blank) <| .seq (.group 0 (.many .digit)) .stop

end Pattern

/-! ## Answers -/

/-- The list of commands, with the descriptions below one another (`render_help`). -/
def helpTable (ls : List Listing) : List Writing :=
  let width := (ls.map fun l => l.usage.length).foldl max 0
  .line ["Command list:"] :: .line ["--"] ::
    ls.map fun l =>
      let padding := String.ofList (List.replicate (width - l.usage.length) ' ')
      .line [l.usage, padding, "  ", l.description]

/-- What a command is for (`render_command_help`). -/
def helpCommand (l : Listing) : List Writing :=
  [.line [l.usage], .line ["  ", l.description]]

/-- The answer to a call for help, on all commands or on the one named. -/
def helpFor (ls : List Listing) (name : Option String) : List Writing :=
  match name with
  | none => helpTable ls
  | some name =>
    match Listing.lookup? ls name with
    | some l => helpCommand l
    | none => [.line ["No such command: ", name]]

/-- The line for an open session. -/
def frameLine (f : Frame) : Writing :=
  if f.depth = 0 then .line [toString f.depth, ". ", f.receiver.inspect, " (top level)"]
  else .line [toString f.depth, ". ", f.receiver.inspect]

/-- The lines for the open sessions, outermost first. -/
def nestingLines (stack : List Frame) : List Writing :=
  .line ["Nesting status:"] :: .line ["--"] :: stack.map frameLine

/-- The lines on receiver, level and last result. -/
def statusLines (receiver : Value) (level : Nat) (last : Value) : List Writing :=
  [.line ["Status:"], .line ["--"], .line ["Receiver: ", receiver.inspect],
    .line ["Nesting level: ", toString level], .line ["Last result: ", last.inspect]]

/-- The level that a command names: the outermost if it names none. -/
def requestedLevel? (raw : String) : Option Nat := if raw = "" then some 0 else Text.natural? raw

/-- Says which levels there are to jump to. -/
def refuseLevel (level : Nat) (raw : String) : Writing :=
  .line ["Invalid nest level. Must be between 0 and ", toString ((level : Int) - 1), ". Got ",
    if raw = "" then "0" else raw, "."]

/-! ## Handlers -/

namespace Plan

variable {H : Host}

/-- Empties the pending text first. -/
def cleared (p : Plan H) : Plan H := .edit (fun _ => "") p

/-- Writes several things in order. -/
def answer : List Writing → Plan H
  | [] => .done
  | w :: ws => .act (.write w) fun _ => answer ws

/-- Opens a session on the value of the captured source. -/
def enter (c : Call H) : Plan H :=
  match c.argument? with
  | none => .done
  | some source =>
    .act (.evaluate c.context source) fun
      | .value v => .act (.nest (.object v)) fun _ => .done
      | .fault f => .act (.print (.fault f)) fun _ => .done

/-- Unwinds to the captured level, or says why not. -/
def jump (c : Call H) : Plan H :=
  match requestedLevel? (c.argument?.getD "") with
  | some n =>
    if n = c.level then answer [.line ["Already at nesting level ", toString c.level]]
    else if n < c.level then .interrupt (.breakout (n + 1))
    else answer [refuseLevel c.level (c.argument?.getD "")]
  | none => answer [refuseLevel c.level (c.argument?.getD "")]

end Plan

/-- The standard commands (`standard`). -/
def standard {H : Host} : Table H :=
  [⟨⟨[.literal "exit_program", .literal "quit_program"], "exit_program, quit_program",
        "End the program"⟩,
      fun _ => .cleared <| .interrupt (.exit 0)⟩,
    ⟨⟨[.literal "!"], "!", "Clear the input buffer"⟩,
      fun _ => .cleared <| .answer [.line ["Input buffer cleared"]]⟩,
    ⟨⟨[.pattern .help], "help [name]", "Show the command list, or the help for one command"⟩,
      fun c => .cleared <| .answer (helpFor c.listings c.argument?)⟩,
    ⟨⟨[.literal "nesting"], "nesting", "Show the nesting stack"⟩,
      fun c => .cleared <| .answer (nestingLines c.stack)⟩,
    ⟨⟨[.literal "status"], "status", "Show receiver, nesting level and last result"⟩,
      fun c => .cleared <| .look fun sight =>
        .answer (statusLines (H.receiver c.context) c.level sight.view.last)⟩,
    ⟨⟨[.literal "ls"], "ls", "List the names bound in this context"⟩,
      fun c => .cleared <| .look fun sight =>
        .answer [.line [(Value.list ((H.names c.context sight.host).map .str)).inspect]]⟩,
    ⟨⟨[.literal "exit_all"], "exit_all",
        "Leave every session back to the caller of the top level"⟩,
      fun _ => .cleared <| .interrupt (.breakout 0)⟩,
    ⟨⟨[.literal "exit", .literal "quit", .literal "back", .pattern .cdUp], "exit, quit, back",
        "Leave the current session (`cd ..` does the same)"⟩,
      fun c => .cleared <| .interrupt (.breakout c.level)⟩,
    ⟨⟨[.pattern .cd], "cd <expr>", "Start a nested session on the value of <expr>"⟩,
      fun c => .cleared <| .enter c⟩,
    ⟨⟨[.pattern .jumpTo], "jump_to <level>", "Unwind to the given nesting level"⟩,
      fun c => .cleared <| .jump c⟩]

end CalcShell.Command
