import CalcShell.Session.Engine

/-!
# Sessions in reports

One-line descriptions of sessions and of command tables.
-/

namespace CalcShell

/-- A description with named parts, of which not all are shown if `more`. -/
def described (name : String) (parts : List (String × String)) (more : Bool) : String :=
  let parts := parts.map fun (field, text) => field ++ ": " ++ text
  name ++ " \x7b " ++ String.intercalate ", " (if more then parts ++ [".."] else parts) ++ " \x7d"

/-- A list of descriptions. -/
def describedList (items : List String) : String := "[" ++ String.intercalate ", " items ++ "]"

/-- The description of a key. -/
def Command.Key.describe : Command.Key → String
  | .literal text => "Literal(" ++ Text.quoted text ++ ")"
  | .pattern p => "Pattern(Regex(" ++ Text.quoted p.render ++ "))"

/-- The description of a command. -/
def Command.Listing.describe (l : Command.Listing) : String :=
  described "Command"
    [("keys", describedList (l.keys.map Command.Key.describe)), ("usage", Text.quoted l.usage)] true

/-- The description of a command table. -/
def Command.Table.describe {H : Host} (t : Command.Table H) : String :=
  described "CommandSet"
    [("commands", describedList (t.listings.map Command.Listing.describe))] false

/-- The description of what a session is made of. -/
def Config.describe {H : Host} (c : Config H) : String :=
  described "Config"
    [("commands", toString c.commands.length),
      ("hooks", describedList (c.hooks.map fun h => Text.quoted h.1))] true

/-- The description of a session. -/
def Session.describe {H : Host} (s : Session H) : String :=
  described "Session"
    [("id", s!"SessionId({s.id})"), ("config", s.config.describe)] true

end CalcShell
