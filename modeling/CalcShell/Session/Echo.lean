import CalcShell.Session.Oracle
import CalcShell.Text.Natural

/-!
# A host that echoes

A host without a language, to try sessions with: a unit has itself as its value, apart from a few
words that fail, unwind or open a session. It keeps every source that it was given.
-/

namespace CalcShell.Echo

/-- A context: what it is around and its number. -/
structure Context where
  receiver : Value
  id : Nat
deriving DecidableEq

/-- What the host keeps. -/
structure State where
  /-- The sources given, in order. -/
  sources : List String := []
  /-- The bindings of each context, the latest first. -/
  bindings : List (List (String × Value)) := [[]]

/-- The value of a name in a context. -/
def State.lookup (s : State) (c : Context) (name : String) : Option Value :=
  (s.bindings[c.id]?).bind (List.lookup name)

/-- A new context around a value. -/
def anchor (v : Value) (s : State) : Context × State :=
  (⟨v, s.bindings.length⟩, { s with bindings := s.bindings ++ [[]] })

/-- Binds a name in a context. -/
def bind (c : Context) (name : String) (v : Value) (s : State) : State :=
  { s with bindings := s.bindings.modify c.id ((name, v) :: ·) }

/-- What stands behind a word and a space. -/
def behind? (word text : String) : Option String :=
  let front := word.toList ++ [' ']
  if front.isPrefixOf text.toList then
    some (String.ofList (text.toList.drop front.length))
  else none

/-- The value of a unit that is no special word: what it names, or itself. -/
def plain (c : Context) (text : String) (s : State) : Value := (s.lookup c text).getD (.str text)

/-- Evaluates a source. -/
def evaluate (c : Context) (source : String) (s : State) : Course Context State Outcome :=
  let s := { s with sources := s.sources ++ [source] }
  let text := Text.trim source
  if text = "boom" then .done (.fault ⟨"RuntimeError", "boom"⟩) s
  else if text = "quit!" then .interrupt (.exit 7) s
  else
    match behind? "unwind" text, behind? "nest" text with
    | some level, _ => .interrupt (.breakout ((Text.natural? level).getD 0)) s
    | none, some name => .nest (.object (.str name)) s fun v s => .done (.value v) s
    | none, none => .done (.value (plain c text s)) s

/-- The host that echoes, with `receiver` as what its top level is held on. -/
def host (receiver : Value) : Host where
  State := State
  Context := Context
  decEq := inferInstance
  initial := {}
  top := ⟨receiver, 0⟩
  topReceiver := receiver
  receiver := Context.receiver
  anchor := anchor
  detach := anchor
  bind := bind
  names _ _ := []
  evaluate _ := evaluate
  judge := Oracle.balanced

end CalcShell.Echo
