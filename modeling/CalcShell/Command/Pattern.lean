import CalcShell.Text.Class

/-!
# Patterns

Patterns pick lines and capture parts of them. A pattern may match in several ways; `matchesFrom`
lists the ways in order of preference: an earlier alternative before a later one, more characters
before fewer. A search takes the first way at the earliest place where there is one.

Patterns are written in the usual way: `render` writes one and `parse?` reads one.
-/

namespace CalcShell.Command

/-- Classes of characters. -/
inductive CharClass where
  /-- White space. -/
  | blank
  /-- All but white space. -/
  | solid
  /-- Word characters. -/
  | word
  /-- Decimal digits. -/
  | digit
  /-- All but the line feed. -/
  | any
  /-- One character alone. -/
  | only (c : Char)
deriving DecidableEq, Repr

/-- Whether a character is in a class. Words and digits are those of version 16 of the standard, so
a recent character is neither. -/
def CharClass.has : CharClass → Char → Bool
  | .blank, c => Text.isBlank c
  | .solid, c => !Text.isBlank c
  | .word, c => Text.isWord c && !Text.isRecent c
  | .digit, c => Text.isDecimalDigit c && !Text.isRecent c
  | .any, c => c ≠ '\n'
  | .only d, c => c = d

/-- Patterns. -/
inductive Pattern where
  /-- Nothing. -/
  | empty
  /-- The start of the line. -/
  | start
  /-- The end of the line. -/
  | stop
  /-- One character. -/
  | one (k : CharClass)
  /-- Any number of characters, as many as possible. -/
  | many (k : CharClass)
  /-- At least one character, as many as possible. -/
  | oneOrMore (k : CharClass)
  /-- One pattern after the other. -/
  | seq (p q : Pattern)
  /-- One pattern or else the other. -/
  | alt (p q : Pattern)
  /-- A pattern, if it matches, or else nothing. -/
  | opt (p : Pattern)
  /-- A pattern whose match is captured, under a number. -/
  | group (index : Nat) (p : Pattern)
deriving DecidableEq, Repr

/-- Where a match stands: how many characters are behind it, the characters before it, and where the
captured parts begin and end. -/
structure Cursor where
  pos : Nat
  rest : List Char
  captures : List (Option (Nat × Nat))
deriving DecidableEq, Repr

namespace Cursor

/-- The cursor one character on. -/
def step (s : Cursor) (rest : List Char) : Cursor := { s with pos := s.pos + 1, rest := rest }

/-- The cursors behind the characters of a class in front, the farthest first; `nearer` are those
before this one. -/
def run (k : CharClass) (nearer : List Cursor) (s : Cursor) : List Char → List Cursor
  | [] => s :: nearer
  | c :: cs => if k.has c then run k (s :: nearer) (s.step cs) cs else s :: nearer

/-- The cursor with a part captured that begins at `start` and ends here. -/
def capture (s : Cursor) (index start : Nat) : Cursor :=
  { s with captures := s.captures.set index (some (start, s.pos)) }

end Cursor

namespace Pattern

/-- The number of parts that a pattern captures. -/
def groups : Pattern → Nat
  | .seq p q | .alt p q => p.groups + q.groups
  | .opt p => p.groups
  | .group _ p => p.groups + 1
  | _ => 0

/-- Where the matches of a pattern that begin at a cursor end, the preferred first. -/
def matchesFrom : Pattern → Cursor → List Cursor
  | .empty, s => [s]
  | .start, s => if s.pos = 0 then [s] else []
  | .stop, s => if s.rest.isEmpty then [s] else []
  | .one k, s =>
    match s.rest with
    | [] => []
    | c :: cs => if k.has c then [s.step cs] else []
  | .many k, s => s.run k [] s.rest
  | .oneOrMore k, s =>
    match s.rest with
    | [] => []
    | c :: cs => if k.has c then (s.step cs).run k [] cs else []
  | .seq p q, s => (p.matchesFrom s).flatMap q.matchesFrom
  | .alt p q, s => p.matchesFrom s ++ q.matchesFrom s
  | .opt p, s => p.matchesFrom s ++ [s]
  | .group i p, s => (p.matchesFrom s).map fun t => t.capture i s.pos

/-- The first match at or behind a place, where `cs` are the characters from there. -/
def searchFrom (p : Pattern) (pos : Nat) : List Char → Option Cursor
  | [] => (p.matchesFrom ⟨pos, [], List.replicate p.groups none⟩).head?
  | c :: cs =>
    match (p.matchesFrom ⟨pos, c :: cs, List.replicate p.groups none⟩).head? with
    | some s => some s
    | none => p.searchFrom (pos + 1) cs

/-- The captured parts of the first match in a line; a part that took no part is missing. -/
def captures? (p : Pattern) (line : String) : Option (List (Option String)) :=
  (p.searchFrom 0 line.toList).map fun s => s.captures.map fun part =>
    part.map fun (first, behind) =>
      String.ofList ((line.toList.drop first).take (behind - first))

/-! ## Writing and reading -/

/-- The characters that mean something else in a written pattern. -/
def specials : List Char :=
  ['\\', '.', '+', '*', '?', '(', ')', '|', '[', ']', '\x7b', '\x7d', '^', '$']

/-- How a class is written. -/
def renderClass : CharClass → String
  | .blank => "\\s"
  | .solid => "\\S"
  | .word => "\\w"
  | .digit => "\\d"
  | .any => "."
  | .only c => if specials.contains c then String.ofList ['\\', c] else c.toString

/-- A text in brackets that capture nothing, where it needs them. -/
def wrapped (needed : Bool) (text : String) : String :=
  if needed then "(?:" ++ text ++ ")" else text

/-- How a pattern is written where a part of the given tightness is needed: 0 for alternatives, 1
for sequences, 2 for what a mark behind it applies to. -/
def renderAt (tightness : Nat) : Pattern → String
  | .empty => wrapped (1 < tightness) ""
  | .start => wrapped (1 < tightness) "^"
  | .stop => wrapped (1 < tightness) "$"
  | .one k => renderClass k
  | .many k => wrapped (1 < tightness) (renderClass k ++ "*")
  | .oneOrMore k => wrapped (1 < tightness) (renderClass k ++ "+")
  | .seq p q => wrapped (1 < tightness) (p.renderAt 1 ++ q.renderAt 1)
  | .alt p q => wrapped (0 < tightness) (p.renderAt 0 ++ "|" ++ q.renderAt 0)
  | .opt p => wrapped (1 < tightness) (p.renderAt 2 ++ "?")
  | .group _ p => "(" ++ p.renderAt 0 ++ ")"

/-- How a pattern is written. -/
def render (p : Pattern) : String := p.renderAt 0

/-- A pattern with the mark behind it, if any. Only a class may be repeated. -/
def marked (p : Pattern) : List Char → Option (Pattern × List Char)
  | '?' :: cs => some (.opt p, cs)
  | '*' :: cs => match p with
    | .one k => some (.many k, cs)
    | _ => none
  | '+' :: cs => match p with
    | .one k => some (.oneOrMore k, cs)
    | _ => none
  | cs => some (p, cs)

/-- The class that a character behind a backslash stands for. -/
def escapedClass? (c : Char) : Option CharClass :=
  match c with
  | 's' => some .blank
  | 'S' => some .solid
  | 'w' => some .word
  | 'd' => some .digit
  | _ => if specials.contains c then some (.only c) else none

/-- A pattern and what follows it: its parts, in order. -/
def seqAll : List Pattern → Pattern
  | [] => .empty
  | [p] => p
  | p :: ps => .seq p (seqAll ps)

mutual

/-- Reads alternatives, in at most the given number of steps; `groups` parts are captured before. -/
def parseAlt : Nat → Nat → List Char → Option (Pattern × Nat × List Char)
  | 0, _, _ => none
  | steps + 1, groups, cs => do
    let (ps, groups, cs) ← parseSeq steps groups cs
    match cs with
    | '|' :: cs =>
      let (q, groups, cs) ← parseAlt steps groups cs
      return (.alt (seqAll ps) q, groups, cs)
    | _ => return (seqAll ps, groups, cs)

/-- Reads a sequence. -/
def parseSeq : Nat → Nat → List Char → Option (List Pattern × Nat × List Char)
  | 0, _, _ => none
  | steps + 1, groups, cs => do
    match cs with
    | [] | '|' :: _ | ')' :: _ => return ([], groups, cs)
    | _ =>
      let (p, groups, cs) ← parseAtom steps groups cs
      let (p, cs) ← p.marked cs
      let (ps, groups, cs) ← parseSeq steps groups cs
      return (p :: ps, groups, cs)

/-- Reads what a mark may stand behind. -/
def parseAtom : Nat → Nat → List Char → Option (Pattern × Nat × List Char)
  | 0, _, _ => none
  | steps + 1, groups, cs => do
    match cs with
    | '^' :: cs => return (.start, groups, cs)
    | '$' :: cs => return (.stop, groups, cs)
    | '.' :: cs => return (.one .any, groups, cs)
    | '\\' :: c :: cs => return (.one (← escapedClass? c), groups, cs)
    | '(' :: '?' :: ':' :: cs =>
      let (p, groups, cs) ← parseAlt steps groups cs
      match cs with
      | ')' :: cs => return (p, groups, cs)
      | _ => none
    | '(' :: cs =>
      let (p, after, cs) ← parseAlt steps (groups + 1) cs
      match cs with
      | ')' :: cs => return (.group groups p, after, cs)
      | _ => none
    | c :: cs => if specials.contains c then none else return (.one (.only c), groups, cs)
    | [] => none

end

/-- The pattern that a text writes, if it writes one. -/
def parse? (text : String) : Option Pattern :=
  match parseAlt (3 * text.length + 3) 0 text.toList with
  | some (p, _, []) => some p
  | _ => none

end Pattern

end CalcShell.Command
