import CalcShell.Text.Class

/-!
# Quoted text

Two ways to show a text so that nothing in it is invisible. `quoted` puts the text in double quotes
and escapes what would end the quotes or not show; `escaped` leaves only printable ASCII standing.
-/

namespace CalcShell.Text

/-- A character by its number in hexadecimal, as `\u` and braces. -/
def numbered (c : Char) : List Char :=
  ['\\', 'u', '\x7b'] ++ Nat.toDigits 16 c.toNat ++ ['\x7d']

/-- How a character is written between double quotes. -/
def quotedChar (c : Char) : List Char :=
  if c = '\x00' then ['\\', '0']
  else if c = '\t' then ['\\', 't']
  else if c = '\r' then ['\\', 'r']
  else if c = '\n' then ['\\', 'n']
  else if c = '"' then ['\\', '"']
  else if c = '\\' then ['\\', '\\']
  else if isPlain c then [c]
  else numbered c

/-- The characters of a quoted text, quotes included. -/
def quotedChars (cs : List Char) : List Char := '"' :: (cs.flatMap quotedChar ++ ['"'])

/-- The text in double quotes, with the characters that do not show written as escapes. -/
def quoted (s : String) : String := String.ofList (quotedChars s.toList)

/-- How a character is written where only printable ASCII may stand. -/
def escapedChar (c : Char) : List Char :=
  if c = '\t' then ['\\', 't']
  else if c = '\r' then ['\\', 'r']
  else if c = '\n' then ['\\', 'n']
  else if c = '\'' then ['\\', '\'']
  else if c = '"' then ['\\', '"']
  else if c = '\\' then ['\\', '\\']
  else if ' ' ≤ c && c ≤ '~' then [c]
  else numbered c

/-- The text in printable ASCII, without quotes. -/
def escaped (s : String) : String := String.ofList (s.toList.flatMap escapedChar)

end CalcShell.Text
