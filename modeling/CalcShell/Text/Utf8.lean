/-!
# Characters in bytes

Reading UTF-8: a whole text at once, one character at a time, and a text in which every broken part
is shown as the replacement character.
-/

namespace CalcShell.Text.Utf8

/-- The text that the bytes encode, if they are well formed throughout. -/
def decode? (bytes : List UInt8) : Option String := String.fromUTF8? bytes.toByteArray

/-- The character at the front of the bytes, if they start with a well-formed one. -/
def decodeChar? (bytes : List UInt8) : Option Char := bytes.toByteArray.utf8DecodeChar? 0

/-- The bytes of a text. -/
def encode (s : String) : List UInt8 := s.toUTF8.toList

/-- How many bytes follow the first byte of a character, if `lead` can be one. -/
def followers? (lead : UInt8) : Option Nat :=
  if lead ≤ 0x7f then some 0
  else if 0xc2 ≤ lead && lead ≤ 0xdf then some 1
  else if 0xe0 ≤ lead && lead ≤ 0xef then some 2
  else if 0xf0 ≤ lead && lead ≤ 0xf4 then some 3
  else none

/-- Whether the byte can continue a character. -/
def isContinuation (b : UInt8) : Bool := 0x80 ≤ b && b ≤ 0xbf

/-- Whether `second` can come right after `lead`: after some first bytes only a part of the
continuation bytes gives a shortest form of a character that exists. -/
def accepts (lead second : UInt8) : Bool :=
  if lead = 0xe0 then 0xa0 ≤ second && second ≤ 0xbf
  else if lead = 0xed then 0x80 ≤ second && second ≤ 0x9f
  else if lead = 0xf0 then 0x90 ≤ second && second ≤ 0xbf
  else if lead = 0xf4 then 0x80 ≤ second && second ≤ 0x8f
  else isContinuation second

/-- How many bytes after `lead` belong to the same broken part: as many as could still have become a
character. -/
def brokenTail (lead : UInt8) (rest : List UInt8) : Nat :=
  match followers? lead, rest with
  | some n, second :: more =>
    if n = 0 then 0
    else if accepts lead second then 1 + ((more.take (n - 1)).takeWhile isContinuation).length
    else 0
  | _, _ => 0

/-- The character at the front and how many bytes after the first it takes; a broken part counts as
one replacement character. -/
def front (lead : UInt8) (rest : List UInt8) : Char × Nat :=
  match followers? lead with
  | none => ('\ufffd', 0)
  | some n =>
    match decodeChar? (lead :: rest.take n) with
    | some c => (c, n)
    | none => ('\ufffd', brokenTail lead rest)

/-- The characters of the bytes, each broken part shown as one replacement character. -/
def lossyChars : List UInt8 → List Char
  | [] => []
  | lead :: rest =>
    match front lead rest with
    | (c, n) => c :: lossyChars (rest.drop n)
termination_by bytes => bytes.length
decreasing_by simp only [List.length_cons, List.length_drop]; omega

/-- The text of the bytes, each broken part shown as one replacement character. -/
def lossy (bytes : List UInt8) : String := String.ofList (lossyChars bytes)

end CalcShell.Text.Utf8
