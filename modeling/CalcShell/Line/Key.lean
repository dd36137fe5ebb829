import CalcShell.Text.Utf8

/-!
# Keys

What a terminal sends: control bytes, escape sequences for the arrow keys, and characters in UTF-8.
-/

namespace CalcShell.Line

/-- A key, by what it is for. -/
inductive Key where
  | enter
  /-- Gives the line up. -/
  | cancel
  /-- Deletes to the right, or ends the input on an empty line. -/
  | delete
  | backspace
  | left
  | right
  | up
  | down
  | home
  | finish
  /-- Empties the line. -/
  | kill
  | char (c : Char)
  /-- A key without a use. -/
  | other
deriving DecidableEq, Repr

/-- What is at the front of the bytes. -/
inductive KeyRead where
  /-- There are no bytes left. -/
  | none
  /-- A key, and the bytes behind it. -/
  | key (k : Key) (rest : List UInt8)
  /-- The bytes end within a character. -/
  | truncated
deriving DecidableEq, Repr

/-- The control keys of one byte. -/
def controlKey? (b : UInt8) : Option Key :=
  if b = 0x0d || b = 0x0a then some .enter
  else if b = 0x01 then some .home
  else if b = 0x03 then some .cancel
  else if b = 0x04 then some .delete
  else if b = 0x05 then some .finish
  else if b = 0x15 then some .kill
  else if b = 0x08 || b = 0x7f then some .backspace
  else if b ≤ 0x1f then some .other
  else none

/-- The keys that the last byte of an escape sequence tells apart. -/
def arrowKey (b : UInt8) : Key :=
  if b = 0x41 then .up
  else if b = 0x42 then .down
  else if b = 0x43 then .right
  else if b = 0x44 then .left
  else if b = 0x48 then .home
  else if b = 0x46 then .finish
  else .other

/-- The key of an escape sequence (`escape_sequence`), whose first byte is already read. A sequence
that breaks off or is not known has no use. -/
def escapeKey : List UInt8 → KeyRead
  | [] => .key .other []
  | b :: bs =>
    if b = 0x5b then
      match bs with
      | [] => .key .other []
      | c :: cs => .key (arrowKey c) cs
    else .key .other bs

/-- The character that starts with `lead` (`decode_utf8`). Bytes that make no character have
no use. -/
def charKey (lead : UInt8) (bs : List UInt8) : KeyRead :=
  match Text.Utf8.followers? lead with
  | none => .key .other bs
  | some n =>
    if bs.length < n then .truncated
    else
      match Text.Utf8.decodeChar? (lead :: bs.take n) with
      | some c => .key (.char c) (bs.drop n)
      | none => .key .other (bs.drop n)

/-- The key at the front of the bytes (`next_key`). -/
def nextKey : List UInt8 → KeyRead
  | [] => .none
  | b :: bs =>
    if b = 0x1b then escapeKey bs
    else
      match controlKey? b with
      | some k => .key k bs
      | none => charKey b bs

/-- A key takes at least one byte. -/
theorem nextKey_length {bs rest : List UInt8} {k : Key} (h : nextKey bs = .key k rest) :
    rest.length < bs.length := by
  cases bs with
  | nil => simp [nextKey] at h
  | cons b bs =>
    simp only [nextKey] at h
    split at h
    · cases bs with
      | nil => simp only [escapeKey] at h; cases h; simp
      | cons c cs =>
        simp only [escapeKey] at h
        split at h
        · cases cs with
          | nil => cases h; simp
          | cons d ds => cases h; simp only [List.length_cons]; omega
        · cases h; simp only [List.length_cons]; omega
    · split at h
      · cases h; simp
      · unfold charKey at h
        split at h
        · cases h; simp
        · split at h
          · simp at h
          · split at h
            · cases h; simp only [List.length_drop, List.length_cons]; omega
            · cases h; simp only [List.length_drop, List.length_cons]; omega

end CalcShell.Line
