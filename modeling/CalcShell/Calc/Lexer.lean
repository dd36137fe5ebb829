import CalcShell.Calc.Diagnostic
import CalcShell.Calc.LineMap
import CalcShell.Number
import CalcShell.Text.Class

/-!
# From characters to tokens

`scan` reads what stands at the front of a source: a gap (blanks or a comment) or a token. It says
which characters it took, and takes at least one, so `lexFrom` ends. A line end is a token, since it
ends a statement.

A `Place` is what is kept of where the source is read. `lex` keeps the offset and has it located
among the lines of the source wherever a token or an error needs its position (`Mark`).
-/

namespace CalcShell.Calc

open Text (isAlphabetic isAlphanumeric isAsciiDigit)

/-- What a name may start with (`is_ident_start`). -/
def isNameStart (c : Char) : Bool := isAlphabetic c || c = '_'

/-- What a name may go on with (`is_ident_continue`). -/
def isNameChar (c : Char) : Bool := isAlphanumeric c || c = '_'

/-- The blanks that separate tokens. -/
def isGapChar (c : Char) : Bool := c = ' ' || c = '\t' || c = '\r'

/-- The character that an escape in a string stands for. -/
def unescape? (c : Char) : Option Char :=
  match c with
  | 'n' => some '\n'
  | 't' => some '\t'
  | '"' => some '"'
  | '\\' => some '\\'
  | _ => none

/-- What stands at the front of a source. -/
structure Lexeme where
  /-- The kind of the token; a gap has none. -/
  kind : Option TokenKind
  /-- The text of the token. -/
  text : String
  /-- The characters it is written with. -/
  raw : List Char
  /-- The characters behind it. -/
  rest : List Char

namespace Lexeme

/-- Characters that make no token. -/
def gap (raw rest : List Char) : Lexeme := ⟨none, "", raw, rest⟩

/-- A token whose text is how it is written. -/
def word (kind : TokenKind) (raw rest : List Char) : Lexeme :=
  ⟨some kind, String.ofList raw, raw, rest⟩

/-- The stream with the token of the lexeme, which starts at `p`, in front. -/
def emit (l : Lexeme) (p : Position) (s : TokenStream) : TokenStream :=
  match l.kind with
  | none => s
  | some kind => { s with tokens := ⟨kind, l.text, p⟩ :: s.tokens }

end Lexeme

/-- What is kept of a place in a source while the source is read. -/
class Place (P : Type) where
  /-- The place behind a character. -/
  next : P → Char → P
  /-- The position of the place. -/
  position : P → Position

/-- The place behind the characters `cs`, which stand at `p`. -/
def Place.after {P : Type} [Place P] (p : P) (cs : List Char) : P := cs.foldl Place.next p

/-- An offset in a source whose lines are known. -/
structure Mark where
  src : String
  lines : LineMap
  offset : Nat

instance : Place Mark where
  next p c := { p with offset := p.offset + c.utf8Size }
  position p := p.lines.locate p.src p.offset

/-- The start of a source. -/
def Mark.start (src : String) : Mark := ⟨src, .ofText src, 0⟩

section Scanning

variable {P : Type} [Place P]

/-- The body of a string behind its opening quote: the characters it stands for, those it is written
with (the closing quote included), and those behind it. The string opens at `opening` and the body
goes on at `p`. -/
def scanBody (opening : P) : P → List Char →
    Except SourceError (List Char × List Char × List Char)
  | _, [] => .error ⟨.openString, Place.position opening⟩
  | p, c :: cs =>
    if c = '"' then .ok ([], [c], cs)
    else if c = '\\' then
      match cs with
      | [] => .error ⟨.openString, Place.position opening⟩
      | e :: cs =>
        match unescape? e with
        | none => .error ⟨.badEscape e, Place.position p⟩
        | some d =>
          match scanBody opening (Place.next (Place.next p c) e) cs with
          | .error err => .error err
          | .ok (value, raw, rest) => .ok (d :: value, c :: e :: raw, rest)
    else
      match scanBody opening (Place.next p c) cs with
      | .error err => .error err
      | .ok (value, raw, rest) => .ok (c :: value, c :: raw, rest)

/-- A string, whose opening quote `c` stands at `p`. -/
def scanString (p : P) (c : Char) (cs : List Char) : Except SourceError Lexeme :=
  match scanBody p (Place.next p c) cs with
  | .error e => .error e
  | .ok (value, raw, rest) => .ok ⟨some .str, String.ofList value, c :: raw, rest⟩

/-- A number, whose first digit `c` stands at `p`. -/
def scanNumber (p : P) (c : Char) (cs : List Char) : Except SourceError Lexeme :=
  match Number.ofDigits? (c :: cs.takeWhile isAsciiDigit) with
  | none => .error ⟨.numberRange (String.ofList (c :: cs.takeWhile isAsciiDigit)), Place.position p⟩
  | some _ => .ok (.word .int (c :: cs.takeWhile isAsciiDigit) (cs.dropWhile isAsciiDigit))

/-- The kind of a word: a keyword or else a name. -/
def wordKind (word : List Char) : TokenKind :=
  (TokenKind.keyword? (String.ofList word)).getD .ident

/-- A name or keyword, which starts with `c`. -/
def scanName (c : Char) (cs : List Char) : Lexeme :=
  .word (wordKind (c :: cs.takeWhile isNameChar)) (c :: cs.takeWhile isNameChar)
    (cs.dropWhile isNameChar)

/-- An operator or mark: of two characters where there is one, else of one. -/
def scanSymbol (p : P) (c : Char) (cs : List Char) : Except SourceError Lexeme :=
  match cs.head?.bind (TokenKind.pair? c) with
  | some kind => .ok (.word kind (c :: cs.take 1) (cs.drop 1))
  | none =>
    match TokenKind.single? c with
    | some kind => .ok (.word kind [c] cs)
    | none => .error ⟨.strayChar c, Place.position p⟩

/-- What stands at the front of the source `c :: cs`, which starts at `p`. -/
def scan (p : P) (c : Char) (cs : List Char) : Except SourceError Lexeme :=
  if isGapChar c then .ok (.gap [c] cs)
  else if c = '#' then .ok (.gap (c :: cs.takeWhile (· ≠ '\n')) (cs.dropWhile (· ≠ '\n')))
  else if c = '\n' then .ok (.word .newline [c] cs)
  else if c = '"' then scanString p c cs
  else if isAsciiDigit c then scanNumber p c cs
  else if isNameStart c then .ok (scanName c cs)
  else scanSymbol p c cs

/-- The body of a string is the front of what it is read from. -/
theorem scanBody_append {opening p : P} {cs value raw rest : List Char}
    (h : scanBody opening p cs = .ok (value, raw, rest)) : raw ++ rest = cs := by
  fun_induction scanBody opening p cs generalizing value raw rest with
  | case1 => simp at h
  | case2 =>
    simp only [Except.ok.injEq, Prod.mk.injEq] at h
    obtain ⟨-, rfl, rfl⟩ := h
    rfl
  | case3 => simp at h
  | case4 => simp at h
  | case5 => simp at h
  | case6 _ _ _ _ _ _ _ _ _ hs ih =>
    simp only [Except.ok.injEq, Prod.mk.injEq] at h
    obtain ⟨-, rfl, rfl⟩ := h
    simp [ih hs]
  | case7 => simp at h
  | case8 _ _ _ _ _ _ _ _ hs ih =>
    simp only [Except.ok.injEq, Prod.mk.injEq] at h
    obtain ⟨-, rfl, rfl⟩ := h
    simp [ih hs]

/-- A symbol is the front of what it is read from. -/
theorem scanSymbol_front {p : P} {c : Char} {cs : List Char} {l : Lexeme}
    (h : scanSymbol p c cs = .ok l) : ∃ raw, l.raw = c :: raw ∧ raw ++ l.rest = cs := by
  unfold scanSymbol at h
  split at h
  · cases h
    exact ⟨cs.take 1, rfl, List.take_append_drop 1 cs⟩
  · split at h
    · cases h
      exact ⟨[], rfl, rfl⟩
    · cases h

/-- What is read is the front of the source, and at least its first character. -/
theorem scan_front {p : P} {c : Char} {cs : List Char} {l : Lexeme}
    (h : scan p c cs = .ok l) : ∃ raw, l.raw = c :: raw ∧ raw ++ l.rest = cs := by
  -- One case for each alternative of `scan`, in its order.
  unfold scan at h
  split at h
  · cases h
    exact ⟨[], rfl, rfl⟩
  split at h
  · cases h
    exact ⟨_, rfl, List.takeWhile_append_dropWhile⟩
  split at h
  · cases h
    exact ⟨[], rfl, rfl⟩
  split at h
  · unfold scanString at h
    split at h
    · cases h
    · rename_i hbody
      cases h
      exact ⟨_, rfl, scanBody_append hbody⟩
  split at h
  · unfold scanNumber at h
    split at h
    · cases h
    · cases h
      exact ⟨_, rfl, List.takeWhile_append_dropWhile⟩
  split at h
  · cases h
    exact ⟨_, rfl, List.takeWhile_append_dropWhile⟩
  · exact scanSymbol_front h

theorem scan_append {p : P} {c : Char} {cs : List Char} {l : Lexeme}
    (h : scan p c cs = .ok l) : l.raw ++ l.rest = c :: cs := by
  obtain ⟨raw, hraw, hrest⟩ := scan_front h
  rw [hraw, List.cons_append, hrest]

/-- What is left is shorter than the source. -/
theorem scan_rest_length {p : P} {c : Char} {cs : List Char} {l : Lexeme}
    (h : scan p c cs = .ok l) : l.rest.length < (c :: cs).length := by
  obtain ⟨raw, -, hrest⟩ := scan_front h
  rw [← hrest, List.length_cons, List.length_append]
  omega

/-- The tokens of the source `cs`, which starts at `p`. -/
def lexFrom (p : P) (cs : List Char) : Except SourceError TokenStream :=
  match cs with
  | [] => .ok ⟨[], Place.position p⟩
  | c :: cs =>
    match _h : scan p c cs with
    | .error e => .error e
    | .ok l =>
      match lexFrom (Place.after p l.raw) l.rest with
      | .error e => .error e
      | .ok s => .ok (l.emit (Place.position p) s)
termination_by cs.length
decreasing_by exact scan_rest_length _h

end Scanning

/-- The tokens of a source (`lex`). -/
def lex (src : String) : Except SourceError TokenStream := lexFrom (Mark.start src) src.toList

end CalcShell.Calc
