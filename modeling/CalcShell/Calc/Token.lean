import CalcShell.Calc.Position

/-!
# Tokens

The words of the language. A token keeps its text and where it starts; the end of the source is a
place, which the parser sees as one last token without text.
-/

namespace CalcShell.Calc

/-- The kinds of token. -/
inductive TokenKind where
  | eof
  | newline
  | semi
  | lparen
  | rparen
  | lbrack
  | rbrack
  | comma
  | equal
  | equalEqual
  | notEqual
  | less
  | lessEqual
  | greater
  | greaterEqual
  | plus
  | minus
  | star
  | slash
  | percent
  | bang
  | andAnd
  | orOr
  | int
  | str
  | ident
  | kwLet
  | kwDo
  | kwEnd
  | kwIf
  | kwThen
  | kwElse
  | kwWhile
  | kwTrue
  | kwFalse
  | kwNil
  | kwSelf
deriving DecidableEq, Repr

namespace TokenKind

/-- The name of a kind in messages. -/
def label : TokenKind → String
  | .eof => "EOF"
  | .newline => "NEWLINE"
  | .semi => "SEMI"
  | .lparen => "LPAREN"
  | .rparen => "RPAREN"
  | .lbrack => "LBRACK"
  | .rbrack => "RBRACK"
  | .comma => "COMMA"
  | .equal => "EQUAL"
  | .equalEqual => "EQ"
  | .notEqual => "NE"
  | .less => "LT"
  | .lessEqual => "LE"
  | .greater => "GT"
  | .greaterEqual => "GE"
  | .plus => "PLUS"
  | .minus => "MINUS"
  | .star => "STAR"
  | .slash => "SLASH"
  | .percent => "PERCENT"
  | .bang => "BANG"
  | .andAnd => "ANDAND"
  | .orOr => "OROR"
  | .int => "INT"
  | .str => "STRING"
  | .ident => "IDENT"
  | .kwLet => "LET"
  | .kwDo => "DO"
  | .kwEnd => "END"
  | .kwIf => "IF"
  | .kwThen => "THEN"
  | .kwElse => "ELSE"
  | .kwWhile => "WHILE"
  | .kwTrue => "TRUE"
  | .kwFalse => "FALSE"
  | .kwNil => "NIL"
  | .kwSelf => "SELF"

/-- The words that are not names (`keyword`). -/
def keyword? (word : String) : Option TokenKind :=
  match word with
  | "let" => some .kwLet
  | "do" => some .kwDo
  | "end" => some .kwEnd
  | "if" => some .kwIf
  | "then" => some .kwThen
  | "else" => some .kwElse
  | "while" => some .kwWhile
  | "true" => some .kwTrue
  | "false" => some .kwFalse
  | "nil" => some .kwNil
  | "self" => some .kwSelf
  | _ => none

/-- The operators of two characters. -/
def pair? (c d : Char) : Option TokenKind :=
  match c, d with
  | '=', '=' => some .equalEqual
  | '!', '=' => some .notEqual
  | '<', '=' => some .lessEqual
  | '>', '=' => some .greaterEqual
  | '&', '&' => some .andAnd
  | '|', '|' => some .orOr
  | _, _ => none

/-- The operators and marks of one character. -/
def single? (c : Char) : Option TokenKind :=
  match c with
  | ';' => some .semi
  | '(' => some .lparen
  | ')' => some .rparen
  | '[' => some .lbrack
  | ']' => some .rbrack
  | ',' => some .comma
  | '=' => some .equal
  | '<' => some .less
  | '>' => some .greater
  | '+' => some .plus
  | '-' => some .minus
  | '*' => some .star
  | '/' => some .slash
  | '%' => some .percent
  | '!' => some .bang
  | _ => none

end TokenKind

/-- A token: its kind, its text (for a string, what it stands for) and where it starts. -/
structure Token where
  kind : TokenKind
  text : String
  position : Position
deriving DecidableEq, Repr

/-- The tokens of a source and the place where it ends. -/
structure TokenStream where
  tokens : List Token
  stop : Position
deriving DecidableEq, Repr

namespace TokenStream

/-- The token that stands for the end of the source. -/
def last (s : TokenStream) : Token := ⟨.eof, "", s.stop⟩

/-- All tokens, the end included. -/
def all (s : TokenStream) : List Token := s.tokens ++ [s.last]

/-- The token at the front. -/
def peek (s : TokenStream) : Token := s.tokens.headD s.last

/-- The stream without the token at the front; the end stays. -/
def advance (s : TokenStream) : TokenStream := { s with tokens := s.tokens.tail }

/-- The number of tokens before the end. -/
def size (s : TokenStream) : Nat := s.tokens.length

end TokenStream

end CalcShell.Calc
