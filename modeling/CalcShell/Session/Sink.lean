import CalcShell.Outcome

/-!
# Output

What is written goes to a sink piece by piece. A piece is a text, or asks to flush what was written
before. A sink may refuse a piece, depending on what it took before. Something to write is a
`Writing`: its pieces in order and, at the end, possibly a failure of its own.
-/

namespace CalcShell

/-- What is handed to a sink at once. -/
inductive Piece where
  | text (s : String)
  /-- What was written before is to get to where it goes. -/
  | flush
deriving DecidableEq, Repr

/-- The text of a piece. -/
def Piece.shown : Piece → String
  | .text s => s
  | .flush => ""

/-- Something to write: pieces in order, and then possibly a failure. -/
structure Writing where
  pieces : List Piece
  failure : Option IoError := none
deriving DecidableEq

namespace Writing

/-- Texts in order. -/
def texts (ss : List String) : Writing := ⟨ss.map .text, none⟩

/-- Texts and a line end. -/
def line (ss : List String) : Writing := texts (ss ++ ["\n"])

/-- Nothing but a failure. -/
def fail (e : IoError) : Writing := ⟨[], some e⟩

/-- The same, and flushed at the end if it does not fail. -/
def flushed (w : Writing) : Writing :=
  match w.failure with
  | none => ⟨w.pieces ++ [.flush], none⟩
  | some e => ⟨w.pieces, some e⟩

@[simp]
theorem flushed_failure (w : Writing) : w.flushed.failure = w.failure := by
  unfold flushed
  split <;> simp [*]

/-- The text of all that is written. -/
def text (w : Writing) : String := String.join (w.pieces.map Piece.shown)

end Writing

/-- Where text is written to. -/
structure Sink where
  /-- Whether the sink, which took the pieces so far (the last one first), refuses the next piece.
  -/
  refuses : List Piece → Piece → Option IoError := fun _ _ => none
  /-- The pieces taken, the last one first. -/
  written : List Piece := []

namespace Sink

/-- The text taken so far. -/
def text (s : Sink) : String := String.join (s.written.reverse.map Piece.shown)

/-- The sink after it took a piece, or why it refused. -/
def take (s : Sink) (piece : Piece) : Except IoError Sink :=
  match s.refuses s.written piece with
  | some e => .error e
  | none => .ok { s with written := piece :: s.written }

/-- The sink after pieces were written to it in order, up to the first one that it refuses. Where a
piece is empty there is nothing to write and so nothing to refuse. -/
def takeAll (s : Sink) : List Piece → Option IoError × Sink
  | [] => (none, s)
  | p :: ps =>
    if p = .text "" then s.takeAll ps
    else
      match s.take p with
      | .error e => (some e, s)
      | .ok s => s.takeAll ps

/-- The number of line ends in pieces. -/
def lineEnds (pieces : List Piece) : Nat :=
  pieces.foldl (fun n p => n + p.shown.toList.count '\n') 0

/-- A sink that closes once it took the given number of line ends. It can be flushed all the same.
-/
def closingAfter (lines : Nat) : Sink where
  refuses written
    | .text _ => if lines ≤ lineEnds written then some (.other "sink closed") else none
    | .flush => none

end Sink

end CalcShell
