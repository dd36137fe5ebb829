import CalcShell.Proofs.Line.Editing

/-!
# What the screen shows

All that a read writes goes to a terminal. For the line being edited one row of it matters (`Row`):
a character is written over the cell at the cursor, a carriage return takes the cursor to the start,
and two escape sequences erase what is behind the cursor and move it to the left.

The main statement is that between any two keys the row shows the prompt and the line, with the
cursor of the terminal at that of the line. Drawing the line again does this whatever the row showed
before (`Row.feed_redraw`), and a key after which the line is not drawn again has not changed it.
-/

namespace CalcShell.Line

/-- Whether a character is a control character, which has no cell of its own. -/
def isControl (c : Char) : Bool := c.toNat < 0x20 || (0x7f ≤ c.toNat && c.toNat ≤ 0x9f)

/-- What the next character is to a row. -/
inductive Row.Mode where
  /-- A character to show, or a control character. -/
  | plain
  /-- The character behind an escape. -/
  | escape
  /-- A character of a sequence, with the number written in it so far. -/
  | sequence (n : Nat)
deriving DecidableEq, Repr

/-- A row of a terminal without an end: the cells up to the last one that is not empty, and the
column of the cursor, which is never behind the first empty cell. -/
structure Row where
  cells : List Char := []
  column : Nat := 0
  mode : Row.Mode := .plain
deriving DecidableEq, Repr

namespace Row

/-- The row after a character. Sequences and control characters without a use are ignored. -/
def take (r : Row) (c : Char) : Row :=
  match r.mode with
  | .plain =>
    if c = '\r' then { r with column := 0 }
    else if c = '\x1b' then { r with mode := .escape }
    else if isControl c then r
    else ⟨r.cells.take r.column ++ c :: r.cells.drop (r.column + 1), r.column + 1, .plain⟩
  | .escape => { r with mode := if c = '[' then .sequence 0 else .plain }
  | .sequence n =>
    if c.isDigit then { r with mode := .sequence (10 * n + (c.toNat - '0'.toNat)) }
    else if c = 'K' then ⟨r.cells.take r.column, r.column, .plain⟩
    else if c = 'D' then ⟨r.cells, r.column - n, .plain⟩
    else { r with mode := .plain }

/-- The row after a text. -/
def feed (r : Row) (s : String) : Row := s.toList.foldl take r

/-- What an empty row shows after a text. -/
def showing (s : String) : Row := feed {} s

theorem feed_append (r : Row) (s t : String) : r.feed (s ++ t) = (r.feed s).feed t := by
  rw [feed, String.toList_append, List.foldl_append]
  rfl

/-- Characters that are shown go over the cells from the cursor on. -/
theorem foldl_take_shown (before behind : List Char) {cs : List Char}
    (hcs : ∀ c ∈ cs, isControl c = false) :
    cs.foldl take ⟨before ++ behind, before.length, .plain⟩ =
      ⟨before ++ cs ++ behind.drop cs.length, (before ++ cs).length, .plain⟩ := by
  induction cs generalizing before behind with
  | nil => simp
  | cons c cs ih =>
    obtain ⟨hc, hcs⟩ := List.forall_mem_cons.1 hcs
    have hput : take ⟨before ++ behind, before.length, .plain⟩ c =
        ⟨(before ++ [c]) ++ behind.drop 1, (before ++ [c]).length, .plain⟩ := by
      have hreturn : c ≠ '\r' := by
        rintro rfl
        cases hc
      have hescape : c ≠ '\x1b' := by
        rintro rfl
        cases hc
      rw [take]
      simp only [hreturn, hescape, hc, if_false, List.take_left, Bool.false_eq_true]
      rw [List.drop_append, List.drop_eq_nil_of_le (by omega)]
      simp
    rw [List.foldl_cons, hput, ih _ _ hcs]
    simp

/-- The digits of a number are read as the number. -/
theorem foldl_take_digits (r : Row) (n : Nat) {ds : List Char} (hds : ∀ d ∈ ds, d.isDigit = true) :
    ds.foldl take { r with mode := .sequence n } =
      { r with mode := .sequence (Nat.ofDigitChars 10 ds n) } := by
  induction ds generalizing n with
  | nil => rfl
  | cons d ds ih =>
    obtain ⟨hd, hds⟩ := List.forall_mem_cons.1 hds
    rw [List.foldl_cons, Nat.ofDigitChars_cons, ← ih _ hds, take]
    simp only [hd, if_true]

/-- The sequence that erases all behind the cursor. -/
theorem foldl_take_erase (before behind : List Char) :
    ['\x1b', '[', 'K'].foldl take ⟨before ++ behind, before.length, .plain⟩ =
      ⟨before, before.length, .plain⟩ :=
  congrArg (fun cells => Row.mk cells before.length .plain) List.take_left

/-- The sequence that moves the cursor to the left. -/
theorem foldl_take_left (cells : List Char) (column n : Nat) :
    ('\x1b' :: '[' :: ((Nat.repr n).toList ++ ['D'])).foldl take ⟨cells, column, .plain⟩ =
      ⟨cells, column - n, .plain⟩ := by
  have hdigits : ∀ d ∈ (Nat.repr n).toList, d.isDigit = true := by
    intro d hd
    rw [Nat.toList_repr] at hd
    exact Nat.isDigit_of_mem_toDigits (by decide) (by decide) hd
  have hnumber : Nat.ofDigitChars 10 (Nat.repr n).toList 0 = n := by
    rw [Nat.toList_repr, Nat.ofDigitChars_ten_toDigits]
  have hopen : take (take ⟨cells, column, .plain⟩ '\x1b') '[' =
      { (⟨cells, column, .plain⟩ : Row) with mode := .sequence 0 } := rfl
  rw [List.foldl_cons, List.foldl_cons, hopen, List.foldl_append, foldl_take_digits _ _ hdigits,
    hnumber]
  rfl

/-- The characters by which the prompt and the line are drawn again. -/
theorem toList_redraw (prompt : String) (line : LineBuffer) :
    (redraw prompt line).toList =
      '\r' :: (prompt.toList ++ line.chars) ++ ['\x1b', '[', 'K'] ++
        if 0 < line.chars.length - line.cursor then
          '\x1b' :: '[' :: ((Nat.repr (line.chars.length - line.cursor)).toList ++ ['D'])
        else [] := by
  have hnumber : ∀ n : Nat, s!"\x1b[{n}D".toList =
      '\x1b' :: '[' :: ((Nat.repr n).toList ++ ['D']) := by
    intro n
    simp [toString, String.toList_append]
  have htext : (redraw prompt line).toList =
      '\r' :: (prompt.toList ++ line.chars) ++ ['\x1b', '[', 'K'] ++
        (if 0 < line.chars.length - line.cursor then
          s!"\x1b[{line.chars.length - line.cursor}D" else "").toList := by
    simp [redraw, LineBuffer.text]
  rw [htext, apply_ite String.toList, hnumber]
  rfl

/-- Drawing the prompt and the line again shows them and nothing else, with the cursor in its place,
whatever the row showed before. -/
theorem feed_redraw {r : Row} (hr : r.mode = .plain) {prompt : String} {line : LineBuffer}
    (hprompt : ∀ c ∈ prompt.toList, isControl c = false)
    (hline : ∀ c ∈ line.chars, isControl c = false) (hcursor : line.cursor ≤ line.chars.length) :
    r.feed (redraw prompt line) =
      ⟨prompt.toList ++ line.chars, prompt.toList.length + line.cursor, .plain⟩ := by
  have hshown : ∀ c ∈ prompt.toList ++ line.chars, isControl c = false :=
    List.forall_mem_append.2 ⟨hprompt, hline⟩
  have hreturn : take r '\r' = ⟨[] ++ r.cells, ([] : List Char).length, .plain⟩ := by
    obtain ⟨cells, column, mode⟩ := r
    cases hr
    rfl
  have hdrawn : ('\r' :: (prompt.toList ++ line.chars)).foldl take r =
      ⟨(prompt.toList ++ line.chars) ++ r.cells.drop (prompt.toList ++ line.chars).length,
        (prompt.toList ++ line.chars).length, .plain⟩ := by
    rw [List.foldl_cons, hreturn, foldl_take_shown _ _ hshown, List.nil_append]
  rw [feed, toList_redraw, List.foldl_append, List.foldl_append, hdrawn, foldl_take_erase]
  split
  · rw [foldl_take_left, List.length_append]
    congr 1
    omega
  · rw [List.foldl_nil, List.length_append]
    congr 2
    omega

end Row

/-! ## The row while a line is edited -/

/-- The row shows the prompt and the line, with the cursor at that of the line, and neither in what
may be shown later nor in the bytes that are left there is a control character. -/
structure Draft.Shown (prompt : String) (d : Draft) : Prop where
  keeps : d.editing.Keeps fun c => isControl c = false
  row : Row.showing d.screen =
    ⟨prompt.toList ++ d.editing.line.chars, prompt.toList.length + d.editing.line.cursor, .plain⟩
  keys : ∀ c, .char c ∈ keys d.bytes → isControl c = false

namespace Draft.Shown

variable {prompt : String} {h : History} (hprompt : ∀ c ∈ prompt.toList, isControl c = false)
include hprompt

/-- A read begins with the prompt on an empty row. -/
theorem start {bytes : List UInt8} (hbytes : ∀ c, .char c ∈ Line.keys bytes → isControl c = false) :
    (Draft.start prompt bytes).Shown prompt where
  keeps := Editing.keeps_start
  row := by
    have hrow := Row.foldl_take_shown [] [] hprompt
    rw [List.drop_nil, List.append_nil, List.append_nil, List.nil_append] at hrow
    rw [Draft.start, List.append_nil]
    exact hrow
  keys := hbytes

/-- A key leaves the row in order: the line is drawn again, or it has not changed. -/
theorem next? (hhistory : ∀ entry ∈ h.entries, ∀ c ∈ entry.toList, isControl c = false)
    {d d' : Draft} (hd : d.Shown prompt) (hnext : d.next? prompt h = some d') :
    d'.Shown prompt := by
  obtain ⟨k, changed, hk, hpress, hscreen⟩ := Draft.next?_eq_some hnext
  have hkeys := keys_of_nextKey hk
  have hchar : ∀ c, k = .char c → isControl c = false := by
    rintro c rfl
    apply hd.keys
    rw [hkeys]
    exact List.mem_cons_self
  obtain ⟨hkeeps, hsame⟩ := Editing.press_edit hhistory hd.keeps hchar hpress
  refine ⟨hkeeps, ?_, fun c hc => hd.keys c (hkeys ▸ List.mem_cons_of_mem k hc)⟩
  rw [hscreen]
  cases changed with
  | true =>
    have hmode : (Row.showing d.screen).mode = .plain := by rw [hd.row]
    rw [if_pos rfl, Row.showing, Row.feed_append]
    exact Row.feed_redraw hmode hprompt hkeeps.line hkeeps.cursor
  | false =>
    rw [if_neg Bool.false_ne_true, hsame rfl]
    exact hd.row

end Draft.Shown

/-- While a line is read under a prompt, with a history and from bytes in none of which there is a
control character, all that was written up to some key, put on an empty row, shows the prompt and
the line as it then is, with the cursor of the row at that of the line. The cursor is never behind
the end of the line: what is inserted goes in, what is deleted was there, and the number of columns
that the cursor is moved back when the line is drawn is no truncated difference. These are the steps
that the read consists of, up to one that no further key leads on from and behind which no more is
written than an end of the line. -/
theorem screen_shows_line (prompt : String) (h : History) (bytes : List UInt8)
    (hprompt : ∀ c ∈ prompt.toList, isControl c = false)
    (hhistory : ∀ entry ∈ h.entries, ∀ c ∈ entry.toList, isControl c = false)
    (hbytes : ∀ c, Key.char c ∈ keys bytes → isControl c = false) :
    (∀ n d, (Draft.start prompt bytes).after? prompt h n = some d →
      Row.showing d.screen =
        ⟨prompt.toList ++ d.editing.line.chars, prompt.toList.length + d.editing.line.cursor,
          .plain⟩ ∧
      d.editing.line.cursor ≤ d.editing.line.chars.length ∧
      (∀ c, (d.editing.line.insert c).chars.length = d.editing.line.chars.length + 1) ∧
      (d.editing.line.deleteLeft.1 = true →
        d.editing.line.deleteLeft.2.chars.length + 1 = d.editing.line.chars.length) ∧
      (d.editing.line.deleteRight.1 = true →
        d.editing.line.deleteRight.2.chars.length + 1 = d.editing.line.chars.length) ∧
      editLine prompt h bytes = editFrom prompt h d.editing d.screen d.bytes) ∧
    ∃ n d written, (Draft.start prompt bytes).after? prompt h n = some d ∧
      d.next? prompt h = none ∧ written ∈ ["", "\r\n", "^C\r\n"] ∧
      (editLine prompt h bytes).screen = d.screen ++ written := by
  constructor
  · intro n d hd
    have hshown : d.Shown prompt :=
      Draft.after?_invariant (fun hd hnext => hd.next? hprompt hhistory hnext)
        (.start hprompt hbytes) hd
    have hcursor := hshown.keeps.cursor
    exact ⟨hshown.row, hcursor, LineBuffer.length_insert hcursor,
      LineBuffer.length_deleteLeft hcursor, LineBuffer.length_deleteRight,
      Draft.finish_of_after? hd⟩
  · obtain ⟨n, d, hd, hlast⟩ := Draft.exists_last (Draft.start prompt bytes)
    obtain ⟨written, hwritten, hscreen⟩ := Draft.finish_of_last hlast
    rw [← Draft.finish_of_after? hd] at hscreen
    exact ⟨n, d, written, hd, hlast, hwritten, hscreen⟩

/-- The bytes type `ab`, go to the last one of two lines in the history, put `é` before the last
character of it, and break off within an escape sequence. After the first five keys the row shows
that line, with the cursor behind what was put in. -/
theorem screen_shows_line_recalled :
    let prompt := "> "
    let h : History := { entries := ["old", "word"] }
    let bytes : List UInt8 :=
      [0x61, 0x62, 0x1b, 0x5b, 0x41, 0x1b, 0x5b, 0x44, 0xc3, 0xa9, 0x1b, 0x5b]
    (∀ c ∈ prompt.toList, isControl c = false) ∧
      (∀ entry ∈ h.entries, ∀ c ∈ entry.toList, isControl c = false) ∧
      (∀ c, Key.char c ∈ keys bytes → isControl c = false) ∧
      ∃ d, (Draft.start prompt bytes).after? prompt h 5 = some d ∧ d.bytes = [0x1b, 0x5b] ∧
        Row.showing d.screen = ⟨"> woréd".toList, 6, .plain⟩ := by
  intro prompt h bytes
  have hprompt : ∀ c ∈ prompt.toList, isControl c = false := by simp [prompt, isControl]
  have hhistory : ∀ entry ∈ h.entries, ∀ c ∈ entry.toList, isControl c = false := by
    simp [h, isControl]
  have hkeys : keys bytes = [.char 'a', .char 'b', .up, .left, .char 'é', .other] := by
    decide +kernel
  have hbytes : ∀ c, Key.char c ∈ keys bytes → isControl c = false := by
    intro c hc
    rw [hkeys] at hc
    simp only [List.mem_cons, Key.char.injEq, List.not_mem_nil, reduceCtorEq, or_false,
      false_or] at hc
    obtain rfl | rfl | rfl := hc <;> decide
  have hafter : (((Draft.start prompt bytes).after? prompt h 5).map fun d =>
      (d.bytes, d.editing.line)) = some ([0x1b, 0x5b], ⟨"woréd".toList, 4⟩) := by decide +kernel
  obtain ⟨d, hd, hline⟩ := Option.map_eq_some_iff.1 hafter
  obtain ⟨hrest, hline⟩ := Prod.mk.inj hline
  have hrow := ((screen_shows_line prompt h bytes hprompt hhistory hbytes).1 5 d hd).1
  rw [hline] at hrow
  exact ⟨hprompt, hhistory, hbytes, d, hd, hrest, hrow.trans (by decide)⟩

end CalcShell.Line
