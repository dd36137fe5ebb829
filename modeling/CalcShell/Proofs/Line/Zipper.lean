import CalcShell.Proofs.Line.Streams

/-!
# The line as two lists

Seen from the cursor, the line being edited is two lists of characters: those before the cursor and
those behind it (`Zipper`). On them the editing keys need no places: they put a character to an end
of a list, take one away, or move one across. The line is the two lists one after the other, with
the cursor where they meet (`Zipper.line`).

A key does to the line what it does to the lists (`Editing.press_zipper`). So while a line is read
by keys that edit it, the line and its cursor are at every moment the ones of the two lists after
the same keys (`Draft.after?_zipper`), and when the line is entered, the read gives the two lists
(`line_as_zipper`).
-/

namespace CalcShell.Line

/-- A line in two parts: the characters before the cursor and those behind it. -/
structure Zipper where
  left : List Char := []
  right : List Char := []
deriving DecidableEq, Repr

namespace Zipper

/-- The two parts after a key. Keys that do not edit the line leave them as they are. -/
def press (z : Zipper) : Key → Zipper
  | .char c => ⟨z.left ++ [c], z.right⟩
  | .backspace => ⟨z.left.dropLast, z.right⟩
  | .delete => ⟨z.left, z.right.tail⟩
  | .left =>
    match z.left.getLast? with
    | none => z
    | some c => ⟨z.left.dropLast, c :: z.right⟩
  | .right =>
    match z.right with
    | [] => z
    | c :: cs => ⟨z.left ++ [c], cs⟩
  | .home => ⟨[], z.left ++ z.right⟩
  | .finish => ⟨z.left ++ z.right, []⟩
  | .kill => ⟨[], []⟩
  | .enter | .cancel | .up | .down | .other => z

/-- The two parts after some keys. -/
def after (z : Zipper) (ks : List Key) : Zipper := ks.foldl press z

/-- The line, with the cursor between the two parts. -/
def line (z : Zipper) : LineBuffer := ⟨z.left ++ z.right, z.left.length⟩

/-- The key edits the line: it neither ends the read nor walks through the history. One that deletes
to the right does so only on a line with characters in it. -/
def Edits (z : Zipper) (k : Key) : Prop :=
  k ∉ [Key.enter, .cancel, .up, .down] ∧ (k = .delete → z.left ++ z.right ≠ [])

/-- Each of the keys edits the line that those before it leave. -/
def EditsAll (z : Zipper) : List Key → Prop
  | [] => True
  | k :: ks => z.Edits k ∧ (z.press k).EditsAll ks

theorem EditsAll.front {z : Zipper} {ks ls : List Key} (h : z.EditsAll (ks ++ ls)) :
    z.EditsAll ks := by
  induction ks generalizing z with
  | nil => trivial
  | cons k ks ih => exact ⟨h.1, ih h.2⟩

/-! ## Each operation on the line -/

variable (z : Zipper)

/-- A character is put in between the two parts. -/
theorem insertIdx_between (left right : List Char) (c : Char) :
    (left ++ right).insertIdx left.length c = left ++ [c] ++ right := by
  induction left with
  | nil => rfl
  | cons d left ih =>
    rw [List.cons_append, List.length_cons, List.insertIdx_succ_cons, ih]
    rfl

theorem line_insert (c : Char) : z.line.insert c = (z.press (.char c)).line := by
  rw [LineBuffer.insert, line, line, press, insertIdx_between, List.length_append]
  rfl

theorem line_deleteLeft : z.line.deleteLeft.2 = (z.press .backspace).line := by
  obtain ⟨left, right⟩ := z
  rcases List.eq_nil_or_concat left with rfl | ⟨init, c, rfl⟩
  · rfl
  · rw [List.concat_eq_append]
    simp [LineBuffer.deleteLeft, line, press, List.eraseIdx_append_of_length_le]

theorem line_deleteRight : z.line.deleteRight.2 = (z.press .delete).line := by
  obtain ⟨left, right⟩ := z
  cases right with
  | nil => simp [LineBuffer.deleteRight, line, press]
  | cons c right =>
    have hsome : ¬ (left ++ c :: right).length ≤ left.length := by simp
    rw [line, LineBuffer.deleteRight, if_neg hsome]
    simp [line, press, List.eraseIdx_append_of_length_le]

theorem line_left : z.line.left.2 = (z.press .left).line := by
  obtain ⟨left, right⟩ := z
  rcases List.eq_nil_or_concat left with rfl | ⟨init, c, rfl⟩
  · rfl
  · rw [List.concat_eq_append]
    simp [LineBuffer.left, line, press]

theorem line_right : z.line.right.2 = (z.press .right).line := by
  obtain ⟨left, right⟩ := z
  cases right with
  | nil => simp [LineBuffer.right, line, press]
  | cons c right => simp [LineBuffer.right, line, press]

theorem line_home : z.line.home.2 = (z.press .home).line := rfl

theorem line_finish : z.line.finish.2 = (z.press .finish).line := by
  simp [LineBuffer.finish, line, press]

end Zipper

/-- A key that edits the line does to it what it does to the two parts. -/
theorem Editing.press_zipper (h : History) {e : Editing} {z : Zipper} (he : e.line = z.line)
    {k : Key} (hk : z.Edits k) :
    ∃ changed e', e.press h k = .edit changed e' ∧ e'.line = (z.press k).line := by
  obtain ⟨hkind, hdelete⟩ := hk
  cases k with
  | enter | cancel | up | down => exact absurd hkind (by decide)
  | delete =>
    have hsome : ¬ e.line.isEmpty = true := by
      rw [he, LineBuffer.isEmpty, List.isEmpty_iff]
      exact hdelete rfl
    refine ⟨_, { e with line := e.line.deleteRight.2 }, if_neg hsome, ?_⟩
    rw [he, z.line_deleteRight]
  | backspace => exact ⟨_, _, rfl, he ▸ z.line_deleteLeft⟩
  | left => exact ⟨_, _, rfl, he ▸ z.line_left⟩
  | right => exact ⟨_, _, rfl, he ▸ z.line_right⟩
  | home => exact ⟨_, _, rfl, he ▸ z.line_home⟩
  | finish => exact ⟨_, _, rfl, he ▸ z.line_finish⟩
  | kill => exact ⟨_, _, rfl, rfl⟩
  | char c => exact ⟨_, _, rfl, he ▸ z.line_insert c⟩
  | other => exact ⟨_, _, rfl, he⟩

/-! ## Keys and their bytes -/

/-- Bytes that a terminal sends for a key. -/
def Key.bytes : Key → List UInt8
  | .enter => [0x0d]
  | .cancel => [0x03]
  | .delete => [0x04]
  | .backspace => [0x7f]
  | .left => [0x1b, 0x5b, 0x44]
  | .right => [0x1b, 0x5b, 0x43]
  | .up => [0x1b, 0x5b, 0x41]
  | .down => [0x1b, 0x5b, 0x42]
  | .home => [0x01]
  | .finish => [0x05]
  | .kill => [0x15]
  | .char c => String.utf8EncodeChar c
  | .other => [0x02]

/-- The bytes of a key are read as the key. -/
theorem nextKey_bytes {k : Key} (hk : ∀ c, k = .char c → isTyped c = true) (rest : List UInt8) :
    nextKey (k.bytes ++ rest) = .key k rest := by
  cases k with
  | char c => exact nextKey_utf8EncodeChar (hk c rfl) rest
  | _ => rfl

/-- Every sequence of keys has bytes that are read as these keys. -/
theorem keys_flatMap_bytes {ks : List Key} (hks : ∀ c, .char c ∈ ks → isTyped c = true) :
    keys (ks.flatMap Key.bytes) = ks := by
  induction ks with
  | nil =>
    rw [List.flatMap_nil, keys]
    rfl
  | cons k ks ih =>
    have hk : ∀ c, k = .char c → isTyped c = true := by
      rintro c rfl
      exact hks c List.mem_cons_self
    rw [List.flatMap_cons, keys_of_nextKey (nextKey_bytes hk _),
      ih fun c hc => hks c (List.mem_cons_of_mem k hc)]

/-! ## Reading a line -/

/-- After some keys that edit the line, the line is the one of the two parts after the keys. -/
theorem Editing.after?_zipper (h : History) {z : Zipper} {ks : List Key} (hks : z.EditsAll ks)
    {e : Editing} (he : e.line = z.line) :
    ∃ e', e.after? h ks = some e' ∧ e'.line = (z.after ks).line := by
  -- By induction on the keys; the line is that of the two parts before each of them.
  induction ks generalizing z e with
  | nil => exact ⟨e, rfl, he⟩
  | cons k ks ih =>
    obtain ⟨changed, e₁, hpress, h₁⟩ := Editing.press_zipper h he hks.1
    obtain ⟨e', hafter, hline⟩ := ih hks.2 h₁
    exact ⟨e', by rw [after?, hpress]; exact hafter, hline⟩

/-- After some keys that edit the line, the line is the one of the two parts after the keys, and the
keys behind them are left. -/
theorem Draft.after?_zipper (prompt : String) (h : History) {z : Zipper} {ks more : List Key}
    (hks : z.EditsAll ks) {d : Draft} (hd : d.editing.line = z.line)
    (hkeys : keys d.bytes = ks ++ more) :
    ∃ d', d.after? prompt h ks.length = some d' ∧ d'.editing.line = (z.after ks).line ∧
      keys d'.bytes = more := by
  obtain ⟨e, hafter, hline⟩ := Editing.after?_zipper h hks hd
  obtain ⟨d', hd', rfl, hmore⟩ := Draft.after?_of_keys hkeys hafter
  exact ⟨d', hd', hline, hmore⟩

/-- While a line is read by keys that edit it, and then entered, the line and its cursor are after
each key the ones of the two parts after the same keys. The read gives the two parts one after the
other, and leaves the bytes of the keys behind. This is so for all bytes that are read as these
keys, and there are such bytes. -/
theorem line_as_zipper (prompt : String) (h : History) {ks : List Key}
    (hks : Zipper.EditsAll {} ks) :
    (∀ bytes more, keys bytes = ks ++ .enter :: more →
      (editLine prompt h bytes).result =
        .ok (.line (String.ofList
          ((Zipper.after {} ks).left ++ (Zipper.after {} ks).right))) ∧
      keys (editLine prompt h bytes).rest = more ∧
      ∀ n ≤ ks.length, ∃ d, (Draft.start prompt bytes).after? prompt h n = some d ∧
        d.editing.line = (Zipper.after {} (ks.take n)).line ∧
        keys d.bytes = ks.drop n ++ .enter :: more) ∧
    ((∀ c, .char c ∈ ks → isTyped c = true) →
      keys ((ks ++ [Key.enter]).flatMap Key.bytes) = ks ++ [.enter]) := by
  constructor
  · intro bytes more hkeys
    have hstart : (Draft.start prompt bytes).editing.line = (Zipper.line {}) := rfl
    obtain ⟨d, hafter, hline, hmore⟩ := Draft.after?_zipper prompt h hks hstart hkeys
    obtain ⟨rest, hread, hrest⟩ := nextKey_of_keys hmore
    have hread : editLine prompt h bytes = ⟨.ok (.line d.editing.line.text), d.screen ++ "\r\n",
        rest⟩ := (Draft.finish_of_after? hafter).trans (Draft.finish_of_stop hread rfl)
    rw [hread, hline]
    refine ⟨rfl, hrest, fun n hn => ?_⟩
    have hsplit : ks.take n ++ (ks.drop n ++ Key.enter :: more) = ks ++ Key.enter :: more := by
      rw [← List.append_assoc, List.take_append_drop]
    rw [← List.take_append_drop n ks] at hks
    obtain ⟨d', hd', hline', hkeys'⟩ :=
      Draft.after?_zipper prompt h hks.front hstart (hkeys.trans hsplit.symm)
    rw [List.length_take_of_le hn] at hd'
    exact ⟨d', hd', hline', hkeys'⟩
  · intro htyped
    refine keys_flatMap_bytes fun c hc => htyped c ?_
    simpa using hc

/-- A character of two bytes is typed behind another one, the cursor goes to the start and once more
to the left, a third character is put in there, and from the end, where there is nothing to delete
to the right, the last one is deleted. A key behind the end of the line is left. -/
theorem line_as_zipper_accented :
    let ks : List Key :=
      [.char 'b', .char 'é', .left, .left, .left, .char 'a', .finish, .delete, .backspace]
    let bytes : List UInt8 :=
      [0x62, 0xc3, 0xa9, 0x1b, 0x5b, 0x44, 0x1b, 0x5b, 0x44, 0x1b, 0x5b, 0x44, 0x61, 0x05, 0x04,
        0x7f, 0x0d, 0x78]
    Zipper.EditsAll {} ks ∧ keys bytes = ks ++ .enter :: [.char 'x'] ∧
      (∀ c, .char c ∈ ks → isTyped c = true) ∧
      (editLine "> " {} bytes).result = .ok (.line "ab") ∧
      keys (editLine "> " {} bytes).rest = [.char 'x'] ∧
      ∃ d, (Draft.start "> " bytes).after? "> " {} 6 = some d ∧
        d.editing.line = ⟨['a', 'b', 'é'], 1⟩ := by
  intro ks bytes
  have hks : Zipper.EditsAll {} ks := by
    simp [ks, Zipper.EditsAll, Zipper.Edits, Zipper.press]
  have hkeys : keys bytes = ks ++ .enter :: [.char 'x'] := by decide +kernel
  have htyped : ∀ c, .char c ∈ ks → isTyped c = true := by
    intro c hc
    simp only [ks, List.mem_cons, Key.char.injEq, reduceCtorEq, List.not_mem_nil, or_false,
      false_or] at hc
    obtain rfl | rfl | rfl := hc <;> decide
  obtain ⟨hresult, hrest, hbetween⟩ := (line_as_zipper "> " {} hks).1 bytes _ hkeys
  obtain ⟨d, hafter, hline, -⟩ := hbetween 6 (by decide)
  exact ⟨hks, hkeys, htyped, hresult, hrest, d, hafter, hline⟩

end CalcShell.Line
