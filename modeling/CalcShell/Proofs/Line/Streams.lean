import CalcShell.Proofs.Line.Editing

/-!
# Lines from a terminal and from a stream

The editor takes the bytes of a terminal key by key and puts each character in at the cursor; plain
input takes them up to the next line feed and reads what it has as a whole. For lines of text
without control keys both come to the same: each read gives the next line and leaves the bytes
behind it, and where the lines end both find the end of the input.

What carries it is the first byte of a character, which tells how many bytes follow
(`Text.Utf8.utf8EncodeChar_eq_cons`): by it the editor finds the end of a character, and since the
bytes of a character of more than one byte are none of the control bytes, neither the editor nor
plain input can take one of them for the end of the line.
-/

namespace CalcShell.Text.Utf8

theorem toList_loop (bytes : ByteArray) (i : Nat) (before : List UInt8) :
    ByteArray.toList.loop bytes i before = before.reverse ++ bytes.data.toList.drop i := by
  fun_induction ByteArray.toList.loop bytes i before with
  | case1 i before hi ih =>
    have hlength : i < bytes.data.toList.length := by simpa using hi
    rw [ih, List.drop_eq_getElem_cons hlength]
    simp [ByteArray.get!, hi]
  | case2 i before hi =>
    rw [List.drop_eq_nil_of_le (by simpa using Nat.le_of_not_lt hi), List.append_nil]

theorem toList_toByteArray (bytes : List UInt8) : bytes.toByteArray.toList = bytes := by
  rw [ByteArray.toList, toList_loop, List.toList_data_toByteArray]
  rfl

theorem toByteArray_toList (bytes : ByteArray) : bytes.toList.toByteArray = bytes := by
  rw [ByteArray.toList, toList_loop]
  apply ByteArray.ext
  simp

/-- The bytes of a text are those of its characters. -/
theorem encode_eq_flatMap (s : String) : encode s = s.toList.flatMap String.utf8EncodeChar := by
  rw [encode, String.toUTF8_eq_toByteArray, ← String.utf8Encode_toList]
  exact toList_toByteArray _

theorem encode_append (s t : String) : encode (s ++ t) = encode s ++ encode t := by
  rw [encode_eq_flatMap, encode_eq_flatMap, encode_eq_flatMap, String.toList_append,
    List.flatMap_append]

/-- The bytes of a text are read back as the text. -/
theorem decode?_encode (s : String) : decode? (encode s) = some s := by
  rw [decode?, encode, toByteArray_toList, String.fromUTF8?]
  exact dif_pos s.isValidUTF8

/-- The bytes of a character are read back as the character. -/
theorem decodeChar?_utf8EncodeChar (c : Char) :
    decodeChar? (String.utf8EncodeChar c) = some c := by
  rw [decodeChar?, ← List.utf8Encode_singleton]
  exact List.utf8DecodeChar?_utf8Encode_singleton

/-- How many bytes follow a first byte, by its number. -/
theorem followers?_eq (lead : UInt8) :
    followers? lead =
      if lead.toNat ≤ 0x7f then some 0
      else if 0xc2 ≤ lead.toNat ∧ lead.toNat ≤ 0xdf then some 1
      else if 0xe0 ≤ lead.toNat ∧ lead.toNat ≤ 0xef then some 2
      else if 0xf0 ≤ lead.toNat ∧ lead.toNat ≤ 0xf4 then some 3
      else none := by
  simp only [followers?, UInt8.le_iff_toNat_le, Bool.and_eq_true, decide_eq_true_eq]
  rfl

theorem toNat_ofNat_byte {n : Nat} (hn : n < 256) : (UInt8.ofNat n).toNat = n :=
  UInt8.toNat_ofNat_of_lt' hn

/-- The bytes of a character: a first byte that tells how many follow, and those. Either it is a
character of one byte, which is its number, or all the bytes are above those of such characters. -/
theorem utf8EncodeChar_eq_cons (c : Char) :
    ∃ lead tail, String.utf8EncodeChar c = lead :: tail ∧ followers? lead = some tail.length ∧
      (tail = [] ∧ lead.toNat = c.toNat ∨ ∀ b ∈ lead :: tail, 0x7f < b.toNat) := by
  have hmax : c.val.toNat ≤ 0x10ffff := by
    have hvalid := c.valid
    simp only [UInt32.isValidChar, Nat.isValidChar] at hvalid
    omega
  rw [String.utf8EncodeChar]
  -- One case for each number of bytes.
  split
  · refine ⟨_, [], rfl, ?_, .inl ⟨rfl, toNat_ofNat_byte (by omega)⟩⟩
    rw [followers?_eq, toNat_ofNat_byte (by omega), if_pos (by omega)]
    rfl
  · split
    · refine ⟨_, [_], rfl, ?_, .inr ?_⟩
      · rw [followers?_eq, toNat_ofNat_byte (by omega), if_neg (by omega), if_pos (by omega)]
        rfl
      · simp only [List.forall_mem_cons, List.not_mem_nil, false_implies, implies_true, and_true]
        rw [toNat_ofNat_byte (by omega), toNat_ofNat_byte (by omega)]
        omega
    · split
      · refine ⟨_, [_, _], rfl, ?_, .inr ?_⟩
        · rw [followers?_eq, toNat_ofNat_byte (by omega), if_neg (by omega), if_neg (by omega),
            if_pos (by omega)]
          rfl
        · simp only [List.forall_mem_cons, List.not_mem_nil, false_implies, implies_true, and_true]
          rw [toNat_ofNat_byte (by omega), toNat_ofNat_byte (by omega), toNat_ofNat_byte (by omega)]
          omega
      · refine ⟨_, [_, _, _], rfl, ?_, .inr ?_⟩
        · rw [followers?_eq, toNat_ofNat_byte (by omega), if_neg (by omega), if_neg (by omega),
            if_neg (by omega), if_pos (by omega)]
          rfl
        · simp only [List.forall_mem_cons, List.not_mem_nil, false_implies, implies_true, and_true]
          rw [toNat_ofNat_byte (by omega), toNat_ofNat_byte (by omega), toNat_ofNat_byte (by omega),
            toNat_ofNat_byte (by omega)]
          omega

end CalcShell.Text.Utf8

namespace CalcShell

/-- A sink that refuses nothing has the text of all pieces behind what it took before. -/
theorem Sink.takeAll_accepted {s : Sink} (hs : ∀ written piece, s.refuses written piece = none)
    (pieces : List Piece) :
    ∃ s', s.takeAll pieces = (none, s') ∧
      s'.text = s.text ++ String.join (pieces.map Piece.shown) ∧ s'.refuses = s.refuses := by
  induction pieces generalizing s with
  | nil => exact ⟨s, rfl, String.append_empty.symm, rfl⟩
  | cons p ps ih =>
    rw [takeAll, List.map_cons, String.join_cons]
    split
    · rename_i hp
      rw [hp, Piece.shown, String.empty_append]
      exact ih hs
    · rw [take, hs]
      obtain ⟨s', htake, htext, hrefuses⟩ := ih (s := { s with written := p :: s.written }) hs
      refine ⟨s', htake, htext.trans ?_, hrefuses⟩
      simp [text, String.join_append, String.append_assoc]

end CalcShell

namespace CalcShell.Line

/-- Whether a character is typed by its own bytes: it is none of the control keys of one byte. -/
def isTyped (c : Char) : Bool := 0x20 ≤ c.toNat && c.toNat ≠ 0x7f

/-! ## Typing a line -/

/-- A byte that is no control byte is no control key. -/
theorem controlKey?_eq_none {b : UInt8} (hlow : 0x20 ≤ b.toNat) (hdelete : b.toNat ≠ 0x7f) :
    controlKey? b = none := by
  have hne : ∀ n : UInt8, n.toNat < 0x20 ∨ n.toNat = 0x7f → b ≠ n := by
    rintro n hn rfl
    omega
  have hle : ¬ b ≤ 0x1f := by
    rw [UInt8.le_iff_toNat_le]
    exact Nat.not_le.2 hlow
  simp [controlKey?, hne, hle]

/-- The bytes of a character that is typed are the key for it. -/
theorem nextKey_utf8EncodeChar {c : Char} (hc : isTyped c = true) (rest : List UInt8) :
    nextKey (String.utf8EncodeChar c ++ rest) = .key (.char c) rest := by
  obtain ⟨lead, tail, hbytes, hfollow, hnumbers⟩ := Text.Utf8.utf8EncodeChar_eq_cons c
  simp only [isTyped, Bool.and_eq_true, decide_eq_true_eq] at hc
  have hlead : 0x20 ≤ lead.toNat ∧ lead.toNat ≠ 0x7f := by
    rcases hnumbers with ⟨-, hlead⟩ | hhigh
    · rw [hlead]
      exact hc
    · have := hhigh lead List.mem_cons_self
      omega
  have hescape : lead ≠ 0x1b := by
    rintro rfl
    exact absurd hlead (by decide)
  have hchar : charKey lead (tail ++ rest) = .key (.char c) rest := by
    have hlength : ¬ (tail ++ rest).length < tail.length := by simp
    rw [charKey, hfollow]
    dsimp only
    rw [if_neg hlength, List.take_left, List.drop_left, ← hbytes,
      Text.Utf8.decodeChar?_utf8EncodeChar]
  rw [hbytes, List.cons_append, nextKey, if_neg hescape, controlKey?_eq_none hlead.1 hlead.2]
  exact hchar

namespace Draft

variable (prompt : String) (h : History)

/-- The draft with some characters typed and the cursor behind them. -/
def typed (cs : List Char) (screen : String) (bytes : List UInt8) : Draft :=
  ⟨⟨⟨cs, cs.length⟩, {}⟩, screen, bytes⟩

/-- A character that is typed behind the line is put there. -/
theorem next?_typed (cs : List Char) {c : Char} (hc : isTyped c = true) (screen : String)
    (rest : List UInt8) :
    ∃ screen', (typed cs screen (String.utf8EncodeChar c ++ rest)).next? prompt h =
      some (typed (cs ++ [c]) screen' rest) := by
  have hinsert : (⟨cs, cs.length⟩ : LineBuffer).insert c = ⟨cs ++ [c], (cs ++ [c]).length⟩ := by
    rw [LineBuffer.insert, List.insertIdx_length_self, List.length_append]
    rfl
  refine ⟨screen ++ redraw prompt ⟨cs ++ [c], (cs ++ [c]).length⟩, ?_⟩
  rw [next?, typed, nextKey_utf8EncodeChar hc]
  dsimp only [Editing.press]
  rw [hinsert]
  rfl

/-- The read goes on behind a text that is typed with the text in the line. -/
theorem finish_typed {cs : List Char} (hcs : ∀ c ∈ cs, isTyped c = true) (before : List Char)
    (screen : String) (rest : List UInt8) :
    ∃ screen', (typed before screen (cs.flatMap String.utf8EncodeChar ++ rest)).finish prompt h =
      (typed (before ++ cs) screen' rest).finish prompt h := by
  induction cs generalizing before screen with
  | nil => exact ⟨screen, by rw [List.append_nil]; rfl⟩
  | cons c cs ih =>
    obtain ⟨hc, hcs⟩ := List.forall_mem_cons.1 hcs
    rw [List.flatMap_cons, List.append_assoc]
    obtain ⟨shown, hnext⟩ := next?_typed prompt h before hc screen
      (cs.flatMap String.utf8EncodeChar ++ rest)
    obtain ⟨shown', hrest⟩ := ih hcs (before ++ [c]) shown
    refine ⟨shown', ?_⟩
    rw [finish_of_next? hnext, hrest, List.append_assoc]
    rfl

/-- A line feed ends the read with the line. -/
theorem finish_lineFeed (e : Editing) (screen : String) (rest : List UInt8) :
    (⟨e, screen, lineFeed :: rest⟩ : Draft).finish prompt h =
      ⟨.ok (.line e.line.text), screen ++ "\r\n", rest⟩ :=
  finish_of_stop rfl rfl

end Draft

/-- The editor reads a line that is typed and takes no byte behind its end. -/
theorem editLine_encode (prompt : String) (h : History) {line : String}
    (hline : ∀ c ∈ line.toList, isTyped c = true) (rest : List UInt8) :
    ∃ screen, editLine prompt h (Text.Utf8.encode line ++ lineFeed :: rest) =
      ⟨.ok (.line line), screen, rest⟩ := by
  obtain ⟨screen, htyped⟩ := Draft.finish_typed prompt h hline [] prompt (lineFeed :: rest)
  refine ⟨screen ++ "\r\n", ?_⟩
  rw [Text.Utf8.encode_eq_flatMap]
  refine htyped.trans ?_
  rw [Draft.typed, Draft.finish_lineFeed, List.nil_append, LineBuffer.text, String.ofList_toList]

/-- Where there are no bytes, the editor finds the end of the input. -/
theorem editLine_nil (prompt : String) (h : History) :
    editLine prompt h [] = ⟨.ok .eof, prompt, []⟩ := by
  rw [editLine, editFrom]
  rfl

/-! ## Cutting off a line -/

/-- No byte of a text that is typed is a line feed. -/
theorem lineFeed_not_mem_encode {line : String} (hline : ∀ c ∈ line.toList, isTyped c = true) :
    lineFeed ∉ Text.Utf8.encode line := by
  intro hmem
  rw [Text.Utf8.encode_eq_flatMap] at hmem
  obtain ⟨c, hc, hmem⟩ := List.mem_flatMap.1 hmem
  obtain ⟨lead, tail, hbytes, -, hnumbers⟩ := Text.Utf8.utf8EncodeChar_eq_cons c
  rw [hbytes] at hmem
  rcases hnumbers with ⟨rfl, hlead⟩ | hhigh
  · have htyped := hline c hc
    rw [← List.mem_singleton.1 hmem] at hlead
    rw [isTyped, ← hlead] at htyped
    exact absurd htyped (by decide)
  · exact absurd (hhigh lineFeed hmem) (by decide)

/-- A line is cut off behind its line feed. -/
theorem cutLine_append {bytes : List UInt8} (hbytes : lineFeed ∉ bytes) (rest : List UInt8) :
    cutLine (bytes ++ lineFeed :: rest) = (bytes ++ [lineFeed], rest) := by
  induction bytes with
  | nil => rfl
  | cons b bytes ih =>
    have hb : b ≠ lineFeed := fun hb => hbytes (hb ▸ List.mem_cons_self)
    rw [List.cons_append, cutLine, if_neg hb, ih fun hmem => hbytes (List.mem_cons_of_mem b hmem)]
    rfl

/-- Of a text that is typed only the line end is taken off. -/
theorem stripEnd_lineFeed {line : String} (hline : ∀ c ∈ line.toList, isTyped c = true) :
    stripEnd (line ++ "\n") = line := by
  have hreturn : line.toList.getLast? ≠ some '\r' := by
    intro hlast
    exact absurd (hline _ (List.mem_of_getLast? hlast)) (by decide)
  have hfeed : dropLast '\n' (line ++ "\n").toList = line.toList := by
    simp [dropLast]
  rw [stripEnd, hfeed, dropLast, if_neg hreturn, String.ofList_toList]

/-- Plain input reads a line of text and takes no byte behind its end. -/
theorem Plain.next_encode {line : String} (hline : ∀ c ∈ line.toList, isTyped c = true)
    (rest : List UInt8) (echo : Echo) :
    Plain.next ⟨Text.Utf8.encode line ++ lineFeed :: rest, echo⟩ =
      (.ok (.line line), ⟨rest, echo⟩) := by
  have hend : Text.Utf8.encode line ++ [lineFeed] = Text.Utf8.encode (line ++ "\n") := by
    rw [Text.Utf8.encode_append, Text.Utf8.encode_eq_flatMap "\n"]
    rfl
  have hsome : (Text.Utf8.encode (line ++ "\n")).isEmpty = false := by
    rw [← hend]
    simp
  rw [next]
  simp only [cutLine_append (lineFeed_not_mem_encode hline), hend, hsome,
    Text.Utf8.decode?_encode, stripEnd_lineFeed hline]
  rfl

/-! ## Prompts of plain input -/

/-- What an echo makes of prompts that it takes: one with a sink of its own holds them behind what
it took before. -/
inductive Echo.Shows (prompts : List String) : Echo → Echo → Prop
  | silent : Shows prompts .silent .silent
  | own {sink sink' : Sink} (htext : sink'.text = sink.text ++ String.join prompts)
      (hrefuses : sink'.refuses = sink.refuses) : Shows prompts (.own sink) (.own sink')
  | shared : Shows prompts .shared .shared

/-- An echo takes all prompts. -/
def Echo.Accepts : Echo → Prop
  | .own sink => ∀ written piece, sink.refuses written piece = none
  | .silent | .shared => True

namespace Echo

variable {echo echo' echo'' : Echo}

/-- No prompts were shown. -/
theorem shows_nil (echo : Echo) : Shows [] echo echo := by
  cases echo with
  | silent => exact .silent
  | own sink => exact .own String.append_empty.symm rfl
  | shared => exact .shared

/-- A prompt was shown and then others were. -/
theorem Shows.cons {prompt : String} {prompts : List String} (h : Shows [prompt] echo echo')
    (h' : Shows prompts echo' echo'') : Shows (prompt :: prompts) echo echo'' := by
  cases h with
  | silent =>
    cases h'
    exact .silent
  | own htext hrefuses =>
    cases h' with
    | own htext' hrefuses' =>
      refine .own ?_ (hrefuses'.trans hrefuses)
      rw [htext', htext, String.join_cons, String.join_cons, String.join_nil, String.append_empty,
        String.append_assoc]
  | shared =>
    cases h'
    exact .shared

theorem Shows.accepts {prompts : List String} (h : Shows prompts echo echo')
    (hecho : echo.Accepts) : echo'.Accepts := by
  cases h with
  | silent => trivial
  | own htext hrefuses => exact fun written piece => hrefuses ▸ hecho written piece
  | shared => trivial

/-- Showing a prompt on an echo that takes it. -/
theorem show_accepted (hecho : echo.Accepts) (prompt : String) :
    ∃ echo', echo.show prompt = (none, echo') ∧ Shows [prompt] echo echo' := by
  cases echo with
  | silent => exact ⟨.silent, rfl, .silent⟩
  | own sink =>
    obtain ⟨sink', htake, htext, hrefuses⟩ := sink.takeAll_accepted hecho (promptPieces prompt)
    refine ⟨.own sink', ?_, .own ?_ hrefuses⟩
    · rw [Echo.show, htake]
    · rw [htext]
      simp [promptPieces, Piece.shown]
  | shared => exact ⟨.shared, rfl, .shared⟩

end Echo

namespace Plain

/-- An input whose prompt could be written reads on behind it. -/
theorem readLine_of_show {p : Plain} {prompt : String} {echo : Echo}
    (h : p.echo.show prompt = (none, echo)) : p.readLine prompt = next { p with echo := echo } := by
  rw [readLine, h]

/-- Where the prompt cannot be written nothing is read. -/
theorem readLine_refused {p : Plain} {prompt : String} {echo : Echo} {e : IoError}
    (h : p.echo.show prompt = (some e, echo)) :
    p.readLine prompt = (.error e, { p with echo := echo }) := by
  rw [readLine, h]

end Plain

/-! ## Line after line -/

/-- The bytes of lines, each with a line feed behind it. -/
def encodeLines (lines : List String) : List UInt8 :=
  lines.flatMap fun line => Text.Utf8.encode line ++ [lineFeed]

theorem encodeLines_cons (line : String) (lines : List String) :
    encodeLines (line :: lines) = Text.Utf8.encode line ++ lineFeed :: encodeLines lines := by
  rw [encodeLines, List.flatMap_cons, List.append_assoc]
  rfl

/-- Reads in the editor, one after the other from the same bytes and each under a prompt and with a
history of its own: what each of them gives and the bytes that it leaves. -/
def editLines : List (String × History) → List UInt8 → List (ReadResult × List UInt8)
  | [], _ => []
  | (prompt, h) :: calls, bytes =>
    let r := editLine prompt h bytes
    (r.result, r.rest) :: editLines calls r.rest

/-- Reads of plain input, one after the other and each under a prompt of its own: what each of them
gives and the bytes that it leaves. -/
def plainLines : List String → Plain → List (ReadResult × List UInt8)
  | [], _ => []
  | prompt :: prompts, p =>
    let r := p.readLine prompt
    (r.1, r.2.bytes) :: plainLines prompts r.2

/-- What the read at a place is to give, and the bytes that it is to leave: the line at that place
and those of the lines behind it, and behind all lines the end of the input. -/
def nthRead (lines : List String) (i : Nat) : ReadResult × List UInt8 :=
  (.ok ((lines[i]?).elim .eof .line), encodeLines (lines.drop (i + 1)))

/-- The reads that are to come, where a first line is read or there is none. -/
theorem map_nthRead_succ (lines : List String) (n : Nat) :
    (List.range (n + 1)).map (nthRead lines) =
      (.ok (lines.head?.elim .eof .line), encodeLines lines.tail) ::
        (List.range n).map (nthRead lines.tail) := by
  have hnext : nthRead lines ∘ Nat.succ = nthRead lines.tail := by
    funext i
    cases lines <;> rfl
  rw [List.range_succ_eq_map, List.map_cons, List.map_map, hnext]
  cases lines <;> rfl

/-- Reading lines of text in the editor. -/
theorem editLines_encodeLines {lines : List String}
    (hlines : ∀ line ∈ lines, ∀ c ∈ line.toList, isTyped c = true)
    (calls : List (String × History)) :
    editLines calls (encodeLines lines) = (List.range calls.length).map (nthRead lines) := by
  induction calls generalizing lines with
  | nil => rfl
  | cons call calls ih =>
    obtain ⟨prompt, h⟩ := call
    rw [List.length_cons, map_nthRead_succ]
    cases lines with
    | nil =>
      rw [editLines, show encodeLines [] = [] from rfl, editLine_nil]
      exact congrArg _ (ih hlines)
    | cons line lines =>
      obtain ⟨hline, hlines⟩ := List.forall_mem_cons.1 hlines
      obtain ⟨screen, hread⟩ := editLine_encode prompt h hline (encodeLines lines)
      rw [editLines, encodeLines_cons, hread]
      exact congrArg _ (ih hlines)

/-- Reading lines of text from plain input. -/
theorem plainLines_encodeLines {lines : List String}
    (hlines : ∀ line ∈ lines, ∀ c ∈ line.toList, isTyped c = true)
    (prompts : List String) {echo : Echo} (hecho : echo.Accepts) :
    plainLines prompts ⟨encodeLines lines, echo⟩ =
      (List.range prompts.length).map (nthRead lines) := by
  induction prompts generalizing lines echo with
  | nil => rfl
  | cons prompt prompts ih =>
    obtain ⟨echo', hshow, hshows⟩ := Echo.show_accepted hecho prompt
    have hecho' := hshows.accepts hecho
    rw [List.length_cons, map_nthRead_succ, plainLines, Plain.readLine_of_show hshow]
    cases lines with
    | nil => exact congrArg _ (ih hlines hecho')
    | cons line lines =>
      obtain ⟨hline, hlines⟩ := List.forall_mem_cons.1 hlines
      dsimp only
      rw [encodeLines_cons, Plain.next_encode hline]
      exact congrArg _ (ih hlines hecho')

/-- For lines of text without control keys, the editor and plain input read the same from the bytes
of the lines, each with a line feed behind it: every read gives the next line and leaves just the
bytes of the lines behind it, and every read behind the last line finds the end of the input. In the
editor this holds whatever the prompts and the histories are, and for plain input whatever the
prompts are and wherever they are written, as long as that does not fail. -/
theorem lines_read_alike (lines : List String)
    (hlines : ∀ line ∈ lines, ∀ c ∈ line.toList, isTyped c = true)
    (calls : List (String × History)) (prompts : List String) (echo : Echo)
    (hecho : echo.Accepts) :
    editLines calls (encodeLines lines) = (List.range calls.length).map (nthRead lines) ∧
      plainLines prompts ⟨encodeLines lines, echo⟩ =
        (List.range prompts.length).map (nthRead lines) :=
  ⟨editLines_encodeLines hlines calls, plainLines_encodeLines hlines prompts hecho⟩

/-- Three lines, one of them empty and one with characters of two, three and four bytes, and four
reads of each kind. -/
theorem lines_read_alike_wide :
    let lines := ["a b", "", "é€😀"]
    let last : List UInt8 := [0xc3, 0xa9, 0xe2, 0x82, 0xac, 0xf0, 0x9f, 0x98, 0x80, 0x0a]
    let h : History := { entries := ["old"] }
    let reads : List (ReadResult × List UInt8) :=
      [(.ok (.line "a b"), 0x0a :: last), (.ok (.line ""), last), (.ok (.line "é€😀"), []),
        (.ok .eof, [])]
    (∀ line ∈ lines, ∀ c ∈ line.toList, isTyped c = true) ∧
      encodeLines lines = [0x61, 0x20, 0x62, 0x0a, 0x0a] ++ last ∧
      editLines [("> ", h), ("> ", {}), ("* ", h), ("> ", h)] (encodeLines lines) = reads ∧
      (Echo.own {}).Accepts ∧
      plainLines ["> ", "> ", "> ", "> "] ⟨encodeLines lines, .own {}⟩ = reads := by
  intro lines last h reads
  have hlines : ∀ line ∈ lines, ∀ c ∈ line.toList, isTyped c = true := by simp [lines, isTyped]
  have hreads : (List.range 4).map (nthRead lines) = reads := by
    have hlast : encodeLines ["é€😀"] = last := by decide +kernel
    have hrest : encodeLines ["", "é€😀"] = 0x0a :: last := by decide +kernel
    calc (List.range 4).map (nthRead lines)
        = [(.ok (.line "a b"), encodeLines ["", "é€😀"]),
            (.ok (.line ""), encodeLines ["é€😀"]), (.ok (.line "é€😀"), []), (.ok .eof, [])] := rfl
      _ = reads := by rw [hrest, hlast]
  obtain ⟨hedit, hplain⟩ := lines_read_alike lines hlines
    [("> ", h), ("> ", {}), ("* ", h), ("> ", h)] ["> ", "> ", "> ", "> "] (.own {}) fun _ _ => rfl
  exact ⟨hlines, by decide +kernel, hedit.trans hreads, fun _ _ => rfl, hplain.trans hreads⟩

end CalcShell.Line
