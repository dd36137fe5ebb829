import CalcShell.Proofs.Line.Streams
import Mathlib.Data.List.Basic

/-!
# Lines from any bytes

Plain input reads bytes that may be anything: text, broken text, lines without an end. The bytes are
cut behind each line feed (`pieces`), and the main statement is that the reads go through the pieces
in order: what a read gives depends on its piece alone (`Gives`), whatever was wrong with the pieces
before it, and behind the last piece every read finds the end of the input.

Whether a read gives the right line is decided at the end of its piece, where the bytes of a text
and its characters are to agree on what a line end is. They do since a line end is a character of
one byte, and no other character ends with that byte (`getLast?_flatMap_eq_some_iff`).
-/

namespace CalcShell.Line

/-! ## The pieces of the bytes -/

/-- The bytes cut behind each line feed. What is behind the last line feed, if there is anything, is
a piece as well. -/
def pieces : List UInt8 → List (List UInt8)
  | [] => []
  | b :: bytes =>
    if b = lineFeed then [b] :: pieces bytes
    else
      match pieces bytes with
      | [] => [[b]]
      | piece :: others => (b :: piece) :: others

/-- A line feed is a piece where no byte is in front of it. -/
theorem pieces_feed (bytes : List UInt8) :
    pieces (lineFeed :: bytes) = [lineFeed] :: pieces bytes := by
  rw [pieces, if_pos rfl]

/-- A byte at the end makes a piece of its own. -/
theorem pieces_single {b : UInt8} {bytes : List UInt8} (hb : b ≠ lineFeed)
    (hbytes : pieces bytes = []) : pieces (b :: bytes) = [[b]] := by
  rw [pieces, if_neg hb, hbytes]

/-- Any other byte goes to the piece behind it. -/
theorem pieces_front {b : UInt8} {bytes piece : List UInt8} {others : List (List UInt8)}
    (hb : b ≠ lineFeed) (hbytes : pieces bytes = piece :: others) :
    pieces (b :: bytes) = (b :: piece) :: others := by
  rw [pieces, if_neg hb, hbytes]

/-- The pieces make up the bytes. -/
theorem flatten_pieces (bytes : List UInt8) : (pieces bytes).flatten = bytes := by
  induction bytes using pieces.induct with
  | case1 => rfl
  | case2 bytes ih => rw [pieces_feed, List.flatten_cons, ih, List.singleton_append]
  | case3 b bytes hb hbytes ih =>
    rw [hbytes] at ih
    rw [pieces_single hb hbytes, ← ih]
    rfl
  | case4 b bytes hb piece others hbytes ih =>
    rw [hbytes] at ih
    rw [pieces_front hb hbytes, ← ih]
    rfl

/-- A piece is not empty, and only its last byte may be a line feed. -/
theorem lineFeed_not_mem_dropLast {bytes piece : List UInt8} (hpiece : piece ∈ pieces bytes) :
    piece ≠ [] ∧ lineFeed ∉ piece.dropLast := by
  induction bytes using pieces.induct generalizing piece with
  | case1 => cases hpiece
  | case2 bytes ih =>
    rw [pieces_feed] at hpiece
    rcases List.mem_cons.1 hpiece with rfl | hpiece
    · exact ⟨List.cons_ne_nil _ _, List.not_mem_nil⟩
    · exact ih hpiece
  | case3 b bytes hb hbytes ih =>
    rw [pieces_single hb hbytes] at hpiece
    cases List.mem_singleton.1 hpiece
    exact ⟨List.cons_ne_nil _ _, List.not_mem_nil⟩
  | case4 b bytes hb front others hbytes ih =>
    rw [pieces_front hb hbytes] at hpiece
    rw [hbytes] at ih
    rcases List.mem_cons.1 hpiece with rfl | hpiece
    · obtain ⟨hne, hfeed⟩ := ih List.mem_cons_self
      refine ⟨List.cons_ne_nil _ _, ?_⟩
      rw [List.dropLast_cons_of_ne_nil hne, List.mem_cons]
      exact not_or.2 ⟨Ne.symm hb, hfeed⟩
    · exact ih (List.mem_cons_of_mem _ hpiece)

/-- Every piece but the last one ends with a line feed. -/
theorem getLast?_of_mem_dropLast {bytes piece : List UInt8}
    (hpiece : piece ∈ (pieces bytes).dropLast) : piece.getLast? = some lineFeed := by
  induction bytes using pieces.induct generalizing piece with
  | case1 => cases hpiece
  | case2 bytes ih =>
    rw [pieces_feed] at hpiece
    cases hbytes : pieces bytes with
    | nil =>
      rw [hbytes] at hpiece
      cases hpiece
    | cons front others =>
      rw [hbytes, List.dropLast_cons_cons] at hpiece
      rw [hbytes] at ih
      rcases List.mem_cons.1 hpiece with rfl | hpiece
      · rfl
      · exact ih hpiece
  | case3 b bytes hb hbytes ih =>
    rw [pieces_single hb hbytes] at hpiece
    cases hpiece
  | case4 b bytes hb front others hbytes ih =>
    rw [pieces_front hb hbytes] at hpiece
    rw [hbytes] at ih
    cases others with
    | nil => cases hpiece
    | cons next others =>
      rw [List.dropLast_cons_cons] at hpiece ih
      rcases List.mem_cons.1 hpiece with rfl | hpiece
      · have hfront := ih List.mem_cons_self
        rw [List.getLast?_cons, hfront]
        rfl
      · exact ih (List.mem_cons_of_mem _ hpiece)

/-- The line that is cut off is the first piece, and the others are those of the bytes behind it. -/
theorem pieces_eq_cons {bytes : List UInt8} (hbytes : bytes ≠ []) :
    pieces bytes = (cutLine bytes).1 :: pieces (cutLine bytes).2 := by
  induction bytes with
  | nil => exact absurd rfl hbytes
  | cons b bytes ih =>
    rw [pieces, cutLine]
    split
    · rfl
    · cases bytes with
      | nil => rfl
      | cons c bytes =>
        rw [ih (List.cons_ne_nil c bytes)]

/-- A line that is cut off of some bytes is not empty. -/
theorem cutLine_ne_nil {bytes : List UInt8} (hbytes : bytes ≠ []) : (cutLine bytes).1 ≠ [] := by
  have hmem : (cutLine bytes).1 ∈ pieces bytes := by
    rw [pieces_eq_cons hbytes]
    exact List.mem_cons_self
  exact (lineFeed_not_mem_dropLast hmem).1

/-! ## The end of a line -/

/-- The byte of a carriage return. -/
def carriageReturn : UInt8 := 0x0d

/-- Bytes without `b` at their end, if it is there. -/
def dropEnd (b : UInt8) (bytes : List UInt8) : List UInt8 :=
  if bytes.getLast? = some b then bytes.dropLast else bytes

/-- A piece without the line feed at its end and without one carriage return before that or, where
there is no line feed, at its end. -/
def lineBytes (piece : List UInt8) : List UInt8 := dropEnd carriageReturn (dropEnd lineFeed piece)

/-- What a read may give for the piece that is next, if there is one: the line of a piece that is a
text, the error for any other piece, and where there is none the end of the input. -/
inductive Gives : Option (List UInt8) → ReadResult → Prop
  | line {piece : List UInt8} {whole text : String} (hwhole : Text.Utf8.encode whole = piece)
      (htext : Text.Utf8.encode text = lineBytes piece) : Gives (some piece) (.ok (.line text))
  | notUtf8 {piece : List UInt8} (hbroken : ∀ whole, Text.Utf8.encode whole ≠ piece) :
      Gives (some piece) (.error .notUtf8)
  | eof : Gives none (.ok .eof)

section Ends

variable {c : Char} {b : UInt8} (hc : String.utf8EncodeChar c = [b]) (hlow : b.toNat ≤ 0x7f)
include hc hlow

/-- The last byte of some characters is that of a character of one byte where the last of them is
this character. -/
theorem getLast?_flatMap_eq_some_iff (cs : List Char) :
    (cs.flatMap String.utf8EncodeChar).getLast? = some b ↔ cs.getLast? = some c := by
  rcases List.eq_nil_or_concat cs with rfl | ⟨init, d, rfl⟩
  · simp
  obtain ⟨lead, tail, hbytes, -, hnumbers⟩ := Text.Utf8.utf8EncodeChar_eq_cons d
  rw [List.concat_eq_append, List.getLast?_concat, List.flatMap_append, List.flatMap_singleton,
    List.getLast?_append_of_ne_nil _ (by rw [hbytes]; exact List.cons_ne_nil _ _), Option.some_inj]
  constructor
  · intro hlast
    rw [hbytes] at hlast
    rcases hnumbers with ⟨rfl, hlead⟩ | hhigh
    · -- A character of one byte is told by its number.
      obtain ⟨lead', tail', hbytes', -, hnumbers'⟩ := Text.Utf8.utf8EncodeChar_eq_cons c
      cases hc.symm.trans hbytes'
      rcases hnumbers' with ⟨-, hlead'⟩ | hhigh
      · cases hlast
        exact Char.toNat_inj.1 (hlead.symm.trans hlead')
      · exact absurd (hhigh b List.mem_cons_self) (by omega)
    · exact absurd (hhigh b (List.mem_of_getLast? hlast)) (by omega)
  · rintro rfl
    rw [hc]
    rfl

/-- Taking a character of one byte off the end of some characters takes its byte off the end of
their bytes. -/
theorem flatMap_dropLast (cs : List Char) :
    (dropLast c cs).flatMap String.utf8EncodeChar =
      dropEnd b (cs.flatMap String.utf8EncodeChar) := by
  rw [dropLast, dropEnd]
  simp only [getLast?_flatMap_eq_some_iff hc hlow]
  split
  · rename_i hlast
    obtain ⟨init, rfl⟩ := List.getLast?_eq_some_iff.1 hlast
    rw [List.dropLast_concat, List.flatMap_append, List.flatMap_singleton, hc, List.dropLast_concat]
  · rfl

end Ends

/-- What is left of a text without its line end has the bytes that are left of those of the text. -/
theorem encode_stripEnd (s : String) :
    Text.Utf8.encode (stripEnd s) = lineBytes (Text.Utf8.encode s) := by
  rw [stripEnd, lineBytes, Text.Utf8.encode_eq_flatMap, Text.Utf8.encode_eq_flatMap,
    String.toList_ofList, flatMap_dropLast (b := carriageReturn) rfl (by decide),
    flatMap_dropLast (b := lineFeed) rfl (by decide)]

/-! ## Reading the pieces -/

/-- Bytes are read as a text if and only if they are those of the text. -/
theorem decode?_eq_some_iff {bytes : List UInt8} {s : String} :
    Text.Utf8.decode? bytes = some s ↔ Text.Utf8.encode s = bytes := by
  constructor
  · intro h
    rw [Text.Utf8.decode?, String.fromUTF8?] at h
    split at h
    · cases h
      exact Text.Utf8.toList_toByteArray bytes
    · cases h
  · rintro rfl
    exact Text.Utf8.decode?_encode s

namespace Plain

/-- A read gives what the next piece is to give, and leaves the bytes of the other pieces. -/
theorem next_gives (bytes : List UInt8) (echo : Echo) :
    ∃ result rest, Plain.next ⟨bytes, echo⟩ = (result, ⟨rest, echo⟩) ∧
      Gives (pieces bytes).head? result ∧ pieces rest = (pieces bytes).tail := by
  by_cases hbytes : bytes = []
  · subst hbytes
    exact ⟨.ok .eof, [], rfl, .eof, rfl⟩
  have hsome : (cutLine bytes).1.isEmpty = false := by
    rw [List.isEmpty_eq_false_iff]
    exact cutLine_ne_nil hbytes
  rw [pieces_eq_cons hbytes, next]
  simp only [hsome]
  cases hdecode : Text.Utf8.decode? (cutLine bytes).1 with
  | none =>
    refine ⟨_, _, rfl, .notUtf8 fun whole hwhole => ?_, rfl⟩
    rw [decode?_eq_some_iff.2 hwhole] at hdecode
    cases hdecode
  | some whole =>
    have hwhole := decode?_eq_some_iff.1 hdecode
    refine ⟨_, _, rfl, .line hwhole ?_, rfl⟩
    rw [encode_stripEnd, hwhole]

/-- Reads one after the other, each under a prompt of its own: the results, and what is left. -/
def readLines : List String → Plain → List ReadResult × Plain
  | [], p => ([], p)
  | prompt :: prompts, p =>
    let (result, p) := p.readLine prompt
    let (results, p) := p.readLines prompts
    (result :: results, p)

/-- Reads give what the pieces are to give, one after the other, show their prompts, and leave the
bytes of the pieces that were not read. -/
theorem readLines_gives (bytes : List UInt8) {echo : Echo} (hecho : echo.Accepts)
    (prompts : List String) :
    ∃ results echo', readLines prompts ⟨bytes, echo⟩ =
        (results, ⟨((pieces bytes).drop prompts.length).flatten, echo'⟩) ∧
      echo.Shows prompts echo' ∧ results.length = prompts.length ∧
      ∀ (i : Nat) result, results[i]? = some result → Gives (pieces bytes)[i]? result := by
  -- By induction on the reads: the first one leaves the pieces behind the first.
  induction prompts generalizing bytes echo with
  | nil =>
    refine ⟨[], echo, ?_, echo.shows_nil, rfl, nofun⟩
    rw [readLines, List.length_nil, List.drop_zero, flatten_pieces]
  | cons prompt prompts ih =>
    obtain ⟨echo₁, hshow, hshows⟩ := Echo.show_accepted hecho prompt
    obtain ⟨result, rest, hread, hgives, hrest⟩ := next_gives bytes echo₁
    obtain ⟨results, echo', hreads, hmore, hlength, hresults⟩ := ih rest (hshows.accepts hecho)
    refine ⟨result :: results, echo', ?_, hshows.cons hmore, congrArg Nat.succ hlength,
      fun i => ?_⟩
    · rw [readLines, readLine_of_show hshow, hread]
      dsimp only
      rw [hreads, hrest, List.drop_tail]
      rfl
    · cases i with
      | zero =>
        rintro _ ⟨⟩
        rw [← List.head?_eq_getElem?]
        exact hgives
      | succ i =>
        intro r hr
        rw [← List.getElem?_tail, ← hrest]
        exact hresults i r hr

end Plain

/-- Plain input reads any bytes piece by piece. The pieces are the bytes, cut behind each line feed
and nowhere else, and none of them is empty. Each read gives what its piece is to give: the line
without its end, or the error where the piece is not well-formed UTF-8, which no other read takes
notice of; and behind the last piece every read finds the end of the input. Where prompts are
written to an echo, this then holds just the prompts of all reads. A read whose prompt is refused
takes nothing of the bytes. -/
theorem plain_reads_pieces (bytes : List UInt8) (echo : Echo) (prompts : List String) :
    (pieces bytes).flatten = bytes ∧
      (∀ piece ∈ pieces bytes, piece ≠ [] ∧ lineFeed ∉ piece.dropLast) ∧
      (∀ piece ∈ (pieces bytes).dropLast, piece.getLast? = some lineFeed) ∧
      (echo.Accepts → ∃ results echo', Plain.readLines prompts ⟨bytes, echo⟩ =
          (results, ⟨((pieces bytes).drop prompts.length).flatten, echo'⟩) ∧
        echo.Shows prompts echo' ∧ results.length = prompts.length ∧
        ∀ (i : Nat) result, results[i]? = some result → Gives (pieces bytes)[i]? result) ∧
      ∀ prompt e echo', echo.show prompt = (some e, echo') →
        Plain.readLine ⟨bytes, echo⟩ prompt = (.error e, ⟨bytes, echo'⟩) :=
  ⟨flatten_pieces bytes, fun _ => lineFeed_not_mem_dropLast, fun _ => getLast?_of_mem_dropLast,
    fun hecho => Plain.readLines_gives bytes hecho prompts,
    fun _ _ _ hrefused => Plain.readLine_refused hrefused⟩

/-- Four pieces and six reads: a line with a second carriage return, which stays, an empty line, a
byte that is no text, and text without a line feed but with a carriage return, which goes. -/
theorem plain_reads_pieces_mixed :
    let bytes : List UInt8 := [0x61, 0x0d, 0x0d, 0x0a, 0x0a, 0xff, 0x0a, 0xc3, 0xa9, 0x0d]
    let prompts := ["> ", "> ", "* ", "> ", "> ", "> "]
    let results : List ReadResult :=
      [.ok (.line "a\r"), .ok (.line ""), .error .notUtf8, .ok (.line "é"), .ok .eof, .ok .eof]
    pieces bytes = [[0x61, 0x0d, 0x0d, 0x0a], [0x0a], [0xff, 0x0a], [0xc3, 0xa9, 0x0d]] ∧
      (Echo.own {}).Accepts ∧
      (∃ sink, Plain.readLines prompts ⟨bytes, .own {}⟩ = (results, ⟨[], .own sink⟩) ∧
        sink.text = "> > * > > > ") ∧
      Gives (some [0xff, 0x0a]) (.error .notUtf8) ∧
      Gives (some [0xc3, 0xa9, 0x0d]) (.ok (.line "é")) ∧ Gives none (.ok .eof) := by
  intro bytes prompts results
  have hpieces : pieces bytes =
      [[0x61, 0x0d, 0x0d, 0x0a], [0x0a], [0xff, 0x0a], [0xc3, 0xa9, 0x0d]] := by decide +kernel
  have hecho : (Echo.own {}).Accepts := fun _ _ => rfl
  obtain ⟨results', echo, hreads, hshows, -, hgives⟩ :=
    (plain_reads_pieces bytes (.own {}) prompts).2.2.2.1 hecho
  have hresults : (Plain.readLines prompts ⟨bytes, .own {}⟩).1 = results := by decide +kernel
  rw [hreads] at hresults
  rw [hpieces] at hreads hgives
  subst hresults
  cases hshows with
  | own htext _ =>
    exact ⟨hpieces, hecho, ⟨_, hreads, htext⟩, hgives 2 _ rfl, hgives 3 _ rfl, hgives 5 _ rfl⟩

end CalcShell.Line
