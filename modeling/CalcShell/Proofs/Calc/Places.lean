import CalcShell.Calc.Lexer
import Mathlib.Data.List.DropRight
import Mathlib.Data.String.Basic

/-!
# Places and the lines of a source

The lexer has offsets located among the lines of the source. The same positions come of counting
while the source is read (`Position.next`): `LineMap.locate_eq` says so of every place between two
characters, and `lex_eq` of the tokens and errors of a source, so that whatever is said of positions
elsewhere is said of counted ones.

That halving finds the line is `search_ok` and `search_error`, for which all that counts is which
numbers in front of a place are smaller and which from there on are larger. Two ways to keep places
give corresponding tokens if they give corresponding positions at all places that come
(`Place.Correspond`, `lexFrom_correspond`).
-/

namespace CalcShell.Calc

open String (utf8Len)

/-! ## Counting -/

namespace Position

/-- The place before the first character. -/
def start : Position := ⟨0, 1, 1⟩

/-- The place behind character `c`, which stands at `p`. -/
def next (p : Position) (c : Char) : Position :=
  if c = '\n' then ⟨p.offset + 1, p.line + 1, 1⟩
  else ⟨p.offset + c.utf8Size, p.line, p.col + 1⟩

/-- The place behind the characters `cs`, which stand at `p`. -/
def after (p : Position) (cs : List Char) : Position := cs.foldl next p

@[simp]
theorem after_nil (p : Position) : p.after [] = p := rfl

@[simp]
theorem after_cons (p : Position) (c : Char) (cs : List Char) :
    p.after (c :: cs) = (p.next c).after cs := rfl

theorem after_append (p : Position) (cs ds : List Char) :
    p.after (cs ++ ds) = (p.after cs).after ds := by
  simp [after]

@[simp]
theorem next_offset (p : Position) (c : Char) : (p.next c).offset = p.offset + c.utf8Size := by
  unfold next
  split
  · -- A line end takes one byte.
    rename_i h
    subst h
    rfl
  · rfl

/-- Characters move a place on by the bytes that they take. -/
theorem after_offset (p : Position) (cs : List Char) :
    (p.after cs).offset = p.offset + (String.ofList cs).utf8ByteSize := by
  induction cs generalizing p with
  | nil => simp
  | cons c cs ih =>
    rw [String.ofList_cons]
    simp [ih, Nat.add_assoc]

/-- Characters move a place on by their line ends. -/
theorem after_line (p : Position) (cs : List Char) :
    (p.after cs).line = p.line + cs.count '\n' := by
  induction cs generalizing p with
  | nil => rfl
  | cons c cs ih =>
    rw [after_cons, ih, List.count_cons]
    unfold next
    split
    · rename_i hc
      rw [if_pos (beq_iff_eq.2 hc)]
      dsimp only
      omega
    · rename_i hc
      rw [if_neg (mt beq_iff_eq.1 hc)]
      rfl

/-- A column counts the characters behind the last line end. -/
theorem start_after_col (cs : List Char) :
    (start.after cs).col = 1 + (cs.rtakeWhile (· ≠ '\n')).length := by
  induction cs using List.reverseRecOn with
  | nil => rfl
  | append_singleton cs c ih =>
    rw [after_append, after_cons, after_nil, List.rtakeWhile_concat]
    unfold next
    split
    · rename_i hc
      rw [if_neg (by simp [hc])]
      rfl
    · rename_i hc
      rw [if_pos (by simp [hc]), List.length_append, ← Nat.add_assoc, ← ih]
      rfl

end Position

/-- A position is a place that is counted. -/
instance : Place Position where
  next := Position.next
  position := id

theorem Place.position_eq (p : Position) : Place.position p = p := rfl

theorem Place.after_eq (p : Position) (cs : List Char) : Place.after p cs = p.after cs := rfl

/-! ## Halving -/

section Search

variable {sorted : Array Nat} {x low high : Nat}

/-- A place that is found holds the number. -/
theorem search_ok {i : Nat} (h : search sorted x low high = .ok i) :
    i < high ∧ sorted.getD i 0 = x := by
  fun_induction search sorted x low high with
  | case1 low high hlt middle heq =>
    have hi : middle = i := Except.ok.inj h
    exact ⟨by omega, hi ▸ heq⟩
  | case2 low high hlt middle _ _ ih => exact ih h
  | case3 low high hlt middle _ _ ih =>
    obtain ⟨hi, heq⟩ := ih h
    exact ⟨by omega, heq⟩
  | case4 => cases h

/-- If a number is not found then those in front of the place where it would go are smaller, and
those from there on are larger. -/
theorem search_error {i : Nat} (h : search sorted x low high = .error i)
    (hsorted : ∀ j k, j ≤ k → k < sorted.size → sorted.getD j 0 ≤ sorted.getD k 0)
    (hle : low ≤ high) (hhigh : high ≤ sorted.size) (hlow : ∀ j < low, sorted.getD j 0 < x)
    (habove : ∀ j, high ≤ j → j < sorted.size → x < sorted.getD j 0) :
    i ≤ high ∧ (∀ j < i, sorted.getD j 0 < x) ∧
      ∀ j, i ≤ j → j < sorted.size → x < sorted.getD j 0 := by
  -- What is known in front of `low` and from `high` on is kept whichever half is dropped.
  fun_induction search sorted x low high with
  | case1 => cases h
  | case2 low high hlt middle hne hless ih =>
    refine ih h (by omega) hhigh (fun j hj => ?_) habove
    exact Nat.lt_of_le_of_lt (hsorted j middle (by omega) (by omega)) hless
  | case3 low high hlt middle hne hless ih =>
    have hmiddle : x < sorted.getD middle 0 := by omega
    obtain ⟨hi, hfront, hrest⟩ := ih h (by omega) (by omega) hlow fun j hj hsize =>
      Nat.lt_of_lt_of_le hmiddle (hsorted middle j hj hsize)
    exact ⟨by omega, hfront, hrest⟩
  | case4 low high hnlt =>
    have hi : low = i := Except.error.inj h
    subst hi
    exact ⟨hle, hlow, fun j hj => habove j (by omega)⟩

end Search

/-! ## Lines -/

namespace LineMap

theorem behindLineEnds_append (offset : Nat) (cs ds : List Char) :
    behindLineEnds offset (cs ++ ds) =
      behindLineEnds offset cs ++ behindLineEnds (offset + utf8Len cs) ds := by
  induction cs generalizing offset with
  | nil => rfl
  | cons c cs ih =>
    rw [List.cons_append, behindLineEnds, behindLineEnds, ih, ih, String.utf8Len_cons]
    split
    · rename_i hc
      subst hc
      rw [List.cons_append, Nat.add_assoc, Nat.add_comm 1]
      rfl
    · rw [Nat.add_assoc, Nat.add_comm c.utf8Size]

/-- There are as many line starts as line ends. -/
theorem length_behindLineEnds (offset : Nat) (cs : List Char) :
    (behindLineEnds offset cs).length = cs.count '\n' := by
  induction cs generalizing offset with
  | nil => rfl
  | cons c cs ih =>
    rw [behindLineEnds, List.count_cons]
    split
    · rename_i hc
      rw [List.length_cons, ih, if_pos (beq_iff_eq.2 hc)]
    · rename_i hc
      rw [ih, if_neg (mt beq_iff_eq.1 hc), Nat.add_zero]

/-- A line that starts behind a line end starts behind the offset, and not behind the last
character. -/
theorem mem_behindLineEnds {offset x : Nat} {cs : List Char} (h : x ∈ behindLineEnds offset cs) :
    offset < x ∧ x ≤ offset + utf8Len cs := by
  induction cs generalizing offset with
  | nil => cases h
  | cons c cs ih =>
    have hpos := c.utf8Size_pos
    rw [String.utf8Len_cons]
    rw [behindLineEnds] at h
    split at h
    · rename_i hc
      subst hc
      have hsize : ('\n' : Char).utf8Size = 1 := rfl
      rcases List.mem_cons.1 h with rfl | h
      · omega
      · have := ih h
        omega
    · have := ih h
      omega

/-- Lines start one behind the other. -/
theorem behindLineEnds_sorted (offset : Nat) (cs : List Char) :
    (offset :: behindLineEnds offset cs).Pairwise (· < ·) := by
  refine List.pairwise_cons.2 ⟨fun x hx => (mem_behindLineEnds hx).1, ?_⟩
  induction cs generalizing offset with
  | nil => exact .nil
  | cons c cs ih =>
    rw [behindLineEnds]
    split
    · exact List.pairwise_cons.2 ⟨fun x hx => (mem_behindLineEnds hx).1, ih _⟩
    · exact ih _

/-- The last line starts behind the last line end. -/
theorem getLast?_behindLineEnds (cs : List Char) :
    (0 :: behindLineEnds 0 cs).getLast? = some (utf8Len (cs.rdropWhile (· ≠ '\n'))) := by
  induction cs using List.reverseRecOn with
  | nil => rfl
  | append_singleton cs c ih =>
    rw [behindLineEnds_append, Nat.zero_add, ← List.cons_append, List.getLast?_append, ih,
      List.rdropWhile_concat, behindLineEnds, behindLineEnds]
    by_cases hc : c = '\n'
    · subst hc
      simp only [if_true, decide_not, decide_true, Bool.not_true, Bool.false_eq_true, if_false,
        String.utf8Len_append]
      rfl
    · rw [if_neg hc, if_pos (by simp [hc])]
      rfl

section Line

variable {src : String} {before behind : List Char} (h : src.toList = before ++ behind)
include h

/-- The line starts of a source, in front of a place in it and behind. -/
theorem starts_eq :
    (ofText src).starts =
      ((0 :: behindLineEnds 0 before) ++ behindLineEnds (utf8Len before) behind).toArray := by
  rw [ofText, h, behindLineEnds_append, Nat.zero_add, List.cons_append]

/-- The first line starts, one more than there are line ends in front of a place, are not behind
it. -/
theorem start_le {j : Nat} (hj : j ≤ before.count '\n') :
    (ofText src).starts.getD j 0 ≤ utf8Len before := by
  have hlength : j < (0 :: behindLineEnds 0 before).length := by
    rw [List.length_cons, length_behindLineEnds]
    omega
  rw [starts_eq h, Array.getD_eq_getD_getElem?, List.getElem?_toArray,
    List.getElem?_append_left hlength, List.getElem?_eq_getElem hlength, Option.getD_some]
  rcases List.mem_cons.1 (List.getElem_mem hlength) with heq | hmem
  · omega
  · have := mem_behindLineEnds hmem
    omega

/-- The other line starts are behind the place. -/
theorem lt_start {j : Nat} (hj : before.count '\n' < j) (hsize : j < (ofText src).starts.size) :
    utf8Len before < (ofText src).starts.getD j 0 := by
  have hlength : (0 :: behindLineEnds 0 before).length ≤ j := by
    rw [List.length_cons, length_behindLineEnds]
    omega
  rw [starts_eq h, List.size_toArray] at hsize
  rw [starts_eq h, Array.getD_eq_getD_getElem?, List.getElem?_toArray,
    List.getElem?_eq_getElem hsize, Option.getD_some, List.getElem_append_right hlength]
  exact (mem_behindLineEnds (List.getElem_mem _)).1

/-- There is a line start for each line end in front of the place and one more. -/
theorem count_lt_size : before.count '\n' < (ofText src).starts.size := by
  rw [starts_eq h, List.size_toArray, List.length_append, List.length_cons, length_behindLineEnds]
  omega

omit h in
/-- The lines of a source start in order. -/
theorem starts_sorted (src : String) {j k : Nat} (hjk : j < k)
    (hk : k < (ofText src).starts.size) :
    (ofText src).starts.getD j 0 < (ofText src).starts.getD k 0 := by
  rw [ofText, List.size_toArray] at hk
  rw [ofText, Array.getD_eq_getD_getElem?, Array.getD_eq_getD_getElem?, List.getElem?_toArray,
    List.getElem?_toArray, List.getElem?_eq_getElem hk,
    List.getElem?_eq_getElem (Nat.lt_trans hjk hk)]
  exact List.pairwise_iff_getElem.1 (behindLineEnds_sorted 0 src.toList) j k _ hk hjk

/-- Halving finds the last line that starts at or before the place. -/
theorem lineAt_eq : (ofText src).lineAt (utf8Len before) = before.count '\n' := by
  have hsize := count_lt_size h
  unfold lineAt
  cases hfound : search (ofText src).starts (utf8Len before) 0 (ofText src).starts.size with
  | ok i =>
    obtain ⟨hi, heq⟩ := search_ok hfound
    dsimp only
    -- The place is the start of this line, and no other line starts there.
    rcases Nat.lt_trichotomy i (before.count '\n') with hlt | rfl | hlt
    · have h₁ := starts_sorted src hlt hsize
      have h₂ := start_le h (Nat.le_refl _)
      omega
    · rfl
    · have := lt_start h hlt hi
      omega
  | error i =>
    obtain ⟨hi, hfront, hrest⟩ := search_error hfound
      (fun j k hjk hk => (Nat.lt_or_eq_of_le hjk).elim
        (fun hjk => Nat.le_of_lt (starts_sorted src hjk hk)) fun hjk => hjk ▸ Nat.le_refl _)
      (Nat.zero_le _) (Nat.le_refl _) (fun j hj => absurd hj (Nat.not_lt_zero j))
      fun j hj hj' => absurd hj' (Nat.not_lt_of_le hj)
    -- The place where the offset would go is the one behind the line.
    have heq : i = before.count '\n' + 1 := by
      rcases Nat.lt_trichotomy i (before.count '\n' + 1) with hlt | heq | hlt
      · have h₁ := hrest _ (Nat.le_of_lt_succ hlt) hsize
        have h₂ := start_le h (Nat.le_refl _)
        omega
      · exact heq
      · have h₁ := hfront _ hlt
        have h₂ := lt_start h (Nat.lt_add_one _) (Nat.lt_of_lt_of_le hlt hi)
        omega
    rw [heq]

/-- The line starts behind the last line end in front of the place. -/
theorem start_eq : (ofText src).starts.getD (before.count '\n') 0 =
    utf8Len (before.rdropWhile (· ≠ '\n')) := by
  have hlength : before.count '\n' < (0 :: behindLineEnds 0 before).length := by
    rw [List.length_cons, length_behindLineEnds]
    omega
  have hlast := getLast?_behindLineEnds before
  rw [List.getLast?_eq_getElem?, List.length_cons, length_behindLineEnds,
    Nat.add_sub_cancel] at hlast
  rw [starts_eq h, Array.getD_eq_getD_getElem?, List.getElem?_toArray,
    List.getElem?_append_left hlength, hlast, Option.getD_some]

/-- The characters between the start of the line and the place. -/
theorem extract_eq : String.Pos.Raw.extract src ⟨utf8Len (before.rdropWhile (· ≠ '\n'))⟩
    ⟨utf8Len before⟩ = String.ofList (before.rtakeWhile (· ≠ '\n')) := by
  have hbefore : before = before.rdropWhile (· ≠ '\n') ++ before.rtakeWhile (· ≠ '\n') :=
    List.rdropWhile_append_rtakeWhile.symm
  have hsrc : src = String.ofList (before.rdropWhile (· ≠ '\n') ++
      before.rtakeWhile (· ≠ '\n') ++ behind) := by
    rw [← hbefore, ← h, String.ofList_toList]
  have hlen : utf8Len before = utf8Len (before.rdropWhile (· ≠ '\n')) +
      utf8Len (before.rtakeWhile (· ≠ '\n')) := by
    rw [← String.utf8Len_append, ← hbefore]
  rw [hlen, hsrc]
  exact String.extract_of_valid _ _ _

/-- Locating an offset among the lines gives what counting gives. -/
theorem locate_eq : (ofText src).locate src (utf8Len before) = Position.start.after before := by
  have hcol := Position.start_after_col before
  have hline := Position.after_line .start before
  have hoffset := Position.after_offset .start before
  rw [String.utf8ByteSize_ofList] at hoffset
  rw [locate, lineAt_eq h, start_eq h, extract_eq h, String.length_ofList]
  generalize Position.start.after before = p at hcol hline hoffset
  obtain ⟨offset, line, col⟩ := p
  simp only [Position.start] at hcol hline hoffset
  simp only [Position.mk.injEq]
  omega

end Line

end LineMap

/-! ## Places that correspond -/

/-- The error with its position changed. -/
def SourceError.reposition (f : Position → Position) (err : SourceError) : SourceError :=
  ⟨err.cause, f err.position⟩

/-- The stream with all positions changed. -/
def TokenStream.reposition (f : Position → Position) (s : TokenStream) : TokenStream :=
  ⟨s.tokens.map fun t => { t with position := f t.position }, f s.stop⟩

/-- Two places in front of the same characters: all places behind the second one have the positions
that `f` makes of those behind the first one. -/
def Place.Correspond {P Q : Type} [Place P] [Place Q] (f : Position → Position) (p : P) (q : Q)
    (cs : List Char) : Prop :=
  ∀ front, front <+: cs →
    Place.position (Place.after q front) = f (Place.position (Place.after p front))

section Correspond

variable {P Q : Type} [Place P] [Place Q] {f : Position → Position} {p : P} {q : Q} {c : Char}
  {cs ds : List Char}

namespace Place.Correspond

theorem position (h : Correspond f p q cs) : Place.position q = f (Place.position p) :=
  h [] List.nil_prefix

theorem after (h : Correspond f p q (cs ++ ds)) :
    Correspond f (Place.after p cs) (Place.after q cs) ds := by
  intro front hfront
  have hafter := h (cs ++ front) ((List.prefix_append_right_inj cs).2 hfront)
  simpa only [Place.after, List.foldl_append] using hafter

theorem next (h : Correspond f p q (c :: cs)) :
    Correspond f (Place.next p c) (Place.next q c) cs :=
  have hone : Correspond f p q ([c] ++ cs) := h
  hone.after

end Place.Correspond

/-- The body of a string is read alike from places that correspond. -/
theorem scanBody_correspond {opening : P} {opening' : Q}
    (hopening : Place.position opening' = f (Place.position opening))
    (h : Place.Correspond f p q cs) :
    scanBody opening' q cs = (scanBody opening p cs).mapError (SourceError.reposition f) := by
  fun_induction scanBody opening p cs generalizing q with
  | case1 =>
    unfold scanBody
    rw [hopening]
    rfl
  | case2 =>
    unfold scanBody
    rfl
  | case3 =>
    unfold scanBody
    rw [hopening]
    rfl
  | case4 p e cs he => simp [scanBody, he, h.position, Except.mapError, SourceError.reposition]
  | case5 p e cs x hx err _ herr ih =>
    rw [herr] at ih
    simp [scanBody, hx, ih h.next.next, Except.mapError]
  | case6 p e cs x hx value raw rest _ hbody ih =>
    rw [hbody] at ih
    simp [scanBody, hx, ih h.next.next, Except.mapError]
  | case7 p c cs hquote hslash err herr ih =>
    rw [herr] at ih
    unfold scanBody
    simp [hquote, hslash, ih h.next, Except.mapError]
  | case8 p c cs hquote hslash value raw rest hbody ih =>
    rw [hbody] at ih
    unfold scanBody
    simp [hquote, hslash, ih h.next, Except.mapError]

/-- What stands at the front is read alike from places that correspond. -/
theorem scan_correspond (h : Place.Correspond f p q (c :: cs)) :
    scan q c cs = (scan p c cs).mapError (SourceError.reposition f) := by
  unfold scan
  split
  · rfl
  split
  · rfl
  split
  · rfl
  split
  · unfold scanString
    rw [scanBody_correspond h.position h.next]
    cases scanBody p (Place.next p c) cs with
    | error err => rfl
    | ok body => rfl
  split
  · unfold scanNumber
    rw [h.position]
    split <;> rfl
  split
  · rfl
  · unfold scanSymbol
    rw [h.position]
    split
    · rfl
    · split <;> rfl

/-- What stands at the front of a source is read first, and then what is behind it. -/
theorem lexFrom_scan (p : P) (c : Char) (cs : List Char) :
    lexFrom p (c :: cs) =
      match scan p c cs with
      | .error e => .error e
      | .ok l =>
        match lexFrom (Place.after p l.raw) l.rest with
        | .error e => .error e
        | .ok s => .ok (l.emit (Place.position p) s) := by
  rw [lexFrom]
  split
  · rename_i h
    exact h ▸ rfl
  · rename_i h
    exact h ▸ rfl

theorem Lexeme.emit_reposition (l : Lexeme) (p : Position) (s : TokenStream) :
    l.emit (f p) (s.reposition f) = (l.emit p s).reposition f := by
  unfold emit
  cases l.kind with
  | none => rfl
  | some kind => rfl

/-- Sources are read alike from places that correspond. -/
theorem lexFrom_correspond (h : Place.Correspond f p q cs) :
    lexFrom q cs = ((lexFrom p cs).map (TokenStream.reposition f)).mapError
      (SourceError.reposition f) := by
  induction hn : cs.length using Nat.strongRecOn generalizing p q cs with
  | _ n ih =>
    cases cs with
    | nil =>
      rw [lexFrom, lexFrom, h.position]
      rfl
    | cons c cs =>
      rw [lexFrom_scan, lexFrom_scan, scan_correspond h]
      cases hscan : scan p c cs with
      | error err => rfl
      | ok l =>
        have hrest := ih l.rest.length (hn ▸ scan_rest_length hscan)
          (Place.Correspond.after ((scan_append hscan).symm ▸ h)) rfl
        simp only [Except.mapError, hrest, h.position]
        cases lexFrom (Place.after p l.raw) l.rest with
        | error err => rfl
        | ok s => exact congrArg Except.ok (l.emit_reposition _ s)

end Correspond

/-! ## Sources -/

/-- A string is read from its opening quote on. -/
theorem scanString_eq (p : Position) (c : Char) (cs : List Char) :
    scanString p c cs =
      match scanBody p (p.next c) cs with
      | .error e => .error e
      | .ok (value, raw, rest) => .ok ⟨some .str, String.ofList value, c :: raw, rest⟩ :=
  rfl

/-- The end of a source has no tokens. -/
theorem lexFrom_nil (p : Position) : lexFrom p [] = .ok ⟨[], p⟩ := by
  rw [lexFrom, Place.position_eq]

/-- Moving on by characters adds the bytes that they take. -/
theorem Mark.after_eq (m : Mark) (cs : List Char) :
    Place.after m cs = { m with offset := m.offset + utf8Len cs } := by
  induction cs generalizing m with
  | nil => rfl
  | cons c cs ih =>
    have hcons : Place.after m (c :: cs) = Place.after (Place.next m c) cs := rfl
    rw [hcons, ih]
    simp only [Place.next, String.utf8Len_cons, Nat.add_assoc, Nat.add_comm c.utf8Size]

/-- All positions that are located in a source are those that are counted. -/
theorem Mark.correspond (src : String) :
    Place.Correspond id Position.start (Mark.start src) src.toList := by
  rintro front ⟨behind, h⟩
  rw [Mark.after_eq, Place.after_eq, Place.position_eq, ← LineMap.locate_eq h.symm]
  simp only [Place.position, Mark.start, Nat.zero_add, id_eq]

/-- The tokens of a source are those that are read with counted positions. -/
theorem lex_eq (src : String) : lex src = lexFrom Position.start src.toList := by
  rw [lex, lexFrom_correspond (Mark.correspond src)]
  cases lexFrom Position.start src.toList with
  | error err => rfl
  | ok s =>
    -- Nothing is done to the tokens.
    have hid : s.reposition id = s := by
      simp [TokenStream.reposition]
    exact congrArg Except.ok hid

/-- A source that is read with counted positions gives what it gives. -/
theorem lexFrom_of_lex {src : String} {r : Except SourceError TokenStream} (h : lex src = r) :
    lexFrom Position.start src.toList = r :=
  lex_eq src ▸ h

theorem lex_of_lexFrom {src : String} {r : Except SourceError TokenStream}
    (h : lexFrom Position.start src.toList = r) : lex src = r :=
  (lex_eq src).trans h

end CalcShell.Calc
