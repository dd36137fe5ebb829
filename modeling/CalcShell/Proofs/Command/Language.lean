import CalcShell.Proofs.Command.Matching
import CalcShell.Proofs.Session.Reading
import Mathlib.Data.List.TakeWhile

/-!
# The language of the standard commands

A line is a command or it is source, and which of the two it is, which command it calls and what is
captured of it depend only on what is left of it when it is trimmed. `Calls` says this without
patterns: some words are commands, and three words may have blanks and a part behind them. The main
statement is that the standard table finds for each line just what `Calls` says, and nothing for a
line that is no call.

One direction follows each pattern on its preferred way. For the other, all that a pattern can take
is said by recursion on the pattern (`Pattern.Takes`), which is enough to see that a line that is
found is a call; which one, and with what captured, is then known from the first direction.
-/

namespace CalcShell.Command

/-! ## What patterns can take -/

namespace Pattern

/-- The pattern can take the characters `taken` where it begins at `pos` and `rest` is behind them.
-/
def Takes : Pattern → Nat → List Char → List Char → Prop
  | .empty, _, taken, _ => taken = []
  | .start, pos, taken, _ => taken = [] ∧ pos = 0
  | .stop, _, taken, rest => taken = [] ∧ rest = []
  | .one k, _, taken, _ => ∃ c, taken = [c] ∧ k.has c = true
  | .many k, _, taken, _ => ∀ c ∈ taken, k.has c = true
  | .oneOrMore k, _, taken, _ => taken ≠ [] ∧ ∀ c ∈ taken, k.has c = true
  | .seq p q, pos, taken, rest => ∃ front back, taken = front ++ back ∧
      p.Takes pos front (back ++ rest) ∧ q.Takes (pos + front.length) back rest
  | .alt p q, pos, taken, rest => p.Takes pos taken rest ∨ q.Takes pos taken rest
  | .opt p, pos, taken, rest => p.Takes pos taken rest ∨ taken = []
  | .group _ p, pos, taken, rest => p.Takes pos taken rest

end Pattern

/-- A cursor that was run over characters of a class took some of them. -/
theorem Cursor.of_mem_run {k : CharClass} {cs : List Char} {nearer : List Cursor} {pos : Nat}
    {captures : List (Option (Nat × Nat))} {t : Cursor}
    (ht : t ∈ run k nearer ⟨pos, cs, captures⟩ cs) :
    t ∈ nearer ∨ ∃ taken, cs = taken ++ t.rest ∧ t.pos = pos + taken.length ∧
      ∀ c ∈ taken, k.has c = true := by
  have hhere : ∀ {cs pos}, t = ⟨pos, cs, captures⟩ → ∃ taken, cs = taken ++ t.rest ∧
      t.pos = pos + taken.length ∧ ∀ c ∈ taken, k.has c = true := by
    rintro cs pos rfl
    exact ⟨[], rfl, rfl, nofun⟩
  induction cs generalizing nearer pos with
  | nil =>
    rcases List.mem_cons.1 ht with ht | ht
    · exact .inr (hhere ht)
    · exact .inl ht
  | cons c cs ih =>
    rw [run] at ht
    split at ht
    · rename_i hc
      rcases ih ht with ht | ⟨taken, hcs, hpos, htaken⟩
      · rcases List.mem_cons.1 ht with ht | ht
        · exact .inr (hhere ht)
        · exact .inl ht
      · refine .inr ⟨c :: taken, by rw [hcs]; rfl, ?_, List.forall_mem_cons.2 ⟨hc, htaken⟩⟩
        rw [hpos, List.length_cons, Nat.add_comm taken.length, ← Nat.add_assoc]
    · rcases List.mem_cons.1 ht with ht | ht
      · exact .inr (hhere ht)
      · exact .inl ht

namespace Pattern

/-- Where a match ends, the pattern took the characters up to there. -/
theorem takes_of_mem {p : Pattern} {s t : Cursor} (ht : t ∈ p.matchesFrom s) :
    ∃ taken, s.rest = taken ++ t.rest ∧ t.pos = s.pos + taken.length ∧
      p.Takes s.pos taken t.rest := by
  induction p generalizing s t with
  | empty =>
    cases List.mem_singleton.1 ht
    exact ⟨[], rfl, rfl, rfl⟩
  | start =>
    rw [matchesFrom] at ht
    split at ht
    · rename_i hpos
      cases List.mem_singleton.1 ht
      exact ⟨[], rfl, rfl, rfl, hpos⟩
    · cases ht
  | stop =>
    rw [matchesFrom] at ht
    split at ht
    · rename_i hrest
      cases List.mem_singleton.1 ht
      exact ⟨[], rfl, rfl, rfl, List.isEmpty_iff.1 hrest⟩
    · cases ht
  | one k =>
    rw [matchesFrom] at ht
    split at ht
    · cases ht
    · rename_i c cs hrest
      split at ht
      · rename_i hc
        cases List.mem_singleton.1 ht
        exact ⟨[c], hrest, rfl, c, rfl, hc⟩
      · cases ht
  | many k =>
    rcases Cursor.of_mem_run ht with ht | ⟨taken, hrest, hpos, htaken⟩
    · cases ht
    · exact ⟨taken, hrest, hpos, htaken⟩
  | oneOrMore k =>
    rw [matchesFrom] at ht
    split at ht
    · cases ht
    · rename_i c cs hrest
      split at ht
      · rename_i hc
        rcases Cursor.of_mem_run ht with ht | ⟨taken, hcs, hpos, htaken⟩
        · cases ht
        · refine ⟨c :: taken, by rw [hrest, hcs]; rfl, ?_, List.cons_ne_nil _ _,
            List.forall_mem_cons.2 ⟨hc, htaken⟩⟩
          rw [hpos, List.length_cons]
          omega
      · cases ht
  | seq p q hp hq =>
    obtain ⟨u, hu, ht⟩ := List.mem_flatMap.1 ht
    obtain ⟨front, hfront, hpos, htakes⟩ := hp hu
    obtain ⟨back, hback, hpos', htakes'⟩ := hq ht
    rw [hpos] at htakes' hpos'
    rw [hback] at hfront htakes
    refine ⟨front ++ back, ?_, ?_, front, back, rfl, htakes, htakes'⟩
    · rw [hfront, List.append_assoc]
    · rw [hpos', List.length_append, Nat.add_assoc]
  | alt p q hp hq =>
    rcases List.mem_append.1 ht with ht | ht
    · obtain ⟨taken, hrest, hpos, htakes⟩ := hp ht
      exact ⟨taken, hrest, hpos, .inl htakes⟩
    · obtain ⟨taken, hrest, hpos, htakes⟩ := hq ht
      exact ⟨taken, hrest, hpos, .inr htakes⟩
  | opt p hp =>
    rcases List.mem_append.1 ht with ht | ht
    · obtain ⟨taken, hrest, hpos, htakes⟩ := hp ht
      exact ⟨taken, hrest, hpos, .inl htakes⟩
    · cases List.mem_singleton.1 ht
      exact ⟨[], rfl, rfl, .inr rfl⟩
  | group i p hp =>
    obtain ⟨u, hu, rfl⟩ := List.mem_map.1 ht
    have htakes := hp hu
    exact htakes

/-- A word is taken as it is, and then what goes on. -/
theorem Takes.word {text : String} {p : Pattern} {pos : Nat} {taken rest : List Char}
    (h : (Pattern.word text p).Takes pos taken rest) :
    ∃ more, taken = text.toList ++ more ∧ p.Takes (pos + text.toList.length) more rest := by
  rw [Pattern.word] at h
  generalize text.toList = chars at h ⊢
  induction chars generalizing pos taken with
  | nil => exact ⟨taken, rfl, h⟩
  | cons c cs ih =>
    obtain ⟨_, back, rfl, ⟨d, rfl, hd⟩, hback⟩ := h
    cases of_decide_eq_true hd
    obtain ⟨more, rfl, hmore⟩ := ih hback
    refine ⟨more, rfl, ?_⟩
    rw [List.length_cons, Nat.add_comm cs.length, ← Nat.add_assoc]
    exact hmore

/-- A line that is matched from its start begins with the word, and goes on with what the pattern
behind the word takes. -/
theorem takes_of_captures? {text line : String} {p : Pattern} {captures : List (Option String)}
    (h : (Pattern.seq .start (Pattern.word text p)).captures? line = some captures) :
    ∃ taken rest, line.toList = text.toList ++ (taken ++ rest) ∧
      p.Takes text.toList.length taken rest := by
  rw [captures?, searchFrom_start] at h
  obtain ⟨t, ht, -⟩ := Option.map_eq_some_iff.1 h
  obtain ⟨taken, hline, -, htakes⟩ := takes_of_mem (List.mem_of_mem_head? ht)
  obtain ⟨more, rfl, hmore⟩ := htakes.word
  rw [Nat.zero_add] at hmore
  exact ⟨more, t.rest, by rw [← List.append_assoc]; exact hline, hmore⟩

end Pattern

/-! ## The four patterns -/

theorem Parts.ofList {text word : String} {gap part : List Char}
    (hblank : ∀ c ∈ gap, Text.isBlank c = true) (heq : text.toList = word.toList ++ (gap ++ part)) :
    Parts text word gap (String.ofList part) :=
  ⟨hblank, by rw [heq, String.toList_ofList (l := part)]⟩

namespace Pattern

variable {line : String} {captures : List (Option String)}

/-- The word `help`, blanks and a name: the name is captured. -/
theorem help_captures {gap : List Char} {name : String} (hline : Parts line "help" gap name)
    (hgap : gap ≠ []) (hname : name ≠ "") (hsolid : ∀ c ∈ name.toList, Text.isBlank c = false) :
    help.captures? line = some [some name] := by
  have hchars : name.toList ≠ [] := fun hnil => hname (String.toList_eq_nil_iff.1 hnil)
  have hhead : ∀ c ∈ name.toList.head?, CharClass.blank.has c = false := fun c hc =>
    hsolid c (List.mem_of_mem_head? hc)
  have hall : (oneOrMore .solid).Prefers
      ⟨"help".toList.length + gap.length, name.toList, [none]⟩ _ :=
    prefers_oneOrMore_all hchars fun c hc => by simp [CharClass.has, hsolid c hc]
  exact captures?_word_part rfl hline
    (((prefers_oneOrMore (k := .blank) hgap hline.blank hhead).seq (hall.group 0)).opt.seq
      prefers_stop)

/-- The word `cd`, blanks and a source on one line: the source is captured. -/
theorem cd_captures {gap : List Char} {source : String} (hline : Parts line "cd" gap source)
    (hgap : gap ≠ []) (hsource : ∃ c ∈ source.toList.head?, Text.isBlank c = false)
    (hfeed : '\n' ∉ source.toList) : cd.captures? line = some [some source] := by
  obtain ⟨c, hc, hsolid⟩ := hsource
  have hchars : source.toList ≠ [] := by
    intro hnil
    rw [hnil] at hc
    cases hc
  have hhead : ∀ d ∈ source.toList.head?, CharClass.blank.has d = false := by
    intro d hd
    cases hc.symm.trans hd
    exact hsolid
  have hany : ∀ d ∈ source.toList, CharClass.any.has d = true := by
    intro d hd
    refine decide_eq_true ?_
    rintro rfl
    exact hfeed hd
  have hall : (oneOrMore .any).Prefers
      ⟨"cd".toList.length + gap.length, source.toList, [none]⟩ _ :=
    prefers_oneOrMore_all hchars hany
  exact captures?_word_part rfl hline
    ((prefers_oneOrMore (k := .blank) hgap hline.blank hhead).seq ((hall.group 0).seq prefers_stop))

/-- What the pattern for help matches. -/
theorem of_help_captures? (h : help.captures? line = some captures) :
    line = "help" ∨ ∃ gap name, Parts line "help" gap name ∧ gap ≠ [] ∧ name ≠ "" ∧
      ∀ c ∈ name.toList, Text.isBlank c = false := by
  obtain ⟨_, _, hline, _, _, rfl, hopt, rfl, rfl⟩ := takes_of_captures? h
  rw [List.append_nil, List.append_nil] at hline
  rcases hopt with ⟨gap, name, rfl, ⟨hgap, hblank⟩, hname, hsolid⟩ | rfl
  · refine .inr ⟨gap, String.ofList name, .ofList hblank hline, hgap, ?_, ?_⟩
    · exact fun hempty => hname (String.ofList_eq_empty_iff.1 hempty)
    · rw [String.toList_ofList]
      exact fun c hc => by simpa [CharClass.has] using hsolid c hc
  · exact .inl (String.toList_inj.1 hline)

/-- What the pattern for leaving a session matches. -/
theorem of_cdUp_captures? (h : cdUp.captures? line = some captures) :
    ∃ gap, Parts line "cd" gap ".." := by
  obtain ⟨_, _, hline, gap, _, rfl, hblank, hpoints⟩ := takes_of_captures? h
  have hpoints : (Pattern.word ".." .stop).Takes _ _ _ := hpoints
  obtain ⟨_, rfl, rfl, rfl⟩ := hpoints.word
  rw [List.append_nil, List.append_nil] at hline
  exact ⟨gap, hblank, hline⟩

/-- What the pattern for entering a session matches in a line that does not end with a blank. The
blanks go as far as they can. -/
theorem of_cd_captures? (h : cd.captures? line = some captures)
    (hend : ∀ c ∈ line.toList.getLast?, Text.isBlank c = false) :
    ∃ gap source, Parts line "cd" gap source ∧ gap ≠ [] ∧
      (∃ c ∈ source.toList.head?, Text.isBlank c = false) ∧ '\n' ∉ source.toList := by
  obtain ⟨_, _, hline, gap, _, rfl, ⟨hgap, hblank⟩, taken, _, rfl, ⟨htaken, hany⟩, rfl, rfl⟩ :=
    takes_of_captures? h
  rw [List.append_nil, List.append_nil] at hline
  -- What was taken for the source may begin with blanks, but it does not end with one.
  have hsplit := List.takeWhile_append_dropWhile (p := Text.isBlank) (l := taken)
  have hsource : ∃ c ∈ (taken.dropWhile Text.isBlank).head?, Text.isBlank c = false := by
    have hlast : taken.getLast htaken ∈ line.toList.getLast? := by
      rw [hline, List.getLast?_append, List.getLast?_append, List.getLast?_eq_some_getLast htaken]
      rfl
    have hsolid := List.head?_dropWhile_not Text.isBlank taken
    cases hhead : (taken.dropWhile Text.isBlank).head? with
    | some c =>
      rw [hhead] at hsolid
      exact ⟨c, rfl, hsolid⟩
    | none =>
      have hall := List.dropWhile_eq_nil_iff.1 (List.head?_eq_none_iff.1 hhead)
      have hblank := hall _ (List.getLast_mem htaken)
      exact absurd ((hend _ hlast).symm.trans hblank) Bool.false_ne_true
  refine ⟨gap ++ taken.takeWhile Text.isBlank, String.ofList (taken.dropWhile Text.isBlank),
    .ofList ?_ ?_, ?_, ?_, ?_⟩
  · exact List.forall_mem_append.2 ⟨hblank, fun c hc => List.all_eq_true.1 List.all_takeWhile c hc⟩
  · rw [hline, List.append_assoc, hsplit]
  · exact fun hnil => hgap (List.append_eq_nil_iff.1 hnil).1
  · rwa [String.toList_ofList]
  · rw [String.toList_ofList]
    intro hfeed
    have hmem := (List.dropWhile_suffix Text.isBlank).subset hfeed
    exact absurd (hany _ hmem) (by decide)

/-- What the pattern for jumping matches. -/
theorem of_jumpTo_captures? (h : jumpTo.captures? line = some captures) :
    ∃ gap digits, Parts line "jump_to" gap digits ∧
      ∀ c ∈ digits.toList, CharClass.digit.has c = true := by
  obtain ⟨_, _, hline, gap, _, rfl, hblank, digits, _, rfl, hdigits, rfl, rfl⟩ :=
    takes_of_captures? h
  rw [List.append_nil, List.append_nil] at hline
  refine ⟨gap, String.ofList digits, .ofList hblank hline, ?_⟩
  rwa [String.toList_ofList]

end Pattern

/-! ## The language -/

/-- How a trimmed line calls a standard command, and what is captured of it. -/
inductive Calls {H : Host} (line : String) : Command H → List (Option String) → Prop
  /-- A word alone. -/
  | word {i : Nat} {command : Command H} (hword : (line, i) ∈ commandWords)
      (hcommand : standard[i]? = some command) : Calls line command []
  /-- A call for help on all commands. -/
  | help (hword : line = "help") : Calls line standard[2] [none]
  /-- A call for help on a name. -/
  | helpOn {gap : List Char} {name : String} (hline : Parts line "help" gap name) (hgap : gap ≠ [])
      (hname : name ≠ "") (hsolid : ∀ c ∈ name.toList, Text.isBlank c = false) :
      Calls line standard[2] [some name]
  /-- Leaving a session with two points. -/
  | leave {gap : List Char} (hline : Parts line "cd" gap "..") : Calls line standard[7] []
  /-- Entering a session on the value of a source. -/
  | enter {gap : List Char} {source : String} (hline : Parts line "cd" gap source) (hgap : gap ≠ [])
      (hsource : ∃ c ∈ source.toList.head?, Text.isBlank c = false) (hfeed : '\n' ∉ source.toList)
      (hleave : ∀ gap, ¬ Parts line "cd" gap "..") : Calls line standard[8] [some source]
  /-- Jumping to a level, or without digits to the outermost one. -/
  | jump {gap : List Char} {digits : String} (hline : Parts line "jump_to" gap digits)
      (hdigits : ∀ c ∈ digits.toList, CharClass.digit.has c = true) :
      Calls line standard[9] [some digits]

/-- A call finds the command, with what is captured. -/
theorem Calls.find? {H : Host} {line : String} {command : Command H}
    {captures : List (Option String)} (h : Calls (Text.trim line) command captures) :
    Table.find? standard line = some (command, captures) := by
  cases h with
  | word hword hcommand => exact find?_of_mem_commandWords hword hcommand
  | help hword =>
    have hbefore : ∀ l ∈ standardListings.take 2, l.captures? "help" = none := by decide +kernel
    have hcommand : standardListings[2]?.bind (·.captures? "help") = some [none] := by
      decide +kernel
    rw [← hword] at hbefore hcommand
    exact Table.find?_eq (by simp) hbefore hcommand
  | helpOn hline hgap hname hsolid =>
    have hinitial : (Text.trim line).toList.head? = some 'h' := by rw [hline.eq]; rfl
    have hkeys : ∀ l ∈ standardListings.take 2, ∀ k ∈ l.keys,
        k.initial?.any (· ≠ 'h') = true := by decide
    exact Table.find?_eq (by simp)
      (fun l hl => Listing.captures?_eq_none (hkeys l hl) hinitial)
      (List.findSome?_singleton.trans (Pattern.help_captures hline hgap hname hsolid))
  | leave hline => exact find?_cdUp hline
  | enter hline hgap hsource hfeed hleave =>
    have hinitial : (Text.trim line).toList.head? = some 'c' := by rw [hline.eq]; rfl
    have hkeys : ∀ l ∈ standardListings.take 7, ∀ k ∈ l.keys,
        k.initial?.any (· ≠ 'c') = true := by decide
    have hnone : (standardAt (H := H) 7).captures? (Text.trim line) = none := by
      rw [leave_captures?_eq hinitial, Option.eq_none_iff_forall_ne_some]
      intro captures hcaptures
      obtain ⟨gap, hup⟩ := Pattern.of_cdUp_captures? hcaptures
      exact hleave gap hup
    refine Table.find?_eq (by simp) (fun l hl => ?_)
      (List.findSome?_singleton.trans (Pattern.cd_captures hline hgap hsource hfeed))
    -- The commands before are those that begin otherwise, and the one that leaves.
    have hl : l ∈ standardListings.take 7 ++ [(standardAt (H := H) 7).toListing] := hl
    rcases List.mem_append.1 hl with hl | hl
    · exact Listing.captures?_eq_none (hkeys l hl) hinitial
    · rw [List.mem_singleton.1 hl]
      exact hnone
  | jump hline hdigits => exact find?_jumpTo hline hdigits

/-- The key is one of the words or one of the four patterns. -/
def Key.IsStandard : Key → Prop
  | .literal text => text ∈ commandWords.map Prod.fst
  | .pattern p => p ∈ [Pattern.help, .cdUp, .cd, .jumpTo]

theorem isStandard_of_mem {H : Host} {command : Command H} (hcommand : command ∈ standard) :
    ∀ k ∈ command.keys, k.IsStandard := by
  simp only [standard, List.mem_cons, List.not_mem_nil, or_false] at hcommand
  rcases hcommand with rfl | rfl | rfl | rfl | rfl | rfl | rfl | rfl | rfl | rfl
  all_goals simp [Key.IsStandard, commandWords]

/-- A trimmed line that a key matches is a call. -/
theorem Key.IsStandard.exists_calls {k : Key} (hk : k.IsStandard) (H : Host) {line : String}
    {captures : List (Option String)} (h : k.captures? line = some captures)
    (hend : ∀ c ∈ line.toList.getLast?, Text.isBlank c = false) :
    ∃ (command : Command H) (captures : _), Calls line command captures := by
  cases k with
  | literal text =>
    rw [Key.captures?] at h
    split at h
    · rename_i htext
      subst htext
      have hplaces : ∀ p ∈ commandWords, p.2 < 10 := by decide
      obtain ⟨p, hp, rfl⟩ := List.mem_map.1 hk
      exact ⟨_, _, .word hp (List.getElem?_eq_getElem (hplaces p hp))⟩
    · cases h
  | pattern p =>
    simp only [Key.IsStandard, List.mem_cons, List.not_mem_nil, or_false] at hk
    rcases hk with rfl | rfl | rfl | rfl
    · rcases Pattern.of_help_captures? h with hword | ⟨gap, name, hline, hgap, hname, hsolid⟩
      · exact ⟨_, _, .help hword⟩
      · exact ⟨_, _, .helpOn hline hgap hname hsolid⟩
    · obtain ⟨gap, hline⟩ := Pattern.of_cdUp_captures? h
      exact ⟨_, _, .leave hline⟩
    · obtain ⟨gap, source, hline, hgap, hsource, hfeed⟩ := Pattern.of_cd_captures? h hend
      by_cases hleave : ∃ gap, Parts line "cd" gap ".."
      · obtain ⟨gap, hline⟩ := hleave
        exact ⟨_, _, .leave hline⟩
      · exact ⟨_, _, .enter hline hgap hsource hfeed (not_exists.1 hleave)⟩
    · obtain ⟨gap, digits, hline, hdigits⟩ := Pattern.of_jumpTo_captures? h
      exact ⟨_, _, .jump hline hdigits⟩

/-- What is found for a line is what the trimmed line calls. -/
theorem find?_eq_some_iff {H : Host} {line : String} {command : Command H}
    {captures : List (Option String)} :
    Table.find? standard line = some (command, captures) ↔
      Calls (Text.trim line) command captures := by
  refine ⟨fun h => ?_, Calls.find?⟩
  obtain ⟨found, hfound, hmap⟩ := List.exists_of_findSome?_eq_some h
  obtain ⟨_, hcaptures, -⟩ := Option.map_eq_some_iff.1 hmap
  obtain ⟨k, hk, hkey⟩ := List.exists_of_findSome?_eq_some hcaptures
  have hend : ∀ c ∈ (Text.trim line).toList.getLast?, Text.isBlank c = false := by
    rw [Text.trim, String.toList_ofList]
    exact Text.trimChars_getLast? _
  obtain ⟨command', captures', hcalls⟩ := (isStandard_of_mem hfound k hk).exists_calls H hkey hend
  -- The line finds what it calls, so it calls what it finds.
  cases h.symm.trans hcalls.find?
  exact hcalls

/-- For every host, the standard table finds for a line just the command that the trimmed line
calls, with just what is captured of it, and finds nothing for a line that is no call. A session
with this table carries out the plan of the command then, and whatever comes of it, nothing is
pending any more. A line that is no call leaves the pending text and all else as it is. -/
theorem standard_language {H : Host} :
    (∀ line (command : Command H) captures, Table.find? standard line = some (command, captures) ↔
      Calls (Text.trim line) command captures) ∧
    (∀ line, Table.find? (standard (H := H)) line = none ↔
      ∀ (command : Command H) captures, ¬ Calls (Text.trim line) command captures) ∧
    ∀ (run : Session.Runner H) (rounds : Nat) (s : Session H) (ctx : H.Context)
      (line pending : String) (w : World H), s.config.commands = standard →
      (∀ (command : Command H) captures, Calls (Text.trim line) command captures →
        (s.dispatch run rounds ctx line pending w).1.1 ≠ .ok false ∧
        (s.dispatch run rounds ctx line pending w).1.2 = "") ∧
      ((∀ (command : Command H) captures, ¬ Calls (Text.trim line) command captures) →
        s.dispatch run rounds ctx line pending w = ((.ok false, pending), w)) := by
  have hnone : ∀ line, Table.find? (standard (H := H)) line = none ↔
      ∀ (command : Command H) captures, ¬ Calls (Text.trim line) command captures := by
    intro line
    simp only [← find?_eq_some_iff, Option.eq_none_iff_forall_ne_some, Prod.forall, ne_eq]
  refine ⟨fun _ _ _ => find?_eq_some_iff, hnone, fun run rounds s ctx line pending w hs => ?_⟩
  constructor
  · intro command captures hcalls
    have hfind : s.config.commands.find? line = some (command, captures) := by
      rw [hs]
      exact hcalls.find?
    refine ⟨?_, s.dispatch_clears run rounds ctx pending (hs ▸ standard_clears) hfind w⟩
    rw [Session.dispatch, hfind]
    dsimp only
    split
    · rintro ⟨⟩
    · rintro ⟨⟩
  · intro hcalls
    refine s.dispatch_none run rounds ctx pending ?_ w
    rw [hs]
    exact (hnone line).2 hcalls

/-- Two points behind `cd` are a source if more is behind them. A line feed within the source makes
the line no call. A session on which the first of these lines is called has nothing pending
afterwards, though the source cannot be parsed. -/
theorem standard_language_points :
    let line := " cd\t.. + 1\n"
    let s : Session Calc.host := ⟨1, .standard 0⟩
    let w : World Calc.host := { host := .single }
    Calls (Text.trim line) (standard (H := Calc.host))[8] [some ".. + 1"] ∧
      Table.find? standard line = some ((standard (H := Calc.host))[8], [some ".. + 1"]) ∧
      (∀ (command : Command Calc.host) captures,
        ¬ Calls (Text.trim "cd 1\n2") command captures) ∧
      s.config.commands = standard ∧
      (s.dispatch (Session.run 3) 3 Calc.topContext line "(\n" w).1.2 = "" := by
  intro line s w
  have htrim : Text.trim line = "cd\t.. + 1" := by decide +kernel
  have hleave : ∀ gap, ¬ Parts (Text.trim line) "cd" gap ".." := by
    rintro gap ⟨-, heq⟩
    rw [htrim] at heq
    have hlast := congrArg List.getLast? heq
    rw [List.getLast?_append, List.getLast?_append] at hlast
    cases hlast
  have hcalls : Calls (Text.trim line) (standard (H := Calc.host))[8] [some ".. + 1"] := by
    have hblank : ∀ c ∈ ['\t'], Text.isBlank c = true := List.forall_mem_singleton.2 (by decide)
    have hparts : Parts (Text.trim line) "cd" ['\t'] ".. + 1" := ⟨hblank, by rw [htrim]; rfl⟩
    exact .enter hparts (List.cons_ne_nil _ _) ⟨'.', rfl, by decide⟩ (by decide) hleave
  obtain ⟨hfind, hnone, hdispatch⟩ := standard_language (H := Calc.host)
  have hfeed : Table.find? (standard (H := Calc.host)) "cd 1\n2" = none :=
    Option.isNone_iff_eq_none.1 (by decide +kernel)
  have hfound := (hfind line _ _).2 hcalls
  have hempty := ((hdispatch (Session.run 3) 3 s Calc.topContext line "(\n" w rfl).1 _ _ hcalls).2
  exact ⟨hcalls, hfound, (hnone "cd 1\n2").1 hfeed, rfl, hempty⟩

end CalcShell.Command
