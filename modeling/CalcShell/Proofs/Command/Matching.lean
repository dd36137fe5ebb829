import CalcShell.Calc.Host
import CalcShell.Command.Standard

/-!
# What lines call

The parts that a command captures stand in the line. The commands that leave sessions are called by
the lines that one expects: by their words, and where a pattern allows for blanks and digits, by the
word with any blanks and digits behind it, whatever other commands stand before them in the table
(`AsksToLeave.find?`, `AsksToLeaveAll.find?`, `AsksToJump.find?`).

A pattern is followed from the front: behind the start of the line and a word it is up to what
follows, and characters of a class are first taken as far as they go. That no earlier command is
called is seen from the first character of the line.
-/

namespace CalcShell

/-- A text without the blanks at both ends is a part of it. -/
theorem Text.trim_infix (s : String) : (trim s).toList <:+: s.toList := by
  rw [trim, String.toList_ofList, trimChars]
  have hfront : s.toList.dropWhile isBlank <:+: s.toList := (List.dropWhile_suffix _).isInfix
  have hback : ((s.toList.dropWhile isBlank).reverse.dropWhile isBlank).reverse <:+:
      (s.toList.dropWhile isBlank).reverse.reverse :=
    List.reverse_infix.2 (List.dropWhile_suffix _).isInfix
  rw [List.reverse_reverse] at hback
  exact hback.trans hfront

namespace Command

/-- The parts that a pattern captures of a line stand in the line. -/
theorem Pattern.captures_infix {p : Pattern} {line part : String}
    {captures : List (Option String)} (h : p.captures? line = some captures)
    (hpart : some part ∈ captures) : part.toList <:+: line.toList := by
  obtain ⟨s, -, rfl⟩ := Option.map_eq_some_iff.1 h
  obtain ⟨place, -, hplace⟩ := List.mem_map.1 hpart
  obtain ⟨⟨first, behind⟩, -, rfl⟩ := Option.map_eq_some_iff.1 hplace
  rw [String.toList_ofList]
  exact (List.take_prefix _ _).isInfix.trans (List.drop_suffix _ _).isInfix

/-- The parts that the keys of a command capture of a line stand in the line. -/
theorem Listing.captures_infix {c : Listing} {line part : String}
    {captures : List (Option String)} (h : c.captures? line = some captures)
    (hpart : some part ∈ captures) : part.toList <:+: line.toList := by
  obtain ⟨key, -, hkey⟩ := List.exists_of_findSome?_eq_some h
  cases key with
  | literal text =>
    rw [Key.captures?] at hkey
    split at hkey
    · cases hkey
      exact absurd hpart List.not_mem_nil
    · cases hkey
  | pattern p => exact p.captures_infix hkey hpart

/-- The parts that a command captures of a line stand in the line. -/
theorem Table.captures_infix {H : Host} {t : Table H} {line part : String} {c : Command H}
    {captures : List (Option String)} (h : t.find? line = some (c, captures))
    (hpart : some part ∈ captures) : part.toList <:+: line.toList := by
  obtain ⟨c', -, hmap⟩ := List.exists_of_findSome?_eq_some h
  obtain ⟨captures', hcaptures, heq⟩ := Option.map_eq_some_iff.1 hmap
  obtain ⟨rfl, rfl⟩ := Prod.mk.inj heq
  exact (c'.captures_infix hcaptures hpart).trans (Text.trim_infix line)

end Command

/-! ## Patterns from the front -/

/-- Ranges that keep apart have no code point in common. -/
theorem Text.Ranges.mem_eq_false {rs ts : Ranges}
    (hapart : ∀ r ∈ rs, ∀ t ∈ ts, r.2 < t.1 ∨ t.2 < r.1) {n : Nat} (h : rs.mem n = true) :
    ts.mem n = false := by
  rw [← Bool.not_eq_true]
  intro hmem
  obtain ⟨r, hr, hlow, hhigh⟩ := exists_of_mem h
  obtain ⟨t, ht, hlow', hhigh'⟩ := exists_of_mem hmem
  have := hapart r hr t ht
  omega

namespace Command

/-- A digit is not a blank. -/
theorem CharClass.not_blank_of_digit {c : Char} (h : CharClass.digit.has c = true) :
    CharClass.blank.has c = false := by
  have hdigit : Text.decimalDigits.mem c.toNat = true := (Bool.and_eq_true_iff.1 h).1
  have hapart : ∀ r ∈ Text.decimalDigits, ∀ t ∈ Text.blanks, r.2 < t.1 ∨ t.2 < r.1 := by
    decide
  exact Text.Ranges.mem_eq_false hapart hdigit

/-- A cursor runs over the characters of a class as far as they go. -/
theorem Cursor.run_append {k : CharClass} {cs rest : List Char} (hcs : ∀ c ∈ cs, k.has c = true)
    (hrest : ∀ c ∈ rest.head?, k.has c = false) (nearer : List Cursor) (pos : Nat)
    (captures : List (Option (Nat × Nat))) :
    ∃ others, run k nearer ⟨pos, cs ++ rest, captures⟩ (cs ++ rest) =
      ⟨pos + cs.length, rest, captures⟩ :: others := by
  induction cs generalizing nearer pos with
  | nil =>
    cases rest with
    | nil => exact ⟨nearer, rfl⟩
    | cons c rest =>
      have hc : k.has c = false := hrest c rfl
      exact ⟨nearer, by simp [run, hc]⟩
  | cons c cs ih =>
    have hc : k.has c = true := hcs c List.mem_cons_self
    obtain ⟨others, hothers⟩ := ih (fun d hd => hcs d (List.mem_cons_of_mem c hd))
      (⟨pos, c :: (cs ++ rest), captures⟩ :: nearer) (pos + 1)
    refine ⟨others, ?_⟩
    rw [List.cons_append, run, if_pos hc]
    simp only [step]
    rw [hothers, List.length_cons, Nat.add_assoc, Nat.add_comm 1]

/-- A text is a word, some blanks and a part behind them. -/
structure Parts (text word : String) (gap : List Char) (part : String) : Prop where
  blank : ∀ c ∈ gap, Text.isBlank c = true
  eq : text.toList = word.toList ++ (gap ++ part.toList)

namespace Pattern

/-- A pattern behind the start of the line matches at its first place or nowhere. -/
theorem searchFrom_start (p : Pattern) (cs : List Char) :
    (seq .start p).searchFrom 0 cs =
      (p.matchesFrom ⟨0, cs, List.replicate p.groups none⟩).head? := by
  have hgroups : (seq .start p).groups = p.groups := Nat.zero_add _
  have hlater : ∀ (cs : List Char) (pos : Nat), (seq .start p).searchFrom (pos + 1) cs = none := by
    intro cs
    induction cs with
    | nil => simp [searchFrom, matchesFrom]
    | cons c cs ih =>
      intro pos
      simp [searchFrom, matchesFrom, ih]
  cases cs with
  | nil => simp [searchFrom, matchesFrom, hgroups]
  | cons c cs =>
    simp only [searchFrom, hlater, hgroups, matchesFrom, if_pos, List.flatMap_cons,
      List.flatMap_nil, List.append_nil]
    cases (p.matchesFrom _).head? <;> rfl

theorem word_groups (text : String) (p : Pattern) : (word text p).groups = p.groups := by
  rw [word]
  induction text.toList with
  | nil => rfl
  | cons c cs ih => simp [groups, ih]

/-- Behind a word that the line goes on with, it is up to what follows. -/
theorem word_matchesFrom (text : String) (p : Pattern) (pos : Nat) (rest : List Char)
    (captures : List (Option (Nat × Nat))) :
    (word text p).matchesFrom ⟨pos, text.toList ++ rest, captures⟩ =
      p.matchesFrom ⟨pos + text.toList.length, rest, captures⟩ := by
  rw [word]
  induction text.toList generalizing pos with
  | nil => rfl
  | cons c cs ih =>
    rw [List.foldr_cons, matchesFrom]
    simp only [matchesFrom, List.cons_append, CharClass.has, decide_true, if_true,
      List.flatMap_cons, List.flatMap_nil, List.append_nil, Cursor.step]
    rw [ih, List.length_cons, Nat.add_assoc, Nat.add_comm 1]

/-- The first way for a pattern to match at a cursor ends at another. -/
def Prefers (p : Pattern) (s t : Cursor) : Prop := (p.matchesFrom s).head? = some t

section Ways

variable {p q : Pattern} {s t u : Cursor} {k : CharClass} {pos : Nat} {cs rest : List Char}
  {captures : List (Option (Nat × Nat))}

/-- The first way to match one pattern and then another is the first way for each. -/
theorem Prefers.seq (hp : p.Prefers s u) (hq : q.Prefers u t) : (Pattern.seq p q).Prefers s t := by
  obtain ⟨others, hothers⟩ := List.head?_eq_some_iff.1 hp
  rw [Prefers, matchesFrom, hothers, List.flatMap_cons, List.head?_append, hq]
  rfl

/-- A pattern that may be left out is not, if it matches. -/
theorem Prefers.opt (hp : p.Prefers s t) : (Pattern.opt p).Prefers s t := by
  rw [Prefers, matchesFrom, List.head?_append, hp]
  rfl

/-- What a pattern matches first is captured. -/
theorem Prefers.group (hp : p.Prefers s t) (i : Nat) :
    (Pattern.group i p).Prefers s (t.capture i s.pos) := by
  rw [Prefers, matchesFrom, List.head?_map, hp]
  rfl

/-- Behind a word that the line goes on with, a pattern goes on. -/
theorem Prefers.word {text : String} (hp : p.Prefers ⟨pos + text.toList.length, rest, captures⟩ t) :
    (Pattern.word text p).Prefers ⟨pos, text.toList ++ rest, captures⟩ t := by
  rw [Prefers, word_matchesFrom]
  exact hp

theorem prefers_stop : stop.Prefers ⟨pos, [], captures⟩ ⟨pos, [], captures⟩ := rfl

/-- The first way to match characters of a class is to take all of them. -/
theorem prefers_many (hcs : ∀ c ∈ cs, k.has c = true) (hrest : ∀ c ∈ rest.head?, k.has c = false) :
    (many k).Prefers ⟨pos, cs ++ rest, captures⟩ ⟨pos + cs.length, rest, captures⟩ := by
  obtain ⟨others, hothers⟩ := Cursor.run_append hcs hrest [] pos captures
  rw [Prefers, matchesFrom, hothers]
  rfl

/-- So it is where nothing is behind them. -/
theorem prefers_many_all (hcs : ∀ c ∈ cs, k.has c = true) :
    (many k).Prefers ⟨pos, cs, captures⟩ ⟨pos + cs.length, [], captures⟩ := by
  have hall : (many k).Prefers ⟨pos, cs ++ [], captures⟩ _ := prefers_many hcs nofun
  rwa [List.append_nil] at hall

/-- So it is where there is to be at least one. -/
theorem prefers_oneOrMore (hne : cs ≠ []) (hcs : ∀ c ∈ cs, k.has c = true)
    (hrest : ∀ c ∈ rest.head?, k.has c = false) :
    (oneOrMore k).Prefers ⟨pos, cs ++ rest, captures⟩ ⟨pos + cs.length, rest, captures⟩ := by
  obtain ⟨c, cs, rfl⟩ := List.exists_cons_of_ne_nil hne
  obtain ⟨hc, hcs⟩ := List.forall_mem_cons.1 hcs
  obtain ⟨others, hothers⟩ := Cursor.run_append hcs hrest [] (pos + 1) captures
  rw [Prefers, List.cons_append, matchesFrom]
  dsimp only
  rw [if_pos hc, Cursor.step, hothers, List.head?_cons, List.length_cons, Nat.add_assoc,
    Nat.add_comm 1]

theorem prefers_oneOrMore_all (hne : cs ≠ []) (hcs : ∀ c ∈ cs, k.has c = true) :
    (oneOrMore k).Prefers ⟨pos, cs, captures⟩ ⟨pos + cs.length, [], captures⟩ := by
  have hall : (oneOrMore k).Prefers ⟨pos, cs ++ [], captures⟩ _ := prefers_oneOrMore hne hcs nofun
  rwa [List.append_nil] at hall

end Ways

/-- Behind the start of the line and a word, a pattern decides what is captured. -/
theorem captures?_word {text : String} {p : Pattern} {line : String} {rest : List Char} {t : Cursor}
    (hline : line.toList = text.toList ++ rest)
    (hp : p.Prefers ⟨text.toList.length, rest, List.replicate p.groups none⟩ t) :
    (seq .start (word text p)).captures? line =
      some (t.captures.map fun part => part.map fun (first, behind) =>
        String.ofList ((line.toList.drop first).take (behind - first))) := by
  rw [captures?, searchFrom_start, word_groups, hline, word_matchesFrom, Nat.zero_add]
  rw [Prefers] at hp
  rw [hp, Option.map_some]

/-- What is captured up to the end of the line. -/
theorem captures?_word_part {text line part : String} {p : Pattern} (hgroups : p.groups = 1)
    {gap : List Char} (hline : Parts line text gap part)
    (hp : p.Prefers ⟨text.toList.length, gap ++ part.toList, [none]⟩
      ⟨text.toList.length + gap.length + part.toList.length, [],
        [some (text.toList.length + gap.length,
          text.toList.length + gap.length + part.toList.length)]⟩) :
    (seq .start (word text p)).captures? line = some [some part] := by
  rw [captures?_word hline.eq (by rw [hgroups]; exact hp)]
  simp only [List.map_cons, List.map_nil, Option.map_some, hline.eq]
  rw [← List.append_assoc, List.drop_left' List.length_append, Nat.add_sub_cancel_left,
    List.take_length, String.ofList_toList]

/-- The word `cd` and two points, with any blanks in between. -/
theorem cdUp_captures {line : String} {gap : List Char} (hline : Parts line "cd" gap "..") :
    cdUp.captures? line = some [] := by
  have hpoints : ∀ c ∈ ("..".toList).head?, CharClass.blank.has c = false := by
    rintro c ⟨⟩
    decide
  have hend : (word ".." .stop).Prefers ⟨"cd".toList.length + gap.length, "..".toList, []⟩ _ :=
    prefers_stop.word
  exact captures?_word hline.eq ((prefers_many (k := .blank) hline.blank hpoints).seq hend)

/-- The word `jump_to` and digits, with any blanks in between: the digits are captured. -/
theorem jumpTo_captures {line digits : String} {gap : List Char}
    (hline : Parts line "jump_to" gap digits)
    (hdigits : ∀ c ∈ digits.toList, CharClass.digit.has c = true) :
    jumpTo.captures? line = some [some digits] := by
  have hsolid : ∀ c ∈ digits.toList.head?, CharClass.blank.has c = false := fun c hc =>
    CharClass.not_blank_of_digit (hdigits c (List.mem_of_mem_head? hc))
  have hall : (many .digit).Prefers
      ⟨"jump_to".toList.length + gap.length, digits.toList, [none]⟩ _ :=
    prefers_many_all hdigits
  exact captures?_word_part rfl hline
    ((prefers_many (k := .blank) hline.blank hsolid).seq ((hall.group 0).seq prefers_stop))

end Pattern

/-! ## The lines that leave -/

/-- The character that every line begins with that a key matches, where the key tells it. -/
def Key.initial? : Key → Option Char
  | .literal text => text.toList.head?
  | .pattern (.seq .start (.seq (.one (.only c)) _)) => some c
  | .pattern _ => none

/-- A line that begins with another character is not matched. -/
theorem Key.captures?_eq_none {k : Key} {c : Char} {line : String}
    (hk : k.initial?.any (· ≠ c) = true) (hline : line.toList.head? = some c) :
    k.captures? line = none := by
  obtain ⟨d, hd, hne⟩ := (Option.any_eq_true _ _).1 hk
  have hne : d ≠ c := of_decide_eq_true hne
  unfold initial? at hd
  split at hd
  · rw [captures?, if_neg]
    rintro rfl
    exact hne (Option.some.inj (hd.symm.trans hline))
  · cases hd
    obtain ⟨cs, hcs⟩ := List.head?_eq_some_iff.1 hline
    rw [captures?, Pattern.captures?, Pattern.searchFrom_start, hcs]
    simp [Pattern.matchesFrom, CharClass.has, hne.symm]
  · cases hd

/-- A command all of whose keys tell another character is not called. -/
theorem Listing.captures?_eq_none {command : Listing} {c : Char} {line : String}
    (hkeys : ∀ k ∈ command.keys, k.initial?.any (· ≠ c) = true)
    (hline : line.toList.head? = some c) : command.captures? line = none :=
  List.findSome?_eq_none_iff.2 fun k hk => Key.captures?_eq_none (hkeys k hk) hline

/-- The command found for a line is the first one in the table that is called. -/
theorem Table.find?_eq {H : Host} {t : Table H} {i : Nat} (hi : i < t.length) {line : String}
    {captures : List (Option String)}
    (hbefore : ∀ l ∈ t.listings.take i, l.captures? (Text.trim line) = none)
    (hcommand : t[i].captures? (Text.trim line) = some captures) :
    t.find? line = some (t[i], captures) := by
  have hnone : (t.take i).findSome?
      (fun d => (d.captures? (Text.trim line)).map fun captures => (d, captures)) = none := by
    refine List.findSome?_eq_none_iff.2 fun d hd => ?_
    have hmem : d.toListing ∈ t.listings.take i := by
      rw [listings, ← List.map_take]
      exact List.mem_map_of_mem hd
    rw [hbefore _ hmem, Option.map_none]
  have hsplit : t = t.take i ++ t[i] :: t.drop (i + 1) := by simp
  generalize t[i] = command at hcommand hsplit ⊢
  rw [find?, hsplit, List.findSome?_append, hnone, Option.none_or, List.findSome?_cons, hcommand,
    Option.map_some]

/-! ## The standard commands -/

@[simp]
theorem length_standard {H : Host} : (standard (H := H)).length = 10 := rfl

/-- The standard command at a place of the table. -/
def standardAt {H : Host} (i : Fin 10) : Command H :=
  (standard (H := H)).get (i.cast length_standard.symm)

/-- How the standard commands are called and shown, which is the same for all hosts. -/
def standardListings : List Listing := (standard (H := Calc.host)).listings

theorem listings_standard (H : Host) : (standard (H := H)).listings = standardListings := rfl

/-- The words that are commands, and the place of each in the table. -/
def commandWords : List (String × Nat) :=
  [("exit_program", 0), ("quit_program", 0), ("!", 1), ("nesting", 3), ("status", 4), ("ls", 5),
    ("exit_all", 6), ("exit", 7), ("quit", 7), ("back", 7)]

/-- A word that is a command calls it, whatever commands stand before it in the table. -/
theorem find?_of_mem_commandWords {H : Host} {line : String} {i : Nat} {command : Command H}
    (hword : (Text.trim line, i) ∈ commandWords)
    (hcommand : (standard (H := H))[i]? = some command) :
    Table.find? (standard (H := H)) line = some (command, []) := by
  have hwords : ∀ p ∈ commandWords, (∀ l ∈ standardListings.take p.2, l.captures? p.1 = none) ∧
      standardListings[p.2]?.bind (·.captures? p.1) = some [] := by
    decide +kernel
  obtain ⟨hbefore, hcaptures⟩ := hwords _ hword
  obtain ⟨hi, rfl⟩ := List.getElem?_eq_some_iff.1 hcommand
  rw [← listings_standard H, Table.listings, List.getElem?_map, hcommand] at hcaptures
  exact Table.find?_eq hi hbefore hcaptures

/-- The words for leaving a session do not begin with the character that the pattern for it begins
with. -/
theorem leave_captures?_eq {H : Host} {line : String} (hline : line.toList.head? = some 'c') :
    (standardAt (H := H) 7).captures? line = Pattern.cdUp.captures? line := by
  have hwords : ∀ k ∈ [Key.literal "exit", .literal "quit", .literal "back"],
      k.initial?.any (· ≠ 'c') = true := by decide
  have hnone : [Key.literal "exit", .literal "quit", .literal "back"].findSome?
      (fun k => k.captures? line) = none :=
    List.findSome?_eq_none_iff.2 fun k hk => Key.captures?_eq_none (hwords k hk) hline
  have hkeys : (standardAt (H := H) 7).keys =
      [Key.literal "exit", .literal "quit", .literal "back"] ++ [.pattern .cdUp] := rfl
  rw [Listing.captures?, hkeys, List.findSome?_append, hnone, Option.none_or]
  exact List.findSome?_singleton

/-- The word `cd` and two points call the command that leaves a session. -/
theorem find?_cdUp {H : Host} {line : String} {gap : List Char}
    (hline : Parts (Text.trim line) "cd" gap "..") :
    Table.find? (standard (H := H)) line = some (standardAt 7, []) := by
  -- No command before it has a key that begins like the line.
  have hinitial : (Text.trim line).toList.head? = some 'c' := by rw [hline.eq]; rfl
  have hkeys : ∀ l ∈ standardListings.take 7, ∀ k ∈ l.keys, k.initial?.any (· ≠ 'c') = true := by
    decide
  have hcommand : (standardAt (H := H) 7).captures? (Text.trim line) = some [] :=
    (leave_captures?_eq hinitial).trans (Pattern.cdUp_captures hline)
  exact Table.find?_eq (by simp)
    (fun l hl => Listing.captures?_eq_none (hkeys l hl) hinitial) hcommand

/-- The word `jump_to` and digits call the command that jumps, with the digits. -/
theorem find?_jumpTo {H : Host} {line digits : String} {gap : List Char}
    (hline : Parts (Text.trim line) "jump_to" gap digits)
    (hdigits : ∀ c ∈ digits.toList, CharClass.digit.has c = true) :
    Table.find? (standard (H := H)) line = some (standardAt 9, [some digits]) := by
  have hinitial : (Text.trim line).toList.head? = some 'j' := by rw [hline.eq]; rfl
  have hkeys : ∀ l ∈ standardListings.take 9, ∀ k ∈ l.keys, k.initial?.any (· ≠ 'j') = true := by
    decide
  have hcommand : (standardAt (H := H) 9).captures? (Text.trim line) = some [some digits] :=
    List.findSome?_singleton.trans (Pattern.jumpTo_captures hline hdigits)
  exact Table.find?_eq (by simp)
    (fun l hl => Listing.captures?_eq_none (hkeys l hl) hinitial) hcommand

/-- A line asks to end the program. -/
def AsksToExit (line : String) : Prop := Text.trim line ∈ ["exit_program", "quit_program"]

/-- A line asks to leave the innermost session. -/
def AsksToLeave (line : String) : Prop :=
  Text.trim line ∈ ["exit", "quit", "back"] ∨
    ∃ gap : List Char, (∀ c ∈ gap, Text.isBlank c = true) ∧
      (Text.trim line).toList = "cd".toList ++ (gap ++ "..".toList)

/-- A line asks to leave all sessions. -/
def AsksToLeaveAll (line : String) : Prop := Text.trim line = "exit_all"

/-- A line asks to leave the sessions inside of the one at a level, which is written in digits of
any script. -/
def AsksToJump (line digits : String) : Prop :=
  (∀ c ∈ digits.toList, CharClass.digit.has c = true) ∧
    ∃ gap : List Char, (∀ c ∈ gap, Text.isBlank c = true) ∧
      (Text.trim line).toList = "jump_to".toList ++ (gap ++ digits.toList)

/-- The command that ends the program is called. -/
theorem AsksToExit.find? {H : Host} {line : String} (h : AsksToExit line) :
    ∃ command, Table.find? (standard (H := H)) line = some (command, []) ∧
      ∀ call, command.handler call = .cleared (.interrupt (.exit 0)) := by
  have hwords : ∀ word ∈ ["exit_program", "quit_program"], (word, 0) ∈ commandWords := by decide
  exact ⟨standardAt 0, find?_of_mem_commandWords (hwords _ h) rfl, fun _ => rfl⟩

/-- The command that leaves a session is called. -/
theorem AsksToLeave.find? {H : Host} {line : String} (h : AsksToLeave line) :
    ∃ command, Table.find? (standard (H := H)) line = some (command, []) ∧
      command.usage = "exit, quit, back" ∧
      ∀ call, command.handler call = .cleared (.interrupt (.breakout call.level)) := by
  refine ⟨standardAt 7, ?_, rfl, fun _ => rfl⟩
  rcases h with hword | ⟨gap, hgap, hline⟩
  · have hwords : ∀ word ∈ ["exit", "quit", "back"], (word, 7) ∈ commandWords := by decide
    exact find?_of_mem_commandWords (hwords _ hword) rfl
  · exact find?_cdUp ⟨hgap, hline⟩

/-- The command that leaves all sessions is called. -/
theorem AsksToLeaveAll.find? {H : Host} {line : String} (h : AsksToLeaveAll line) :
    ∃ command, Table.find? (standard (H := H)) line = some (command, []) ∧
      command.usage = "exit_all" ∧
      ∀ call, command.handler call = .cleared (.interrupt (.breakout 0)) := by
  have hword : (Text.trim line, 6) ∈ commandWords := by
    rw [show Text.trim line = "exit_all" from h]
    decide
  exact ⟨standardAt 6, find?_of_mem_commandWords hword rfl, rfl, fun _ => rfl⟩

/-- The command that leaves sessions down to a level is called, with the digits. -/
theorem AsksToJump.find? {H : Host} {line digits : String} (h : AsksToJump line digits) :
    ∃ command, Table.find? (standard (H := H)) line = some (command, [some digits]) ∧
      command.usage = "jump_to <level>" ∧
      ∀ call, command.handler call = .cleared (.jump call) := by
  obtain ⟨hdigits, gap, hgap, hline⟩ := h
  exact ⟨standardAt 9, find?_jumpTo ⟨hgap, hline⟩ hdigits, rfl, fun _ => rfl⟩

end Command

end CalcShell
