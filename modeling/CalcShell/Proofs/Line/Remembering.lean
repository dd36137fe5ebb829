import CalcShell.Line.History
import Mathlib.Data.List.Destutter
import Mathlib.Data.List.DropRight

/-!
# What the history remembers

The history is made up line by line: a pushed line is trimmed, left out where it is empty or like
the last one kept, and where the limit is reached the oldest line goes. The lines that come to be
remembered in this way, were there no limit, can be said at once (`remembered`), and the main
statement is that the history holds the last of them, as many as the limit allows.

What carries it is that the last line of the history is the last one remembered, whatever was given
up at the other end, as long as the history may hold a line at all.
-/

namespace CalcShell.Line

/-- Of runs of equal elements the last one stays the last. -/
theorem getLast?_destutter' {α : Type} [DecidableEq α] (a : α) (l : List α) :
    (l.destutter' (· ≠ ·) a).getLast? = (a :: l).getLast? := by
  induction l generalizing a with
  | nil => rfl
  | cons b l ih =>
    by_cases hab : a = b
    · subst hab
      rw [List.destutter'_cons_neg (h := not_not.2 rfl), ih, List.getLast?_cons_cons]
    · obtain ⟨c, m, hm⟩ := List.exists_cons_of_ne_nil (l.destutter'_ne_nil (· ≠ ·) (a := b))
      rw [List.destutter'_cons_pos (h := hab), hm, List.getLast?_cons_cons, ← hm, ih,
        List.getLast?_cons_cons]

/-- An element behind a list makes a run of its own, or goes on the last one. -/
theorem destutter'_concat {α : Type} [DecidableEq α] (a : α) (l : List α) (b : α) :
    (l ++ [b]).destutter' (· ≠ ·) a =
      if (a :: l).getLast? = some b then l.destutter' (· ≠ ·) a
      else l.destutter' (· ≠ ·) a ++ [b] := by
  induction l generalizing a with
  | nil => simp [List.destutter'_singleton]
  | cons c l ih =>
    by_cases hac : a = c
    · subst hac
      rw [List.cons_append, List.destutter'_cons_neg (h := not_not.2 rfl),
        List.destutter'_cons_neg (h := not_not.2 rfl), ih, List.getLast?_cons_cons]
    · rw [List.cons_append, List.destutter'_cons_pos (h := hac),
        List.destutter'_cons_pos (h := hac), ih, List.getLast?_cons_cons, apply_ite (a :: ·)]
      rfl

/-- An element behind a list makes a run of its own, or goes on the last one. -/
theorem destutter_concat {α : Type} [DecidableEq α] (l : List α) (b : α) :
    (l ++ [b]).destutter (· ≠ ·) =
      if (l.destutter (· ≠ ·)).getLast? = some b then l.destutter (· ≠ ·)
      else l.destutter (· ≠ ·) ++ [b] := by
  cases l with
  | nil => rfl
  | cons a l =>
    rw [List.cons_append, List.destutter_cons', List.destutter_cons', destutter'_concat,
      getLast?_destutter']

/-- The lines that are remembered of those pushed, where no line is given up: without the blanks
around them, none of them empty, and of equal neighbours only one. -/
def remembered (pushed : List String) : List String :=
  ((pushed.map Text.trim).filter (· ≠ "")).destutter (· ≠ ·)

/-- One more line that is pushed. -/
theorem remembered_concat (pushed : List String) (entry : String) :
    remembered (pushed ++ [entry]) =
      if Text.trim entry = "" ∨ (remembered pushed).getLast? = some (Text.trim entry) then
        remembered pushed
      else remembered pushed ++ [Text.trim entry] := by
  unfold remembered
  rw [List.map_append, List.filter_append]
  by_cases hempty : Text.trim entry = ""
  · simp [hempty]
  · have hkept : ([entry].map Text.trim).filter (· ≠ "") = [Text.trim entry] := by simp [hempty]
    rw [hkept, destutter_concat]
    simp only [hempty, false_or]

/-- Where a list has as many elements as there is room for, the first of its last elements goes to
make room for one more. -/
theorem rtake_room {α : Type} (l : List α) (n : Nat) :
    (if (l.rtake (n + 1)).length = n + 1 then (l.rtake (n + 1)).drop 1 else l.rtake (n + 1)) =
      l.rtake n := by
  rw [List.rtake, List.rtake, List.length_drop, List.drop_drop]
  split
  · congr 1
    omega
  · congr 1
    omega

/-- The last elements of a list end as the list does. -/
theorem getLast?_rtake_succ {α : Type} (l : List α) (n : Nat) :
    (l.rtake (n + 1)).getLast? = l.getLast? := by
  rw [List.rtake, List.getLast?_drop]
  split
  · rename_i hle
    rw [List.length_eq_zero_iff.1 (by omega : l.length = 0)]
    rfl
  · rfl

/-- The history that some lines are pushed to, one after the other, where at first it is empty. -/
def History.ofPushed (limit : Nat) (pushed : List String) : History :=
  pushed.foldl History.push { limit := limit }

/-- It holds the last lines that are remembered. -/
theorem History.ofPushed_succ (n : Nat) (pushed : List String) :
    History.ofPushed (n + 1) pushed = ⟨(remembered pushed).rtake (n + 1), n + 1⟩ := by
  -- By induction from the end: the history before the last line is the one of the lines before.
  induction pushed using List.reverseRecOn with
  | nil =>
    rw [show remembered [] = [] from rfl, List.rtake_nil]
    rfl
  | append_singleton pushed entry ih =>
    rw [History.ofPushed] at ih
    rw [History.ofPushed, List.foldl_append, ih, remembered_concat, List.foldl_cons, List.foldl_nil,
      History.push]
    dsimp only
    rw [getLast?_rtake_succ, rtake_room]
    split
    · rfl
    · rw [List.rtake_concat_succ]

/-- No line that is remembered is empty or has a blank at one of its ends. -/
theorem remembered_trimmed {pushed : List String} {entry : String}
    (hentry : entry ∈ remembered pushed) :
    entry ≠ "" ∧ (∀ c ∈ entry.toList.head?, Text.isBlank c = false) ∧
      ∀ c ∈ entry.toList.getLast?, Text.isBlank c = false := by
  have hkept := (List.destutter_sublist _ _).subset hentry
  obtain ⟨hmem, hne⟩ := List.mem_filter.1 hkept
  obtain ⟨line, -, rfl⟩ := List.mem_map.1 hmem
  rw [Text.trim, String.toList_ofList]
  exact ⟨of_decide_eq_true hne, Text.trimChars_head? _, Text.trimChars_getLast? _⟩

/-- A history of at least one line holds, after any lines were pushed, just the last ones of those
that are remembered: the pushed lines without the blanks around them, none of them empty, and of
equal neighbours only one. So it never holds more lines than it may, none of them is blank or has
blanks at its ends, and no two neighbours are equal. -/
theorem history_holds (limit : Nat) (hlimit : 1 ≤ limit) (pushed : List String) :
    (History.ofPushed limit pushed).entries = (remembered pushed).rtake limit ∧
      (History.ofPushed limit pushed).entries.length ≤ limit ∧
      (∀ entry ∈ (History.ofPushed limit pushed).entries, Text.isBlankText entry = false ∧
        (∀ c ∈ entry.toList.head?, Text.isBlank c = false) ∧
        ∀ c ∈ entry.toList.getLast?, Text.isBlank c = false) ∧
      (History.ofPushed limit pushed).entries.IsChain (· ≠ ·) := by
  obtain ⟨n, rfl⟩ := Nat.exists_eq_add_of_le' hlimit
  have hentries : (History.ofPushed (n + 1) pushed).entries = (remembered pushed).rtake (n + 1) :=
    congrArg History.entries (History.ofPushed_succ n pushed)
  have hsuffix : (History.ofPushed (n + 1) pushed).entries <:+ remembered pushed :=
    hentries ▸ List.drop_suffix _ _
  refine ⟨hentries, ?_, fun entry hentry => ?_, (List.isChain_destutter _ _).suffix hsuffix⟩
  · rw [hentries, List.rtake, List.length_drop]
    omega
  · obtain ⟨hne, hhead, hlast⟩ := remembered_trimmed (hsuffix.subset hentry)
    refine ⟨?_, hhead, hlast⟩
    -- A line that is not empty has a first character, which is not a blank.
    cases hchars : entry.toList with
    | nil => exact absurd (String.toList_eq_nil_iff.1 hchars) hne
    | cons c cs =>
      rw [Text.isBlankText, hchars, List.all_cons, hhead c (by rw [hchars]; rfl), Bool.false_and]

/-- Eight lines are pushed to a history of two: a blank one and an empty one are left out, `a` is
kept once of three in a row, and gives way when `c` comes. The second `b` is no neighbour of the
first. -/
theorem history_holds_two :
    let pushed := [" a", "\t", "a \n", "", "a", "b", "c ", "b"]
    1 ≤ 2 ∧ (History.ofPushed 2 pushed).entries = ["c", "b"] ∧
      remembered pushed = ["a", "b", "c", "b"] := by
  intro pushed
  have hremembered : remembered pushed = ["a", "b", "c", "b"] := by decide +kernel
  have hentries := (history_holds 2 (by decide) pushed).1
  rw [hremembered] at hentries
  exact ⟨by decide, hentries, hremembered⟩

end CalcShell.Line
