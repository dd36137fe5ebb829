import CalcShell.Text.Class

/-!
# Trimming and words

Blanks around a text and between its words, where a blank is any white space.
-/

namespace CalcShell.Text

/-- The characters without the blanks at both ends. -/
def trimChars (cs : List Char) : List Char :=
  ((cs.dropWhile isBlank).reverse.dropWhile isBlank).reverse

/-- Trimmed characters do not begin with a blank. -/
theorem trimChars_head? (cs : List Char) : ∀ c ∈ (trimChars cs).head?, isBlank c = false := by
  intro c hc
  rw [trimChars, List.head?_reverse] at hc
  -- What is left behind the blanks at the end ends, backwards, with the same character.
  obtain ⟨dropped, hdropped⟩ := List.dropWhile_suffix isBlank (l := (cs.dropWhile isBlank).reverse)
  have hfirst : (cs.dropWhile isBlank).head? = some c := by
    rw [← List.getLast?_reverse, ← hdropped, List.getLast?_append, hc, Option.some_or]
  have hblank := List.head?_dropWhile_not isBlank cs
  rwa [hfirst] at hblank

/-- Trimmed characters do not end with a blank. -/
theorem trimChars_getLast? (cs : List Char) :
    ∀ c ∈ (trimChars cs).getLast?, isBlank c = false := by
  intro c hc
  rw [trimChars, List.getLast?_reverse] at hc
  have hblank := List.head?_dropWhile_not isBlank (cs.dropWhile isBlank).reverse
  rwa [hc] at hblank

/-- The text without the blanks at both ends. -/
def trim (s : String) : String := String.ofList (trimChars s.toList)

/-- Whether the text holds nothing but blanks. -/
def isBlankText (s : String) : Bool := s.toList.all isBlank

/-- The maximal runs of non-blank characters, in order; `run` is the one being read, backwards. -/
def wordsFrom (run : List Char) : List Char → List (List Char)
  | [] => if run.isEmpty then [] else [run.reverse]
  | c :: cs =>
    if isBlank c then
      if run.isEmpty then wordsFrom [] cs else run.reverse :: wordsFrom [] cs
    else wordsFrom (c :: run) cs

/-- The words of a text: its maximal runs of non-blank characters. -/
def words (s : String) : List String := (wordsFrom [] s.toList).map String.ofList

end CalcShell.Text
