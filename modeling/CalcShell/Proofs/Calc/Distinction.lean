import CalcShell.Value
import Mathlib

/-!
# The text of a value tells which value it is

No two values have the same text (`inspect_eq_iff`), however deep lists are inside of one another
and whatever stands in strings. A text is compared together with what stands behind it, and from the
whole both the value and what is behind it can be told: a character of a string by its escape
(`quotedChar_append_inj`), a string by its closing quote, a list by the commas and the closing
bracket, and any other value since neither of these stands in its text.
-/

namespace CalcShell

open Text

/-! ## Strings -/

namespace Text

/-- Where a run of characters of some class ends is told by what stands behind it. -/
theorem run_append_inj {p : Char → Bool} {xs ys r s : List Char} (hxs : ∀ c ∈ xs, p c = true)
    (hys : ∀ c ∈ ys, p c = true) (hr : ∀ c ∈ r.head?, p c = false)
    (hs : ∀ c ∈ s.head?, p c = false) (h : xs ++ r = ys ++ s) : xs = ys ∧ r = s := by
  have hnone : ∀ {r : List Char}, (∀ c ∈ r.head?, p c = false) → r.takeWhile p = [] := by
    intro r hr
    cases r with
    | nil => rfl
    | cons c r => exact List.takeWhile_cons_of_neg (by rw [hr c rfl]; decide)
  have hfront : xs = ys := by
    have htake := congrArg (List.takeWhile p) h
    rwa [List.takeWhile_append_of_pos hxs, List.takeWhile_append_of_pos hys, hnone hr, hnone hs,
      List.append_nil, List.append_nil] at htake
  subst hfront
  exact ⟨rfl, List.append_cancel_left h⟩

theorem digitChar_inj {b : Nat} (hb : b ≤ 16) {m n : Nat} (hm : m < b) (hn : n < b)
    (h : m.digitChar = n.digitChar) : m = n := by
  have hsmall : ∀ m < 16, ∀ n < 16, Nat.digitChar m = Nat.digitChar n → m = n := by decide
  exact hsmall m (by omega) n (by omega) h

/-- The digits of a number tell which number it is. -/
theorem toDigits_inj {b : Nat} (hb : 1 < b) (hb' : b ≤ 16) {m n : Nat}
    (h : Nat.toDigits b m = Nat.toDigits b n) : m = n := by
  -- A number below the base is the only one with a single digit.
  have hlength : ∀ k, b ≤ k → 1 < (Nat.toDigits b k).length := by
    intro k hk
    have hpos : 0 < (Nat.toDigits b (k / b)).length := List.length_pos_of_ne_nil Nat.toDigits_ne_nil
    rw [Nat.toDigits_of_base_le hb hk, List.length_append, List.length_singleton]
    omega
  induction m using Nat.strongRecOn generalizing n with
  | _ m ih =>
    by_cases hm : m < b
    · by_cases hn : n < b
      · rw [Nat.toDigits_of_lt_base hm, Nat.toDigits_of_lt_base hn, List.singleton_inj] at h
        exact digitChar_inj hb' hm hn h
      · have hone := hlength n (by omega)
        rw [← h, Nat.toDigits_of_lt_base hm, List.length_singleton] at hone
        omega
    · by_cases hn : n < b
      · have hone := hlength m (by omega)
        rw [h, Nat.toDigits_of_lt_base hn, List.length_singleton] at hone
        omega
      · rw [Nat.toDigits_of_base_le hb (Nat.le_of_not_lt hm),
          Nat.toDigits_of_base_le hb (Nat.le_of_not_lt hn)] at h
        obtain ⟨hfront, hlast⟩ := List.append_inj' h rfl
        have hquotient := ih (m / b) (Nat.div_lt_self (by omega) hb) hfront
        have hremainder := digitChar_inj hb' (Nat.mod_lt m (by omega)) (Nat.mod_lt n (by omega))
          (List.singleton_inj.1 hlast)
        rw [← Nat.div_add_mod m b, ← Nat.div_add_mod n b, hquotient, hremainder]

/-- What stands between digits is a digit. -/
theorem eq_digitChar_of_mem {b n : Nat} (hb : 1 < b) {c : Char} (h : c ∈ Nat.toDigits b n) :
    ∃ d : Nat, c = d.digitChar := by
  induction n using Nat.strongRecOn with
  | _ n ih =>
    by_cases hn : n < b
    · rw [Nat.toDigits_of_lt_base hn, List.mem_singleton] at h
      exact ⟨n, h⟩
    · rw [Nat.toDigits_of_base_le hb (by omega), List.mem_append, List.mem_singleton] at h
      rcases h with h | h
      · exact ih (n / b) (Nat.div_lt_self (by omega) hb) h
      · exact ⟨n % b, h⟩

/-- A character by its number tells which character it is, and ends with its brace. -/
theorem numbered_append_inj {c d : Char} {r s : List Char}
    (h : numbered c ++ r = numbered d ++ s) : c = d ∧ r = s := by
  have hbrace : ∀ n, ∀ c ∈ Nat.toDigits 16 n, (c != '\x7d') = true := by
    intro n c hmem
    obtain ⟨k, rfl⟩ := eq_digitChar_of_mem (by decide) hmem
    exact bne_iff_ne.2 (Nat.digitChar_ne '\x7d' rfl)
  simp only [numbered, List.append_assoc, List.singleton_append] at h
  obtain ⟨hdigits, hrest⟩ := run_append_inj (hbrace c.toNat) (hbrace d.toNat)
    (by simp) (by simp) (List.append_cancel_left h)
  have hnumber := toDigits_inj (by decide) (by decide) hdigits
  exact ⟨Char.toNat_inj.1 hnumber, (List.cons.inj hrest).2⟩

/-- The character that an escape of two characters stands for. -/
def shortEscape? : Char → Option Char
  | '0' => some '\x00'
  | 't' => some '\t'
  | 'r' => some '\r'
  | 'n' => some '\n'
  | '"' => some '"'
  | '\\' => some '\\'
  | _ => none

/-- Between quotes a character is written as it is, by a short escape, or by its number. -/
theorem quotedChar_cases (c : Char) :
    (quotedChar c = [c] ∧ c ≠ '"' ∧ c ≠ '\\') ∨
      (∃ e, quotedChar c = ['\\', e] ∧ shortEscape? e = some c) ∨ quotedChar c = numbered c := by
  unfold quotedChar
  split
  · rename_i h
    exact .inr (.inl ⟨'0', rfl, by rw [h]; rfl⟩)
  split
  · rename_i h
    exact .inr (.inl ⟨'t', rfl, by rw [h]; rfl⟩)
  split
  · rename_i h
    exact .inr (.inl ⟨'r', rfl, by rw [h]; rfl⟩)
  split
  · rename_i h
    exact .inr (.inl ⟨'n', rfl, by rw [h]; rfl⟩)
  split
  · rename_i h
    exact .inr (.inl ⟨'"', rfl, by rw [h]; rfl⟩)
  split
  · rename_i h
    exact .inr (.inl ⟨'\\', rfl, by rw [h]; rfl⟩)
  split
  · exact .inl ⟨rfl, by assumption, by assumption⟩
  · exact .inr (.inr rfl)

/-- What a character is written as between quotes tells the character and where it ends. -/
theorem quotedChar_append_inj {c d : Char} {r s : List Char}
    (h : quotedChar c ++ r = quotedChar d ++ s) : c = d ∧ r = s := by
  -- Only an escape starts with a backslash, and no short one goes on like one by number.
  have hshort : ∀ {e : Char} {c : Char}, shortEscape? e = some c → e ≠ 'u' := by
    rintro e c he rfl
    cases he
  rcases quotedChar_cases c with ⟨hc, -, hcslash⟩ | ⟨e, hc, he⟩ | hc <;>
    rcases quotedChar_cases d with ⟨hd, -, hdslash⟩ | ⟨e', hd, he'⟩ | hd <;>
    rw [hc, hd] at h
  · exact List.cons.inj h
  · exact absurd (List.cons.inj h).1 hcslash
  · exact absurd (List.cons.inj h).1 hcslash
  · exact absurd (List.cons.inj h).1.symm hdslash
  · obtain ⟨rfl, hrest⟩ := List.cons.inj (List.cons.inj h).2
    exact ⟨Option.some.inj (he.symm.trans he'), hrest⟩
  · exact absurd (List.cons.inj (List.cons.inj h).2).1 (hshort he)
  · exact absurd (List.cons.inj h).1.symm hdslash
  · exact absurd (List.cons.inj (List.cons.inj h).2).1.symm (hshort he')
  · exact numbered_append_inj h

/-- No character between quotes is written with a quote in front. -/
theorem quotedChar_append_ne_quote (c : Char) (r s : List Char) : quotedChar c ++ r ≠ '"' :: s := by
  intro h
  rcases quotedChar_cases c with ⟨hc, hquote, -⟩ | ⟨e, hc, -⟩ | hc <;> rw [hc] at h
  · exact hquote (List.cons.inj h).1
  · exact absurd (List.cons.inj h).1 (by decide)
  · exact absurd (List.cons.inj h).1 (by decide)

/-- A quoted text tells which text it is, and ends with its closing quote. -/
theorem quotedChars_append_inj {cs ds r s : List Char}
    (h : quotedChars cs ++ r = quotedChars ds ++ s) : cs = ds ∧ r = s := by
  have hbody : cs.flatMap quotedChar ++ '"' :: r = ds.flatMap quotedChar ++ '"' :: s := by
    simpa [quotedChars] using h
  clear h
  induction cs generalizing ds with
  | nil =>
    cases ds with
    | nil => exact ⟨rfl, (List.cons.inj hbody).2⟩
    | cons d ds =>
      rw [List.flatMap_cons, List.append_assoc] at hbody
      exact absurd hbody.symm (quotedChar_append_ne_quote d _ _)
  | cons c cs ih =>
    cases ds with
    | nil =>
      rw [List.flatMap_cons, List.append_assoc] at hbody
      exact absurd hbody (quotedChar_append_ne_quote c _ _)
    | cons d ds =>
      rw [List.flatMap_cons, List.flatMap_cons, List.append_assoc, List.append_assoc] at hbody
      obtain ⟨rfl, hrest⟩ := quotedChar_append_inj hbody
      obtain ⟨rfl, rfl⟩ := ih hrest
      exact ⟨rfl, rfl⟩

end Text

/-! ## Values -/

namespace Value

/-- The constructors of values. -/
inductive Shape where
  | nil
  | truth
  | number
  | text
  | list
  | main
  | session
deriving DecidableEq

/-- The constructor of a value. -/
def shape : Value → Shape
  | .nil => .nil
  | .bool _ => .truth
  | .int _ => .number
  | .str _ => .text
  | .list _ => .list
  | .main => .main
  | .session _ => .session

/-- Whether other characters or values stand in the value. -/
def Shape.nested : Shape → Bool
  | .text | .list => true
  | _ => false

/-- The constructor of the values whose texts start with a character. -/
def Shape.ofHead? (c : Char) : Option Shape :=
  match c with
  | 'n' => some .nil
  | 't' => some .truth
  | 'f' => some .truth
  | '"' => some .text
  | '[' => some .list
  | 'm' => some .main
  | '#' => some .session
  | _ => if c = '-' ∨ c.isDigit then some .number else none

theorem Shape.ofHead?_of_isDigit {c : Char} : c.isDigit = true → ofHead? c = some .number := by
  unfold ofHead?
  -- No digit is one of the other characters.
  split
  case h_8 => exact fun h => if_pos (.inr h)
  all_goals decide

/-- A number is written in digits, possibly with a minus in front. -/
theorem mem_render {n : Number} {c : Char} (h : c ∈ n.render.toList) :
    c = '-' ∨ c.isDigit = true := by
  have hdigit : ∀ {m : Nat}, c ∈ (Nat.repr m).toList → c.isDigit = true := by
    intro m hmem
    rw [Nat.toList_repr] at hmem
    exact Nat.isDigit_of_mem_toDigits (by decide) (by decide) hmem
  change c ∈ (Int.repr n.toInt).toList at h
  cases hn : n.toInt with
  | ofNat m =>
    rw [hn] at h
    exact .inr (hdigit h)
  | negSucc m =>
    rw [hn, show Int.repr (.negSucc m) = "-" ++ Nat.repr (m + 1) from rfl, String.toList_append,
      List.mem_append] at h
    exact h.imp List.mem_singleton.1 hdigit

theorem render_toList_ne_nil (n : Number) : n.render.toList ≠ [] := by
  change (Int.repr n.toInt).toList ≠ []
  cases n.toInt with
  | ofNat m =>
    change (Nat.repr m).toList ≠ []
    rw [Nat.toList_repr]
    exact Nat.toDigits_ne_nil
  | negSucc m =>
    rw [show Int.repr (.negSucc m) = "-" ++ Nat.repr (m + 1) from rfl, String.toList_append]
    exact List.cons_ne_nil _ _

theorem inspect_list_toList (items : List Value) :
    (list items).inspect.toList =
      '[' :: ((String.intercalate ", " (inspectAll items)).toList ++ [']']) := by
  rw [inspect, String.append_assoc, String.toList_append, String.toList_append]
  rfl

theorem inspect_session_toList (id : SessionId) :
    (session id).inspect.toList =
      ['#', '<', 's', 'e', 's', 's', 'i', 'o', 'n', ' '] ++ (Nat.repr id).toList ++ ['>'] := by
  rw [inspect, String.toList_append, String.toList_append]
  rfl

/-- The first character of the text of a value tells its constructor. -/
theorem inspect_head (v : Value) :
    ∃ c cs, v.inspect.toList = c :: cs ∧ Shape.ofHead? c = some v.shape := by
  cases v with
  | nil => exact ⟨'n', _, rfl, rfl⟩
  | bool b =>
    cases b with
    | false => exact ⟨'f', _, rfl, rfl⟩
    | true => exact ⟨'t', _, rfl, rfl⟩
  | int n =>
    obtain ⟨c, cs, hcs⟩ := List.exists_cons_of_ne_nil (render_toList_ne_nil n)
    refine ⟨c, cs, hcs, ?_⟩
    rcases mem_render (hcs ▸ List.mem_cons_self) with rfl | hdigit
    · rfl
    · exact Shape.ofHead?_of_isDigit hdigit
  | str s => exact ⟨'"', _, String.toList_ofList, rfl⟩
  | list items => exact ⟨'[', _, inspect_list_toList items, rfl⟩
  | main => exact ⟨'m', _, rfl, rfl⟩
  | session id => exact ⟨'#', _, inspect_session_toList id, rfl⟩

/-! ## Texts and what stands behind them -/

/-- A character that neither goes on with a list nor ends it. -/
def isInner (c : Char) : Bool := c != ',' && c != ']'

/-- What stands behind an item of a list: a comma, the closing bracket, or nothing. -/
def Follows (rest : List Char) : Prop := ∀ c ∈ rest.head?, isInner c = false

theorem isInner_of_isDigit {c : Char} (h : c.isDigit = true) : isInner c = true := by
  rw [isInner, Bool.and_eq_true, bne_iff_ne, bne_iff_ne]
  constructor
  · rintro rfl
    cases h
  · rintro rfl
    cases h

/-- The text of a value that is neither a string nor a list has no comma and no bracket. -/
theorem inspect_inner {v : Value} (hv : v.shape.nested = false) :
    ∀ c ∈ v.inspect.toList, isInner c = true := by
  intro c h
  cases v with
  | nil =>
    exact List.all_eq_true.1 (show ['n', 'i', 'l'].all isInner = true by decide) c h
  | bool b =>
    cases b with
    | false =>
      exact List.all_eq_true.1 (show ['f', 'a', 'l', 's', 'e'].all isInner = true by decide) c h
    | true =>
      exact List.all_eq_true.1 (show ['t', 'r', 'u', 'e'].all isInner = true by decide) c h
  | int n =>
    rcases mem_render h with rfl | hdigit
    · rfl
    · exact isInner_of_isDigit hdigit
  | str s => cases hv
  | list items => cases hv
  | main =>
    exact List.all_eq_true.1 (show ['m', 'a', 'i', 'n'].all isInner = true by decide) c h
  | session id =>
    rw [inspect_session_toList, List.mem_append, List.mem_append, Nat.toList_repr] at h
    rcases h with (h | h) | h
    · exact List.all_eq_true.1 (by decide) c h
    · exact isInner_of_isDigit (Nat.isDigit_of_mem_toDigits (by decide) (by decide) h)
    · rw [List.mem_singleton.1 h]
      rfl

/-- Values of one constructor, neither strings nor lists, are told by their texts alone. -/
theorem inspect_inj_of_shape {v w : Value} (hshape : v.shape = w.shape)
    (hv : v.shape.nested = false) (h : v.inspect.toList = w.inspect.toList) : v = w := by
  cases v <;> cases w <;> try cases hshape
  case nil.nil => rfl
  case bool.bool a b =>
    cases a <;> cases b
    · rfl
    · cases (List.cons.inj h).1
    · cases (List.cons.inj h).1
    · rfl
  case int.int m n =>
    have hrepr : Int.repr m.toInt = Int.repr n.toInt := String.toList_inj.1 h
    exact congrArg int (Number.ext (Int.repr_injective hrepr))
  case str.str => cases hv
  case list.list => cases hv
  case main.main => rfl
  case session.session m n =>
    rw [inspect_session_toList, inspect_session_toList] at h
    have hrepr := List.append_cancel_left (List.append_cancel_right h)
    exact congrArg session (Nat.repr_injective (String.toList_inj.1 hrepr))

/-- The texts of values with a comma in front of each. -/
def moreChars : List Value → List Char
  | [] => []
  | v :: vs => ',' :: ' ' :: (v.inspect.toList ++ moreChars vs)

theorem intercalate_nil_toList : (String.intercalate ", " (inspectAll [])).toList = [] := by
  rw [inspectAll, String.intercalate_nil, String.toList_empty]

/-- The items of a list stand with commas between them. -/
theorem intercalate_toList (v : Value) (vs : List Value) :
    (String.intercalate ", " (inspectAll (v :: vs))).toList =
      v.inspect.toList ++ moreChars vs := by
  induction vs generalizing v with
  | nil => simp [inspectAll, moreChars]
  | cons w vs ih =>
    rw [inspectAll, inspectAll, String.intercalate_cons_cons, String.toList_append,
      String.toList_append, List.append_assoc, ← inspectAll, ih w]
    rfl

/-- Behind an item more of them stand, or the closing bracket. -/
theorem follows_more (vs : List Value) (rest : List Char) :
    Follows (moreChars vs ++ ']' :: rest) := by
  cases vs with
  | nil =>
    rintro c ⟨⟩
    rfl
  | cons v vs =>
    rintro c ⟨⟩
    rfl

theorem shape_eq_of_append {v w : Value} {r s : List Char}
    (h : v.inspect.toList ++ r = w.inspect.toList ++ s) : v.shape = w.shape := by
  obtain ⟨c, cs, hv, hc⟩ := inspect_head v
  obtain ⟨d, ds, hw, hd⟩ := inspect_head w
  rw [hv, hw] at h
  obtain rfl := (List.cons.inj h).1
  exact Option.some.inj (hc.symm.trans hd)

/-- The text of a value tells which value it is and, as an item, where the text ends. -/
def Told (v : Value) : Prop :=
  ∀ {w : Value} {r s : List Char}, Follows r → Follows s →
    v.inspect.toList ++ r = w.inspect.toList ++ s → v = w ∧ r = s

/-- The texts of items behind a first one tell which values they are, up to the closing bracket. -/
def MoreTold (vs : List Value) : Prop :=
  ∀ {ws : List Value} {r s : List Char},
    moreChars vs ++ ']' :: r = moreChars ws ++ ']' :: s → vs = ws ∧ r = s

theorem told_of_inner {v : Value} (hv : v.shape.nested = false) : Told v := by
  intro w r s hr hs h
  have hshape := shape_eq_of_append h
  obtain ⟨htexts, hrest⟩ :=
    run_append_inj (inspect_inner hv) (inspect_inner (hshape ▸ hv)) hr hs h
  exact ⟨inspect_inj_of_shape hshape hv htexts, hrest⟩

theorem told_str (a : String) : Told (.str a) := by
  intro w r s _ _ h
  have hshape := shape_eq_of_append h
  cases w <;> try cases hshape
  case str b =>
    rw [inspect, inspect, quoted, quoted, String.toList_ofList, String.toList_ofList] at h
    obtain ⟨htext, hrest⟩ := quotedChars_append_inj h
    exact ⟨congrArg str (String.toList_inj.1 htext), hrest⟩

/-- A list is told if its items are, up to the closing bracket. -/
theorem told_list {vs : List Value}
    (hvs : ∀ {ws : List Value} {r s : List Char},
      (String.intercalate ", " (inspectAll vs)).toList ++ ']' :: r =
        (String.intercalate ", " (inspectAll ws)).toList ++ ']' :: s → vs = ws ∧ r = s) :
    Told (.list vs) := by
  intro w r s _ _ h
  have hshape := shape_eq_of_append h
  cases w <;> try cases hshape
  case list ws =>
    rw [inspect_list_toList, inspect_list_toList] at h
    obtain ⟨rfl, hrest⟩ := @hvs ws r s (by simpa using h)
    exact ⟨rfl, hrest⟩

/-- The text of an item does not start with a closing bracket. -/
theorem inspect_append_ne_bracket (v : Value) (r s : List Char) :
    v.inspect.toList ++ r ≠ ']' :: s := by
  intro h
  obtain ⟨c, cs, hv, hc⟩ := inspect_head v
  rw [hv] at h
  obtain rfl := (List.cons.inj h).1
  cases hc

theorem told_list_nil : Told (.list []) := by
  refine told_list fun {ws r s} h => ?_
  rw [intercalate_nil_toList] at h
  cases ws with
  | nil =>
    rw [intercalate_nil_toList] at h
    exact ⟨rfl, (List.cons.inj h).2⟩
  | cons w ws =>
    rw [intercalate_toList, List.append_assoc] at h
    exact absurd h.symm (inspect_append_ne_bracket w _ _)

theorem told_list_cons {v : Value} {vs : List Value} (hv : Told v) (hvs : MoreTold vs) :
    Told (.list (v :: vs)) := by
  refine told_list fun {ws r s} h => ?_
  rw [intercalate_toList, List.append_assoc] at h
  cases ws with
  | nil =>
    rw [intercalate_nil_toList] at h
    exact absurd h (inspect_append_ne_bracket v _ _)
  | cons w ws =>
    rw [intercalate_toList, List.append_assoc] at h
    obtain ⟨rfl, hmore⟩ := hv (follows_more vs r) (follows_more ws s) h
    obtain ⟨rfl, hrest⟩ := hvs hmore
    exact ⟨rfl, hrest⟩

theorem moreTold_nil : MoreTold [] := by
  intro ws r s h
  cases ws with
  | nil => exact ⟨rfl, (List.cons.inj h).2⟩
  | cons w ws => cases (List.cons.inj h).1

theorem moreTold_cons {v : Value} {vs : List Value} (hv : Told v) (hvs : MoreTold vs) :
    MoreTold (v :: vs) := by
  intro ws r s h
  cases ws with
  | nil => cases (List.cons.inj h).1
  | cons w ws =>
    have hitem : v.inspect.toList ++ (moreChars vs ++ ']' :: r) =
        w.inspect.toList ++ (moreChars ws ++ ']' :: s) := by
      simpa [moreChars] using h
    obtain ⟨rfl, hmore⟩ := hv (follows_more vs r) (follows_more ws s) hitem
    obtain ⟨rfl, hrest⟩ := hvs hmore
    exact ⟨rfl, hrest⟩

mutual

theorem told : ∀ v : Value, Told v
  | .nil => told_of_inner rfl
  | .bool _ => told_of_inner rfl
  | .int _ => told_of_inner rfl
  | .str a => told_str a
  | .list [] => told_list_nil
  | .list (v :: vs) => told_list_cons (told v) (moreTold vs)
  | .main => told_of_inner rfl
  | .session _ => told_of_inner rfl

theorem moreTold : ∀ vs : List Value, MoreTold vs
  | [] => moreTold_nil
  | v :: vs => moreTold_cons (told v) (moreTold vs)

end

/-- Values have the same text exactly if they are the same. -/
theorem inspect_eq_iff {v w : Value} : v.inspect = w.inspect ↔ v = w := by
  constructor
  · intro h
    have htexts : v.inspect.toList ++ [] = w.inspect.toList ++ [] := by rw [h]
    have hend : Follows [] := by simp [Follows]
    exact (told v hend hend htexts).1
  · rintro rfl
    rfl

/-- Two strings in a list, and one string with a quote, a comma and a quote in it. -/
example : (list [.str "a", .str "b"]).inspect ≠ (list [.str "a\", \"b"]).inspect := by
  decide +kernel

end Value

end CalcShell
