import CalcShell.Proofs.Line.Zipper

/-!
# Walking through the history

Before the walk there is a draft: the line as it was typed. From there the arrow keys up and down
walk through the lines entered before, and what the walk comes to is said by one number: how many
lines back it stands, which one key makes larger and the other smaller, and which stays between the
draft and the oldest line (`stepBack`).

The main statement is that the line shown is at every moment the one at this number, the draft at
none, however often the walk leaves the history and enters it again. What carries it is that while
the walk is inside the history the stash holds the draft (`Editing.At`): it is written anew whenever
the walk enters, but the line is the draft then.
-/

namespace CalcShell.Line

/-- A key that walks through the history or moves in the line, or has no use. -/
def Key.Walks (k : Key) : Prop := k ∈ [Key.up, .down, .left, .right, .home, .finish, .other]

/-- How many lines back a walk through `n` lines stands after a key. -/
def stepBack (n p : Nat) : Key → Nat
  | .up => min (p + 1) n
  | .down => p - 1
  | _ => p

/-- How many lines back a walk that begins at the draft stands after some keys. -/
def stepsBack (n : Nat) (ks : List Key) : Nat := ks.foldl (stepBack n) 0

/-- The line that is some lines back from a draft, if there are as many: the draft itself, or else
the entry at this place, counted from the most recent one. -/
def History.back? (h : History) (draft : String) : Nat → Option String
  | 0 => some draft
  | p + 1 => h.entries.reverse[p]?

/-- An entry of the history, counted from the oldest one. -/
theorem History.back?_sub (h : History) (draft : String) {i : Nat} (hi : i < h.entries.length) :
    h.back? draft (h.entries.length - i) = some (h.get i) := by
  obtain ⟨p, hp⟩ := Nat.exists_eq_add_of_lt hi
  have hback : h.entries.length - i = p + 1 := by omega
  have hplace : h.entries.length - 1 - p = i := by omega
  rw [hback, back?, List.getElem?_reverse (by omega), hplace, get, List.getD_eq_getElem?_getD,
    List.getElem?_eq_getElem hi]
  rfl

/-- A history that is not empty has a most recent entry. -/
theorem History.length_pos {h : History} (hsome : ¬ h.entries.isEmpty = true) :
    0 < h.entries.length :=
  List.length_pos_iff.2 fun hnil => hsome (List.isEmpty_iff.2 hnil)

namespace Recall

variable {h : History} {r : Recall} {line : LineBuffer}

/-- A step back leads to an entry, or leaves the walk where it is. -/
theorem older_index_lt (hr : ∀ i, r.index = some i → i < h.entries.length) :
    ∀ i, (r.older h line).2.1.index = some i → i < h.entries.length := by
  rw [older]
  split
  · split
    · exact hr
    · rename_i hsome
      rintro i ⟨⟩
      exact Nat.sub_lt (History.length_pos hsome) Nat.one_pos
  · exact hr
  · rename_i i hindex
    rintro j ⟨⟩
    exact Nat.lt_of_succ_lt (hr _ hindex)

/-- A step forward leads to an entry or out of the history, or leaves the walk where it is. -/
theorem newer_index_lt (hr : ∀ i, r.index = some i → i < h.entries.length) :
    ∀ i, (r.newer h line).2.1.index = some i → i < h.entries.length := by
  rw [newer]
  split
  · exact hr
  · split
    · rename_i hnext
      rintro j ⟨⟩
      exact hnext
    · rintro j ⟨⟩

end Recall

/-- No key that edits the line is the key up. -/
theorem Zipper.EditsAll.up_not_mem {z : Zipper} {ks : List Key} (hks : z.EditsAll ks) :
    .up ∉ ks := by
  induction ks generalizing z with
  | nil => exact List.not_mem_nil
  | cons k ks ih =>
    refine mt List.mem_cons.1 (not_or.2 ⟨?_, ih hks.2⟩)
    rintro rfl
    exact absurd hks.1.1 (by decide)

namespace Editing

variable {h : History} {draft : String} {p : Nat} {e e' : Editing} {changed : Bool} {k : Key}

/-- The editing stands `p` lines back from a draft. -/
structure At (h : History) (draft : String) (p : Nat) (e : Editing) : Prop where
  /-- There are as many lines. -/
  le : p ≤ h.entries.length
  /-- The line shown is the one there. -/
  text : h.back? draft p = some e.line.text
  /-- The walk is outside of the history, or knows the place in it. -/
  index : e.past.index = if p = 0 then none else some (h.entries.length - p)
  /-- Inside the history, the stash holds the draft. -/
  stash : p ≠ 0 → e.past.stash = draft

/-- A move in the line leaves the walk where it is. -/
theorem At.withLine (he : e.At h draft p) {r : Bool × LineBuffer} (hr : r.2.text = e.line.text) :
    ∃ changed e', e.withLine r = .edit changed e' ∧ e'.At h draft p :=
  ⟨r.1, _, rfl, he.le, he.text.trans (congrArg some hr.symm), he.index, he.stash⟩

theorem text_ofText (s : String) : (LineBuffer.ofText s).text = s := String.ofList_toList

/-- Where the walk is outside of the history, it stands at the draft. -/
theorem At.of_index_none (he : e.At h draft p) (hindex : e.past.index = none) : p = 0 := by
  have hplace := he.index
  rw [hindex] at hplace
  split at hplace
  · assumption
  · cases hplace

/-- Where the walk is inside the history, its place is the one of an entry. -/
theorem At.of_index_some (he : e.At h draft p) {i : Nat} (hindex : e.past.index = some i) :
    p = h.entries.length - i ∧ i < h.entries.length ∧ e.past.stash = draft := by
  have hplace := he.index
  rw [hindex] at hplace
  split at hplace
  · cases hplace
  · rename_i hp
    have hi := Option.some.inj hplace
    have hle := he.le
    exact ⟨by omega, by omega, he.stash hp⟩

/-- An entry of the history is shown, and the walk knows its place. -/
theorem At.shown {i : Nat} (hi : i < h.entries.length) :
    (⟨.ofText (h.get i), ⟨some i, draft⟩⟩ : Editing).At h draft (h.entries.length - i) where
  le := Nat.sub_le _ _
  text := by rw [h.back?_sub draft hi, text_ofText]
  index := by rw [if_neg (by omega), Nat.sub_sub_self (Nat.le_of_lt hi)]
  stash _ := rfl

/-- A step back, unless the walk is at the oldest line. -/
theorem At.older (he : e.At h draft p) :
    ∃ changed e', KeyStep.recalled (e.past.older h e.line) = .edit changed e' ∧
      e'.At h draft (min (p + 1) h.entries.length) := by
  refine ⟨_, _, rfl, ?_⟩
  have hle := he.le
  rw [Recall.older]
  cases hindex : e.past.index with
  | none =>
    obtain rfl := he.of_index_none hindex
    dsimp only
    split
    · rename_i hempty
      have hlength : h.entries.length = 0 := by rw [List.isEmpty_iff.1 hempty, List.length_nil]
      rw [hlength]
      exact he
    · rename_i hsome
      have hlength := History.length_pos hsome
      -- The line is the draft, and goes to the stash.
      have hdraft : e.line.text = draft := (Option.some.inj he.text).symm
      have hplace : min (0 + 1) h.entries.length = h.entries.length - (h.entries.length - 1) := by
        omega
      rw [hdraft, hplace]
      exact .shown (by omega)
  | some i =>
    obtain ⟨hp, hi, hstash⟩ := he.of_index_some hindex
    cases i with
    | zero =>
      rw [show min (p + 1) h.entries.length = p by omega]
      exact he
    | succ i =>
      rw [show min (p + 1) h.entries.length = h.entries.length - i by omega, hstash]
      exact .shown (by omega)

/-- A step forward, unless the walk is at the draft. -/
theorem At.newer (he : e.At h draft p) :
    ∃ changed e', KeyStep.recalled (e.past.newer h e.line) = .edit changed e' ∧
      e'.At h draft (p - 1) := by
  refine ⟨_, _, rfl, ?_⟩
  rw [Recall.newer]
  cases hindex : e.past.index with
  | none =>
    obtain rfl := he.of_index_none hindex
    exact he
  | some i =>
    obtain ⟨hp, hi, hstash⟩ := he.of_index_some hindex
    dsimp only
    split
    · rename_i hnext
      rw [show p - 1 = h.entries.length - (i + 1) by omega, hstash]
      exact .shown hnext
    · -- The most recent line was shown, and the draft comes back.
      rw [show p - 1 = 0 by omega, hstash]
      exact ⟨Nat.zero_le _, congrArg some (text_ofText draft).symm, rfl, fun hp => absurd rfl hp⟩

/-- A key that walks takes the walk to the line that it stands at then. -/
theorem At.press (he : e.At h draft p) (hk : k.Walks) :
    ∃ changed e', e.press h k = .edit changed e' ∧
      e'.At h draft (stepBack h.entries.length p k) := by
  cases k with
  | enter | cancel | delete | backspace | kill | char => exact absurd hk (by simp [Key.Walks])
  | up => exact he.older
  | down => exact he.newer
  | left => exact he.withLine rfl
  | right =>
    refine he.withLine ?_
    unfold LineBuffer.right
    split <;> rfl
  | home => exact he.withLine rfl
  | finish => exact he.withLine rfl
  | other => exact ⟨_, _, rfl, he⟩

/-- Keys that walk take the walk to the line that it stands at behind them. -/
theorem At.after? {ks : List Key} (he : e.At h draft p) (hks : ∀ k ∈ ks, k.Walks) :
    ∃ e', e.after? h ks = some e' ∧ e'.At h draft (ks.foldl (stepBack h.entries.length) p) := by
  induction ks generalizing e p with
  | nil => exact ⟨e, rfl, he⟩
  | cons k ks ih =>
    obtain ⟨hk, hks⟩ := List.forall_mem_cons.1 hks
    obtain ⟨changed, e₁, hpress, h₁⟩ := he.press hk
    obtain ⟨e', hafter, he'⟩ := ih h₁ hks
    refine ⟨e', ?_, he'⟩
    rw [Editing.after?, hpress]
    exact hafter

/-! ## Before and outside of the walk -/

/-- Only the key up leads into the history. -/
theorem press_index_none (hk : k ≠ .up) (he : e.past.index = none)
    (hpress : e.press h k = .edit changed e') : e'.past.index = none := by
  cases k with
  | enter | cancel => cases hpress
  | delete =>
    rw [press] at hpress
    split at hpress
    · cases hpress
    · cases hpress
      exact he
  | up => exact absurd rfl hk
  | down =>
    rw [press, Recall.newer, he] at hpress
    cases hpress
    exact he
  | char => cases hpress; rfl
  | backspace | left | right | home | finish | kill | other => cases hpress; exact he

/-- A line that is typed is typed outside of the history. -/
theorem after?_index_none {ks : List Key} (hks : .up ∉ ks) (he : e.past.index = none)
    (hafter : e.after? h ks = some e') : e'.past.index = none := by
  induction ks generalizing e with
  | nil =>
    cases hafter
    exact he
  | cons k ks ih =>
    obtain ⟨hk, hks⟩ := not_or.1 (mt List.mem_cons.2 hks)
    rw [Editing.after?] at hafter
    split at hafter
    · rename_i hpress
      exact ih hks (press_index_none (Ne.symm hk) he hpress) hafter
    · cases hafter

/-- Whatever key is pressed, the walk is outside of the history or at an entry of it. -/
theorem press_index_lt (he : ∀ i, e.past.index = some i → i < h.entries.length)
    (hpress : e.press h k = .edit changed e') :
    ∀ i, e'.past.index = some i → i < h.entries.length := by
  cases k with
  | enter | cancel => cases hpress
  | delete =>
    rw [press] at hpress
    split at hpress
    · cases hpress
    · cases hpress
      exact he
  | up =>
    cases hpress
    exact Recall.older_index_lt he
  | down =>
    cases hpress
    exact Recall.newer_index_lt he
  | char =>
    cases hpress
    rintro i ⟨⟩
  | backspace | left | right | home | finish | kill | other => cases hpress; exact he

end Editing

/-! ## The number of lines -/

theorem stepsBack_append (n : Nat) (ks ls : List Key) :
    stepsBack n (ks ++ ls) = ls.foldl (stepBack n) (stepsBack n ks) :=
  List.foldl_append

/-- A walk never stands farther back than it was taken. -/
theorem foldl_stepBack_le (n p : Nat) (ks : List Key) :
    ks.foldl (stepBack n) p ≤ p + ks.count .up := by
  induction ks generalizing p with
  | nil => exact Nat.le_refl _
  | cons k ks ih =>
    refine Nat.le_trans (ih (stepBack n p k)) ?_
    cases k with
    | up =>
      rw [List.count_cons_self, stepBack]
      omega
    | down =>
      rw [List.count_cons_of_ne (by decide), stepBack]
      omega
    | _ => rw [List.count_cons_of_ne (by simp)]; exact Nat.le_refl _

/-- Nor does it stand farther back than there are lines. -/
theorem foldl_stepBack_le_length {n p : Nat} (hp : p ≤ n) (ks : List Key) :
    ks.foldl (stepBack n) p ≤ n := by
  induction ks generalizing p with
  | nil => exact hp
  | cons k ks ih =>
    apply ih
    cases k with
    | up => exact Nat.min_le_right _ _
    | down => exact Nat.le_trans (Nat.sub_le _ _) hp
    | _ => exact hp

/-- Keys among which there is no key up take the walk forward, one line with each key down. -/
theorem foldl_stepBack_of_not_up (n p : Nat) {ks : List Key} (hks : .up ∉ ks) :
    ks.foldl (stepBack n) p = p - ks.count .down := by
  induction ks generalizing p with
  | nil => rfl
  | cons k ks ih =>
    obtain ⟨hk, hks⟩ := not_or.1 (mt List.mem_cons.2 hks)
    rw [List.foldl_cons, ih _ hks]
    cases k with
    | up => exact absurd rfl hk
    | down =>
      rw [List.count_cons_self, stepBack]
      omega
    | _ => rw [List.count_cons_of_ne (by simp)]; rfl

/-- Where a walk begins at the draft, as many keys down behind all the keys up, or as many as there
are lines, take it back to the draft. -/
theorem stepsBack_eq_zero {n : Nat} {before ups downs : List Key} (hbefore : stepsBack n before = 0)
    (hdowns : .up ∉ downs) (hcount : min (ups.count .up) n ≤ downs.count .down) :
    stepsBack n (before ++ ups ++ downs) = 0 := by
  have hup := foldl_stepBack_le n 0 ups
  have hlength := foldl_stepBack_le_length (Nat.zero_le n) ups
  rw [stepsBack_append, foldl_stepBack_of_not_up n _ hdowns, stepsBack_append, hbefore]
  omega

/-! ## Reading a line -/

/-- After a line is typed and some keys walk, the editing stands where they have taken the walk. -/
theorem Editing.after?_walk (h : History) {typed ks : List Key} (htyped : Zipper.EditsAll {} typed)
    (hks : ∀ k ∈ ks, k.Walks) :
    ∃ e, Editing.after? h (typed ++ ks) {} = some e ∧
      e.At h (Zipper.after {} typed).line.text (stepsBack h.entries.length ks) := by
  obtain ⟨e₁, h₁, hline⟩ := Editing.after?_zipper h htyped (e := {}) rfl
  have hstart : e₁.At h (Zipper.after {} typed).line.text 0 :=
    { le := Nat.zero_le _
      text := by rw [hline]; rfl
      index := Editing.after?_index_none htyped.up_not_mem rfl h₁
      stash := fun hp => absurd rfl hp }
  obtain ⟨e, hafter, he⟩ := hstart.after? hks
  exact ⟨e, (Editing.after?_append h₁).trans hafter, he⟩

/-- So does a read between any two of the keys that walk. -/
theorem Draft.after?_walk (prompt : String) (h : History) {typed ks more : List Key}
    (htyped : Zipper.EditsAll {} typed) (hks : ∀ k ∈ ks, k.Walks) {bytes : List UInt8}
    (hkeys : keys bytes = typed ++ ks ++ more) {m : Nat} (hm : m ≤ ks.length) :
    ∃ d, (Draft.start prompt bytes).after? prompt h (typed.length + m) = some d ∧
      keys d.bytes = ks.drop m ++ more ∧
      d.editing.At h (Zipper.after {} typed).line.text
        (stepsBack h.entries.length (ks.take m)) := by
  obtain ⟨e, hafter, he⟩ :=
    Editing.after?_walk h htyped fun k hk => hks k (List.mem_of_mem_take (i := m) hk)
  have hsplit : keys bytes = (typed ++ ks.take m) ++ (ks.drop m ++ more) := by
    rw [hkeys, List.append_assoc, List.append_assoc, ← List.append_assoc (ks.take m),
      List.take_append_drop]
  obtain ⟨d, hd, rfl, hmore⟩ := Draft.after?_of_keys (d := .start prompt bytes) hsplit hafter
  rw [List.length_append, List.length_take_of_le hm] at hd
  exact ⟨d, hd, hmore, he⟩

/-- A line is typed into an empty one, and then the arrow keys walk through a history of `n` lines,
with moves in the line and keys without a use among them. Between any two of these keys the walk
stands as many lines back as the keys up and down have taken it, between none and `n`; the line
shown is the one there, which is the typed one where this number is zero and the entry of the
history at this place, counted from the most recent one, where it is not; and the walk knows just
this place. Enter gives the line shown. Whatever keys are pressed, a place in the history that the
walk knows is one of an entry. Where the walk stands at the typed line, so it does again behind any
further keys and then, without a key up, as many keys down as there were keys up or as there are
lines. -/
theorem history_walk (prompt : String) (h : History) {typed ks : List Key}
    (htyped : Zipper.EditsAll {} typed) (hks : ∀ k ∈ ks, k.Walks) :
    let draft := (Zipper.after {} typed).line.text
    let n := h.entries.length
    (∀ bytes more, keys bytes = typed ++ ks ++ more →
      (∀ m ≤ ks.length, ∃ d,
        (Draft.start prompt bytes).after? prompt h (typed.length + m) = some d ∧
        keys d.bytes = ks.drop m ++ more ∧
        h.back? draft (stepsBack n (ks.take m)) = some d.editing.line.text ∧
        d.editing.past.index =
          if stepsBack n (ks.take m) = 0 then none else some (n - stepsBack n (ks.take m))) ∧
      ∀ others, more = .enter :: others → ∃ text, h.back? draft (stepsBack n ks) = some text ∧
        (editLine prompt h bytes).result = .ok (.line text)) ∧
    (∀ bytes m d, (Draft.start prompt bytes).after? prompt h m = some d →
      ∀ i, d.editing.past.index = some i → i < n) ∧
    ∀ before ups downs, ks = before ++ ups ++ downs → stepsBack n before = 0 → .up ∉ downs →
      min (ups.count .up) n ≤ downs.count .down → h.back? draft (stepsBack n ks) = some draft := by
  intro draft n
  refine ⟨fun bytes more hkeys => ⟨fun m hm => ?_, ?_⟩, ?_, ?_⟩
  · obtain ⟨d, hd, hmore, he⟩ := Draft.after?_walk prompt h htyped hks hkeys hm
    exact ⟨d, hd, hmore, he.text, he.index⟩
  · rintro others rfl
    obtain ⟨d, hd, hmore, he⟩ := Draft.after?_walk prompt h htyped hks hkeys (Nat.le_refl _)
    rw [List.take_length] at he
    rw [List.drop_length] at hmore
    obtain ⟨rest, hread, -⟩ := nextKey_of_keys hmore
    have hend := (Draft.finish_of_after? hd).trans (Draft.finish_of_stop hread rfl)
    exact ⟨d.editing.line.text, he.text, congrArg EditResult.result hend⟩
  · intro bytes m d hd
    refine Draft.after?_invariant (P := fun d => ∀ i, d.editing.past.index = some i → i < n)
      (fun hlt hnext => ?_) (by rintro i ⟨⟩) hd
    obtain ⟨k, changed, -, hpress, -⟩ := Draft.next?_eq_some hnext
    exact Editing.press_index_lt hlt hpress
  · rintro before ups downs rfl hbefore hdowns hcount
    rw [stepsBack_eq_zero hbefore hdowns hcount]
    rfl

/-- In a history of two lines `ab` is typed and the cursor moved back, and the walk goes past the
oldest line, moves in it and comes back to `ab`. Then it enters the history once more, where Enter
gives the most recent line. -/
theorem history_walk_twice :
    let h : History := { entries := ["old", "né"] }
    let typed : List Key := [.char 'a', .char 'b', .left]
    let ks : List Key := [.up, .home, .up, .up, .down, .other, .down, .down, .right, .up]
    let bytes : List UInt8 :=
      [0x61, 0x62, 0x1b, 0x5b, 0x44, 0x1b, 0x5b, 0x41, 0x01, 0x1b, 0x5b, 0x41, 0x1b, 0x5b, 0x41,
        0x1b, 0x5b, 0x42, 0x02, 0x1b, 0x5b, 0x42, 0x1b, 0x5b, 0x42, 0x1b, 0x5b, 0x43, 0x1b, 0x5b,
        0x41, 0x0d]
    Zipper.EditsAll {} typed ∧ (∀ k ∈ ks, k.Walks) ∧ keys bytes = typed ++ ks ++ [.enter] ∧
      (∃ d, (Draft.start "> " bytes).after? "> " h 6 = some d ∧ d.editing.line.text = "old" ∧
        d.editing.past.index = some 0) ∧
      (∃ d, (Draft.start "> " bytes).after? "> " h 12 = some d ∧ d.editing.line.text = "ab" ∧
        d.editing.past.index = none) ∧
      (editLine "> " h bytes).result = .ok (.line "né") ∧
      h.back? "ab" (stepsBack 2 (ks.take 9)) = some "ab" := by
  intro h typed ks bytes
  have htyped : Zipper.EditsAll {} typed := by
    simp [typed, Zipper.EditsAll, Zipper.Edits, Zipper.press]
  have hks : ∀ k ∈ ks, k.Walks := by simp [ks, Key.Walks]
  have hkeys : keys bytes = typed ++ ks ++ [.enter] := by decide +kernel
  obtain ⟨hwalk, -, -⟩ := history_walk "> " h htyped hks
  obtain ⟨hbetween, henter⟩ := hwalk bytes _ hkeys
  obtain ⟨d, hd, -, hold, hfirst⟩ := hbetween 3 (by decide)
  obtain ⟨d', hd', -, hdraft, hnone⟩ := hbetween 9 (by decide)
  obtain ⟨text, htext, hread⟩ := henter [] rfl
  cases htext
  have hfront : ∀ k ∈ ks.take 9, k.Walks := fun k hk => hks k (List.mem_of_mem_take hk)
  have hreturn := (history_walk "> " h htyped hfront).2.2 [] (ks.take 4) ((ks.take 9).drop 4) rfl
    rfl (by decide) (by decide)
  exact ⟨htyped, hks, hkeys, ⟨d, hd, (Option.some.inj hold).symm, hfirst⟩,
    ⟨d', hd', (Option.some.inj hdraft).symm, hnone⟩, hread, hreturn⟩

end CalcShell.Line
