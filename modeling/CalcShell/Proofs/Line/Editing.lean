import CalcShell.Line.Editor

/-!
# Editing key by key

A read in the editor goes on from key to key. Where it stands in between is a `Draft`: the state of
the editing, all that was written so far, and the bytes that are left. `Draft.next?` is what the
next key makes of it, and the read is the same whichever of its drafts it is continued from
(`Draft.finish_of_next?`), up to one that no key leads on from (`Draft.exists_last`).

What the keys do to the line is said once for all of them (`Editing.press_edit`): a key that reports
no change has left the line as it was, the cursor stays within the line, and all characters come
from the line, from the history or from the key itself.
-/

namespace CalcShell.Line

/-- The keys in the bytes, up to where they end or break off. -/
def keys (bytes : List UInt8) : List Key :=
  match _h : nextKey bytes with
  | .key k rest => k :: keys rest
  | .none => []
  | .truncated => []
termination_by bytes.length
decreasing_by exact nextKey_length _h

theorem keys_of_nextKey {bytes rest : List UInt8} {k : Key} (h : nextKey bytes = .key k rest) :
    keys bytes = k :: keys rest := by
  rw [keys]
  split
  · rename_i heq
    cases h.symm.trans heq
    rfl
  · rename_i heq
    cases h.symm.trans heq
  · rename_i heq
    cases h.symm.trans heq

/-- The first of the keys in the bytes is read, and the others are in the bytes behind it. -/
theorem nextKey_of_keys {bytes : List UInt8} {k : Key} {ks : List Key} (h : keys bytes = k :: ks) :
    ∃ rest, nextKey bytes = .key k rest ∧ keys rest = ks := by
  cases hread : nextKey bytes with
  | key l rest =>
    rw [keys_of_nextKey hread] at h
    obtain ⟨rfl, hrest⟩ := List.cons.inj h
    exact ⟨rest, rfl, hrest⟩
  | none =>
    rw [keys] at h
    split at h
    · rename_i heq
      cases hread.symm.trans heq
    · cases h
    · cases h
  | truncated =>
    rw [keys] at h
    split at h
    · rename_i heq
      cases hread.symm.trans heq
    · cases h
    · cases h

/-- What is written when a key ends a read. -/
theorem Editing.press_stop {h : History} {e : Editing} {k : Key} {written : String} {result : Read}
    (hpress : e.press h k = .stop written result) : written ∈ ["", "\r\n", "^C\r\n"] := by
  cases k with
  | enter =>
    cases hpress
    decide
  | cancel =>
    cases hpress
    decide
  | delete =>
    rw [Editing.press] at hpress
    split at hpress
    · cases hpress
      decide
    · cases hpress
  | _ => cases hpress

/-- The editing after some keys, unless one of them ends the read. -/
def Editing.after? (h : History) : List Key → Editing → Option Editing
  | [], e => some e
  | k :: ks, e =>
    match e.press h k with
    | .edit _ e => e.after? h ks
    | .stop _ _ => none

/-- Keys and then further keys. -/
theorem Editing.after?_append {h : History} {ks ls : List Key} {e e₁ : Editing}
    (h₁ : e.after? h ks = some e₁) : e.after? h (ks ++ ls) = e₁.after? h ls := by
  induction ks generalizing e with
  | nil =>
    cases h₁
    rfl
  | cons k ks ih =>
    rw [List.cons_append, after?]
    rw [after?] at h₁
    split
    · rename_i hpress
      rw [hpress] at h₁
      exact ih h₁
    · rename_i hpress
      rw [hpress] at h₁
      cases h₁

/-- Where a read stands between two keys: the editing, all that was written, and the bytes that are
left. -/
structure Draft where
  editing : Editing
  screen : String
  bytes : List UInt8

namespace Draft

variable {prompt : String} {h : History}

/-- How a read begins: the prompt is written. -/
def start (prompt : String) (bytes : List UInt8) : Draft := ⟨{}, prompt, bytes⟩

/-- The draft after the next key, unless the read ends there. -/
def next? (prompt : String) (h : History) (d : Draft) : Option Draft :=
  match nextKey d.bytes with
  | .key k rest =>
    match d.editing.press h k with
    | .edit true e => some ⟨e, d.screen ++ redraw prompt e.line, rest⟩
    | .edit false e => some ⟨e, d.screen, rest⟩
    | .stop _ _ => none
  | .none => none
  | .truncated => none

/-- The draft after some keys, unless the read ends before. -/
def after? (prompt : String) (h : History) : Nat → Draft → Option Draft
  | 0, d => some d
  | n + 1, d => (d.next? prompt h).bind (after? prompt h n)

/-- A read comes to the editing after the first of its keys, with the other keys left. -/
theorem after?_of_keys {ks more : List Key} {d : Draft} {e : Editing}
    (hkeys : keys d.bytes = ks ++ more) (he : d.editing.after? h ks = some e) :
    ∃ d', d.after? prompt h ks.length = some d' ∧ d'.editing = e ∧ keys d'.bytes = more := by
  induction ks generalizing d with
  | nil =>
    cases he
    exact ⟨d, rfl, rfl, hkeys⟩
  | cons k ks ih =>
    obtain ⟨rest, hread, hrest⟩ := nextKey_of_keys hkeys
    rw [Editing.after?] at he
    split at he
    · rename_i changed e₁ hpress
      obtain ⟨screen, hnext⟩ : ∃ screen, d.next? prompt h = some ⟨e₁, screen, rest⟩ := by
        rw [next?, hread]
        dsimp only
        rw [hpress]
        cases changed
        · exact ⟨_, rfl⟩
        · exact ⟨_, rfl⟩
      obtain ⟨d', hafter, hd'⟩ := ih (d := ⟨e₁, screen, rest⟩) hrest he
      refine ⟨d', ?_, hd'⟩
      rw [List.length_cons, after?, hnext]
      exact hafter
    · cases he

/-- What comes of the read. -/
def finish (prompt : String) (h : History) (d : Draft) : EditResult :=
  editFrom prompt h d.editing d.screen d.bytes

/-- A draft that a key leads on from: which key it is, what it does, and what is written. -/
theorem next?_eq_some {d d' : Draft} (hd : d.next? prompt h = some d') :
    ∃ k changed, nextKey d.bytes = .key k d'.bytes ∧
      d.editing.press h k = .edit changed d'.editing ∧
      d'.screen = if changed then d.screen ++ redraw prompt d'.editing.line else d.screen := by
  unfold next? at hd
  split at hd
  · rename_i k rest hk
    split at hd
    · rename_i e he
      cases hd
      exact ⟨k, true, hk, he, rfl⟩
    · rename_i e he
      cases hd
      exact ⟨k, false, hk, he, rfl⟩
    · cases hd
  · cases hd
  · cases hd

/-- The read goes on from the next draft as it goes on from this one. -/
theorem finish_of_next? {d d' : Draft} (hd : d.next? prompt h = some d') :
    d.finish prompt h = d'.finish prompt h := by
  obtain ⟨k, changed, hk, hpress, hscreen⟩ := next?_eq_some hd
  unfold finish
  rw [editFrom]
  split
  · rename_i heq
    cases hk.symm.trans heq
  · rename_i heq
    cases hk.symm.trans heq
  · rename_i heq
    cases hk.symm.trans heq
    rw [hpress, hscreen]
    cases changed <;> rfl

/-- The read goes on from each of its drafts as it goes on from the first. -/
theorem finish_of_after? {n : Nat} {d d' : Draft} (hd : d.after? prompt h n = some d') :
    d.finish prompt h = d'.finish prompt h := by
  induction n generalizing d with
  | zero =>
    cases hd
    rfl
  | succ n ih =>
    obtain ⟨d₁, h₁, hrest⟩ := Option.bind_eq_some_iff.1 hd
    rw [finish_of_next? h₁, ih hrest]

/-- A key that ends the read ends it here, and the bytes behind it are left. -/
theorem finish_of_stop {d : Draft} {k : Key} {rest : List UInt8} {written : String} {result : Read}
    (hk : nextKey d.bytes = .key k rest) (hpress : d.editing.press h k = .stop written result) :
    d.finish prompt h = ⟨.ok result, d.screen ++ written, rest⟩ := by
  unfold finish
  rw [editFrom]
  split
  · rename_i heq
    cases hk.symm.trans heq
  · rename_i heq
    cases hk.symm.trans heq
  · rename_i heq
    cases hk.symm.trans heq
    rw [hpress]

/-- A key that ends a read has a line end written, or nothing is written where the bytes end. -/
theorem finish_of_last {d : Draft} (hd : d.next? prompt h = none) :
    ∃ written ∈ ["", "\r\n", "^C\r\n"], (d.finish prompt h).screen = d.screen ++ written := by
  unfold finish
  rw [editFrom]
  unfold next? at hd
  split
  · exact ⟨"", by decide, String.append_empty.symm⟩
  · exact ⟨"", by decide, String.append_empty.symm⟩
  · rename_i k rest hk
    rw [hk] at hd
    dsimp only at hd
    cases hpress : d.editing.press h k with
    | edit changed e =>
      rw [hpress] at hd
      cases changed <;> cases hd
    | stop written result => exact ⟨written, Editing.press_stop hpress, rfl⟩

/-- Each read comes to a draft that no key leads on from. -/
theorem exists_last (d : Draft) :
    ∃ n d', d.after? prompt h n = some d' ∧ d'.next? prompt h = none := by
  -- By induction on the bytes that are left, of which a key takes at least one.
  induction hn : d.bytes.length using Nat.strongRecOn generalizing d with
  | ind n ih =>
    cases hd : d.next? prompt h with
    | none => exact ⟨0, d, rfl, hd⟩
    | some d₁ =>
      obtain ⟨k, -, hk, -, -⟩ := next?_eq_some hd
      obtain ⟨m, d', hd', hlast⟩ := ih d₁.bytes.length (hn ▸ nextKey_length hk) d₁ rfl
      refine ⟨m + 1, d', ?_, hlast⟩
      rw [after?, hd]
      exact hd'

/-- What holds of a draft and is kept by every key holds of all drafts that follow. -/
theorem after?_invariant {P : Draft → Prop}
    (hstep : ∀ {d d' : Draft}, P d → d.next? prompt h = some d' → P d') {n : Nat} {d d' : Draft}
    (hP : P d) (hd : d.after? prompt h n = some d') : P d' := by
  induction n generalizing d with
  | zero =>
    cases hd
    exact hP
  | succ n ih =>
    obtain ⟨d₁, h₁, hrest⟩ := Option.bind_eq_some_iff.1 hd
    exact ih (hstep hP h₁) hrest

end Draft

/-- What was written before stands in front of what a read writes. -/
theorem editFrom_append (prompt : String) (h : History) (e : Editing) (before screen : String)
    (bytes : List UInt8) :
    editFrom prompt h e (before ++ screen) bytes =
      let r := editFrom prompt h e screen bytes
      ⟨r.result, before ++ r.screen, r.rest⟩ := by
  -- By induction on the keys: each one writes behind what was written by then.
  fun_induction editFrom prompt h e screen bytes with
  | case1 e screen bytes hk =>
    rw [editFrom]
    split <;> simp_all
  | case2 e screen bytes hk =>
    rw [editFrom]
    split <;> simp_all
  | case3 e screen bytes k rest hk written result hpress =>
    rw [editFrom]
    split <;> simp_all [String.append_assoc]
  | case4 e screen bytes k rest hk e' hpress ih =>
    rw [editFrom]
    split <;> simp_all [String.append_assoc]
  | case5 e screen bytes k rest hk e' hpress ih =>
    rw [editFrom]
    split <;> simp_all

/-- On a terminal, an editor whose prompt was written before reads a line as it is edited under the
prompt. -/
theorem Editor.readLine_terminal {e : Editor} (he : e.terminal = true) (prompt : String) :
    editLine prompt e.history e.bytes =
      ⟨(e.readLine prompt).1, prompt ++ (e.readLine prompt).2.1,
        (e.readLine prompt).2.2.bytes⟩ := by
  have hscreen := editFrom_append prompt e.history {} prompt "" e.bytes
  rw [String.append_empty] at hscreen
  rw [editLine, hscreen, readLine, if_pos he]

/-! ## What keys do to the line -/

/-- What an operation does to a line with the cursor in it, where it also says whether anything
changed: without a change the line is as it was, the cursor is still in the line, and no character
is new. -/
structure LineBuffer.Handles (b : LineBuffer) (r : Bool × LineBuffer) : Prop where
  unchanged : r.1 = false → r.2 = b
  cursor : r.2.cursor ≤ r.2.chars.length
  chars : ∀ c ∈ r.2.chars, c ∈ b.chars

namespace LineBuffer

variable {b : LineBuffer} (hb : b.cursor ≤ b.chars.length)
include hb

/-- Inserting makes the line longer by one. -/
theorem length_insert (c : Char) : (b.insert c).chars.length = b.chars.length + 1 :=
  List.length_insertIdx_of_le_length hb c

/-- Deleting to the left, where it changes anything, makes the line shorter by one. -/
theorem length_deleteLeft (hchanged : b.deleteLeft.1 = true) :
    b.deleteLeft.2.chars.length + 1 = b.chars.length := by
  unfold deleteLeft at hchanged ⊢
  split at hchanged
  · cases hchanged
  · rename_i hcursor
    rw [if_neg hcursor, List.length_eraseIdx_of_lt (by omega)]
    omega

omit hb in
/-- Deleting to the right, where it changes anything, makes the line shorter by one. -/
theorem length_deleteRight (hchanged : b.deleteRight.1 = true) :
    b.deleteRight.2.chars.length + 1 = b.chars.length := by
  unfold deleteRight at hchanged ⊢
  split at hchanged
  · cases hchanged
  · rename_i hcursor
    rw [if_neg hcursor, List.length_eraseIdx_of_lt (by omega)]
    omega

theorem deleteLeft_handles : b.Handles b.deleteLeft := by
  unfold deleteLeft
  split
  · exact ⟨fun _ => rfl, hb, fun _ => id⟩
  · refine ⟨nofun, ?_, fun c => List.mem_of_mem_eraseIdx⟩
    rw [List.length_eraseIdx_of_lt (by omega)]
    exact Nat.sub_le_sub_right hb 1

theorem deleteRight_handles : b.Handles b.deleteRight := by
  unfold deleteRight
  split
  · exact ⟨fun _ => rfl, hb, fun _ => id⟩
  · refine ⟨nofun, ?_, fun c => List.mem_of_mem_eraseIdx⟩
    rw [List.length_eraseIdx_of_lt (by omega)]
    dsimp only
    omega

theorem left_handles : b.Handles b.left := by
  refine ⟨fun hmoved => ?_, Nat.le_trans (Nat.sub_le _ _) hb, fun _ => id⟩
  have hzero : b.cursor = 0 := by simpa [left] using hmoved
  obtain ⟨chars, cursor⟩ := b
  subst hzero
  rfl

theorem right_handles : b.Handles b.right := by
  unfold right
  split
  · rename_i hcursor
    exact ⟨nofun, hcursor, fun _ => id⟩
  · exact ⟨fun _ => rfl, hb, fun _ => id⟩

omit hb in
theorem home_handles : b.Handles b.home := by
  refine ⟨fun hmoved => ?_, Nat.zero_le _, fun _ => id⟩
  have hzero : b.cursor = 0 := by simpa [home] using hmoved
  rw [home, ← hzero]

omit hb in
theorem finish_handles : b.Handles b.finish := by
  refine ⟨fun hmoved => ?_, Nat.le_refl _, fun _ => id⟩
  have hend : b.cursor = b.chars.length := by simpa [finish] using hmoved
  rw [finish, ← hend]

theorem kill_handles : b.Handles b.kill := by
  refine ⟨fun hkept => ?_, Nat.le_refl _, fun _ hc => absurd hc List.not_mem_nil⟩
  have hempty : b.chars = [] := by simpa [kill] using hkept
  -- In an empty line the cursor is at the start.
  rw [hempty] at hb
  obtain ⟨chars, cursor⟩ := b
  cases hempty
  cases Nat.le_zero.1 hb
  rfl

end LineBuffer

/-- The cursor is in the line, and all characters that may be shown satisfy `P`: those of the line
and those of the stash. -/
structure Editing.Keeps (P : Char → Prop) (e : Editing) : Prop where
  cursor : e.line.cursor ≤ e.line.chars.length
  line : ∀ c ∈ e.line.chars, P c
  stash : ∀ c ∈ e.past.stash.toList, P c

namespace Editing

variable {P : Char → Prop} {h : History} {e e' : Editing} {changed : Bool}

/-- Before anything is typed. -/
theorem keeps_start : ({} : Editing).Keeps P where
  cursor := Nat.le_refl _
  line _ hc := absurd hc List.not_mem_nil
  stash _ hc := absurd hc List.not_mem_nil

/-- An operation on the line. -/
theorem Keeps.withLine (he : e.Keeps P) {r : Bool × LineBuffer} (hr : e.line.Handles r)
    (hedit : e.withLine r = .edit changed e') :
    e'.Keeps P ∧ (changed = false → e'.line = e.line) := by
  cases hedit
  exact ⟨⟨hr.cursor, fun c hc => he.line c (hr.chars c hc), he.stash⟩, hr.unchanged⟩

/-- A text is put in place of the line. -/
theorem Keeps.replaced {text : String} {past : Recall} (htext : ∀ c ∈ text.toList, P c)
    (hstash : ∀ c ∈ past.stash.toList, P c) : (⟨.ofText text, past⟩ : Editing).Keeps P where
  cursor := Nat.le_refl _
  line := htext
  stash := hstash

end Editing

/-- What holds of all characters in the history holds of those of each entry that is shown. -/
theorem History.get_chars {P : Char → Prop} {h : History}
    (hh : ∀ entry ∈ h.entries, ∀ c ∈ entry.toList, P c) (i : Nat) :
    ∀ c ∈ (h.get i).toList, P c := by
  intro c hc
  rw [History.get, List.getD_eq_getElem?_getD] at hc
  cases hi : h.entries[i]? with
  | none =>
    rw [hi] at hc
    exact absurd hc List.not_mem_nil
  | some entry =>
    rw [hi] at hc
    exact hh entry (List.mem_of_getElem? hi) c hc

namespace Editing

variable {P : Char → Prop} {h : History} {e e' : Editing} {changed : Bool}

section Walk

variable (hh : ∀ entry ∈ h.entries, ∀ c ∈ entry.toList, P c)
include hh

/-- A step back in the history. The line that was being typed goes to the stash. -/
theorem Keeps.older (he : e.Keeps P)
    (hedit : KeyStep.recalled (e.past.older h e.line) = .edit changed e') :
    e'.Keeps P ∧ (changed = false → e'.line = e.line) := by
  unfold Recall.older at hedit
  split at hedit
  · split at hedit
    · cases hedit
      exact ⟨he, fun _ => rfl⟩
    · cases hedit
      refine ⟨.replaced (h.get_chars hh _) ?_, nofun⟩
      rw [LineBuffer.text, String.toList_ofList]
      exact he.line
  · cases hedit
    exact ⟨he, fun _ => rfl⟩
  · cases hedit
    exact ⟨.replaced (h.get_chars hh _) he.stash, nofun⟩

/-- A step forward in the history, or out of it. -/
theorem Keeps.newer (he : e.Keeps P)
    (hedit : KeyStep.recalled (e.past.newer h e.line) = .edit changed e') :
    e'.Keeps P ∧ (changed = false → e'.line = e.line) := by
  unfold Recall.newer at hedit
  split at hedit
  · cases hedit
    exact ⟨he, fun _ => rfl⟩
  · split at hedit
    · cases hedit
      exact ⟨.replaced (h.get_chars hh _) he.stash, nofun⟩
    · cases hedit
      exact ⟨.replaced he.stash he.stash, nofun⟩

/-- A key that the editing goes on after keeps the cursor in the line and brings no character but
its own, and if it reports no change, it has not changed the line. -/
theorem press_edit {k : Key} (he : e.Keeps P) (hk : ∀ c, k = .char c → P c)
    (hedit : e.press h k = .edit changed e') :
    e'.Keeps P ∧ (changed = false → e'.line = e.line) := by
  cases k with
  | enter => cases hedit
  | cancel => cases hedit
  | delete =>
    rw [press] at hedit
    split at hedit
    · cases hedit
    · exact he.withLine (LineBuffer.deleteRight_handles he.cursor) hedit
  | backspace => exact he.withLine (LineBuffer.deleteLeft_handles he.cursor) hedit
  | left => exact he.withLine (LineBuffer.left_handles he.cursor) hedit
  | right => exact he.withLine (LineBuffer.right_handles he.cursor) hedit
  | home => exact he.withLine LineBuffer.home_handles hedit
  | finish => exact he.withLine LineBuffer.finish_handles hedit
  | kill => exact he.withLine (LineBuffer.kill_handles he.cursor) hedit
  | up => exact he.older hh hedit
  | down => exact he.newer hh hedit
  | char c =>
    cases hedit
    refine ⟨⟨?_, fun d hd => ?_, he.stash⟩, nofun⟩
    · rw [LineBuffer.length_insert he.cursor]
      exact Nat.succ_le_succ he.cursor
    · rcases (List.mem_insertIdx he.cursor).1 hd with rfl | hd
      · exact hk d rfl
      · exact he.line d hd
  | other =>
    cases hedit
    exact ⟨he, fun _ => rfl⟩

end Walk

end Editing

end CalcShell.Line
