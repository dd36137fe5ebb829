import CalcShell.Proofs.Session.Abreast
import CalcShell.Proofs.Session.Delivery
import CalcShell.Proofs.Session.Termination

/-!
# Presentation and control

How a session presents itself has no influence on what it does. The main statement compares two runs
from one world, over a script, whose sessions differ in nothing but hooks, prompts and the printing
of outcomes: they come to the same, and what happens in them is the same but for the texts shown.

What a run writes with the standard hooks consists of passages: single pieces, and the banners for
the begin and the end of a session, each right before the session notes that it begins or ends
(`Laid`). Without the hooks just the pieces are written. The banners are nested: each one for an end
is that of the session whose banner for the begin was written last among those still open
(`Passage.announce`).
-/

namespace CalcShell

variable {H : Host}

/-- The events of moments that see the same. -/
theorem map_event_moments (es : List (Event H)) (view : Snapshot) (host : H.State) :
    (es.map (⟨·, view, host⟩)).map Moment.event = es := by
  rw [List.map_map]
  exact List.map_id es

/-! ## What happens apart from the texts -/

/-- A moment without the text that is shown, if there is more to it. -/
def Moment.faceless? (m : Moment H) : Option (Moment H) :=
  match m.event with
  | .wrote _ => none
  | .prompted input _ => some { m with event := .prompted input "" }
  | _ => some m

/-- What happens, without the texts that are shown. -/
def faceless (ms : List (Moment H)) : List (Moment H) := ms.filterMap Moment.faceless?

/-- The units that are evaluated, with the open sessions. -/
def unitsInPlace (ms : List (Moment H)) :
    List ((SessionId × H.Context × String) × List Frame) :=
  ms.filterMap fun m => m.event.unit?.map (·, m.view.stack)

/-- Writing is nothing but text. -/
theorem faceless_events (writing : Writing) (view : Snapshot) (host : H.State) :
    faceless (writing.events.map (⟨·, view, host⟩)) = [] := by
  simp [faceless, Writing.events, Moment.faceless?]

theorem faceless_append (ms ns : List (Moment H)) :
    faceless (ms ++ ns) = faceless ms ++ faceless ns :=
  List.filterMap_append

theorem Occasion.faceless_eq {c c' : Config H} {es es' : List (Event H)} (h : Occasion c c' es es')
    (view : Snapshot) (host : H.State) :
    faceless (es.map (⟨·, view, host⟩)) = faceless (es'.map (⟨·, view, host⟩)) := by
  have hwritten : ∀ (e : Event H) (writing : Writing) (rest : List (Event H)),
      faceless ((e :: (writing.events ++ rest)).map (⟨·, view, host⟩)) =
        faceless [⟨e, view, host⟩] ++ faceless (rest.map (⟨·, view, host⟩)) := by
    intro e writing rest
    rw [List.map_cons, List.map_append, ← List.singleton_append, faceless_append,
      faceless_append, faceless_events, List.nil_append]
  cases h with
  | same he => rfl
  | prompted input prompt prompt' => rfl
  | printed id outcome =>
    have h₁ := hwritten (.printed id outcome) (c.print outcome).flushed []
    have h₂ := hwritten (.printed id outcome) (c'.print outcome).flushed []
    rw [List.append_nil] at h₁ h₂
    rw [h₁, h₂]
  | turned _ => rw [Turn.events, Turn.events, hwritten, hwritten]

/-- What happens on the same occasions is the same but for the texts shown. -/
theorem Occasions.faceless_eq {c c' : Config H} {ms ms' : List (Moment H)}
    (h : Occasions c c' ms ms') : faceless ms = faceless ms' := by
  induction h with
  | nil => rfl
  | cons view host ho _ ih => rw [faceless_append, faceless_append, ho.faceless_eq, ih]

/-- What is read off the moments regardless of the texts shown. -/
theorem filterMap_faceless {β : Type} {f : Moment H → Option β}
    (hf : ∀ m, m.faceless?.bind f = f m) (ms : List (Moment H)) :
    (faceless ms).filterMap f = ms.filterMap f := by
  rw [faceless, List.filterMap_filterMap]
  congr 1
  funext m
  exact hf m

theorem linesRead_faceless (ms : List (Moment H)) : linesRead (faceless ms) = linesRead ms := by
  refine filterMap_faceless (fun m => ?_) ms
  obtain ⟨ev, view, host⟩ := m
  cases ev <;> rfl

theorem unitsInPlace_faceless (ms : List (Moment H)) :
    unitsInPlace (faceless ms) = unitsInPlace ms := by
  refine filterMap_faceless (fun m => ?_) ms
  obtain ⟨ev, view, host⟩ := m
  cases ev <;> rfl

theorem promptsShown_faceless (ms : List (Moment H)) :
    promptsShown (faceless ms) = promptsShown ms := by
  rw [promptsShown, faceless, List.countP_filterMap, promptsShown]
  congr 1
  funext m
  obtain ⟨ev, view, host⟩ := m
  cases ev <;> rfl

/-! ## The passages of the output -/

/-- The banner for the begin or the end of a session. -/
def Turn.banner (turn : Turn) : Writing :=
  match turn with
  | .beginning a => (Writing.line ["Beginning session for ", a.receiver.inspect]).flushed
  | .ending a => (Writing.line ["Ending session for ", a.receiver.inspect]).flushed

/-- A part of the output: a piece of text, or a banner. -/
inductive Passage where
  | plain (piece : Piece)
  | banner (turn : Turn)

namespace Passage

/-- The text of a passage. -/
def text : Passage → String
  | .plain piece => piece.shown
  | .banner turn => turn.banner.text

/-- The text of passages in order. -/
def textOf (ps : List Passage) : String := String.join (ps.map text)

theorem textOf_append (ps qs : List Passage) : textOf (ps ++ qs) = textOf ps ++ textOf qs := by
  rw [textOf, List.map_append, String.join_append, textOf, textOf]

/-- Whether a passage is no banner. -/
def isPlain : Passage → Bool
  | .plain _ => true
  | .banner _ => false

/-- The sessions with a banner for the begin and none for the end, innermost first, after one more
passage. A banner for an end must be that of the innermost one. If it `skips`, those inside of the
session that it is about may be without one, as they are if an interrupt ended them and was caught.
-/
def announce (skips : Bool) (opened : List Activation) : Passage → Option (List Activation)
  | .plain _ => some opened
  | .banner (.beginning a) => some (a :: opened)
  | .banner (.ending a) =>
    match opened.dropWhile fun b => skips && decide (b ≠ a) with
    | b :: outer => if b = a then some outer else none
    | [] => none

variable {skips : Bool}

/-- Sessions around those that a passage is about do not matter. -/
theorem announce_append {opened opened' : List Activation} {p : Passage}
    (h : announce skips opened p = some opened') (outer : List Activation) :
    announce skips (opened ++ outer) p = some (opened' ++ outer) := by
  cases p with
  | plain piece =>
    obtain rfl := Option.some.inj h
    rfl
  | banner turn =>
    cases turn with
    | beginning a =>
      obtain rfl := Option.some.inj h
      rfl
    | ending a =>
      simp only [announce, List.dropWhile_append] at h ⊢
      cases hleft : opened.dropWhile fun b => skips && decide (b ≠ a) with
      | nil =>
        rw [hleft] at h
        cases h
      | cons b bs =>
        simp only [hleft, Option.ite_none_right_eq_some, Option.some.injEq] at h
        obtain ⟨rfl, rfl⟩ := h
        simp

/-- A banner for the end of the innermost session is always in place. -/
theorem announce_ending (a : Activation) (outer : List Activation) :
    announce skips (a :: outer) (.banner (.ending a)) = some outer := by
  simp [announce]

/-- A banner that skips may be for the end of any session that is open. -/
theorem announce_ending_of_mem {a : Activation} {opened : List Activation} (h : a ∈ opened) :
    ∃ opened', announce true opened (.banner (.ending a)) = some opened' := by
  induction opened with
  | nil => cases h
  | cons b bs ih =>
    by_cases hb : b = a
    · exact ⟨bs, hb ▸ announce_ending b bs⟩
    · obtain ⟨opened', hbs⟩ := ih ((List.mem_cons.1 h).resolve_left (Ne.symm hb))
      refine ⟨opened', ?_⟩
      rw [← hbs]
      simp [announce, hb]

/-- What is no banner leaves things as they are. -/
theorem foldlM_announce_plain {ps : List Passage} (h : ∀ p ∈ ps, p.isPlain = true)
    (opened : List Activation) : ps.foldlM (announce skips) opened = some opened := by
  induction ps with
  | nil => rfl
  | cons p ps ih =>
    have hp : announce skips opened p = some opened := by
      cases p with
      | plain piece => rfl
      | banner turn => cases h _ List.mem_cons_self
    rw [List.foldlM_cons, hp]
    exact ih fun q hq => h q (List.mem_cons_of_mem p hq)

theorem foldlM_announce_append {opened opened' : List Activation} {ps : List Passage}
    (h : ps.foldlM (announce skips) opened = some opened') (outer : List Activation) :
    ps.foldlM (announce skips) (opened ++ outer) = some (opened' ++ outer) := by
  induction ps generalizing opened with
  | nil =>
    obtain rfl := Option.some.inj h
    rfl
  | cons p ps ih =>
    rw [List.foldlM_cons] at h ⊢
    obtain ⟨next, hp, hps⟩ := Option.bind_eq_some_iff.1 h
    rw [announce_append hp outer]
    exact ih hps

end Passage

/-- The text that events add to the output. -/
def outputOf (es : List (Event H)) : String := String.join (es.map Event.output)

theorem outputOf_append (es es' : List (Event H)) :
    outputOf (es ++ es') = outputOf es ++ outputOf es' := by
  rw [outputOf, List.map_append, String.join_append, outputOf, outputOf]

/-- What an event that is about no begin or end of a session adds to the output. -/
def Event.passages : Event H → List Passage
  | .wrote piece => [.plain piece]
  | _ => []

/-- The events are those by which the passages are written. A banner is what a hook writes, right
before the session notes that it begins or ends, and this is not noted without its banner. -/
inductive Laid : List (Event H) → List Passage → Prop where
  | nil : Laid [] []
  | event {e : Event H} {es : List (Event H)} {ps : List Passage} :
      e.isStaged = false → Laid es ps → Laid (e :: es) (e.passages ++ ps)
  | banner {turn : Turn} {e : Event H} {es : List (Event H)} {ps : List Passage} :
      turn.Noted e → Laid es ps → Laid (turn.events turn.banner e ++ es) (.banner turn :: ps)

theorem Event.textOf_passages (e : Event H) : Passage.textOf e.passages = outputOf [e] := by
  cases e <;> rfl

theorem Event.passages_plain (e : Event H) : ∀ p ∈ e.passages, p.isPlain = true := by
  cases e <;> simp [passages, Passage.isPlain]

/-- Writing in full leaves the text in the output. -/
theorem Writing.outputOf_events (writing : Writing) :
    outputOf (writing.events : List (Event H)) = writing.text := by
  obtain ⟨pieces, failure⟩ := writing
  induction pieces with
  | nil => rfl
  | cons p ps ih =>
    simp only [text, List.map_cons, String.join_cons] at ih ⊢
    rw [← ih]
    by_cases hp : p = .text ""
    · simp [outputOf, events, hp, Piece.shown]
    · simp [outputOf, events, hp, Event.output]

/-- When a session begins or ends, what its hook writes is all that is added to the output. -/
theorem Turn.outputOf_events {turn : Turn} {e : Event H} (h : turn.Noted e) (writing : Writing) :
    outputOf (turn.events writing e) = writing.text := by
  have hfired : outputOf [(.fired turn.hook [turn.session.receiver] : Event H)] = "" := rfl
  have he : outputOf [e] = "" := by
    cases h <;> rfl
  rw [events, ← List.singleton_append, outputOf_append, outputOf_append, hfired, he,
    Writing.outputOf_events, String.append_empty, String.empty_append]

/-- What is noted tells which session it is about, up to its receiver. -/
theorem Turn.Noted.inj {turn turn' : Turn} {e e' : Event H} (h : turn.Noted e)
    (h' : turn'.Noted e') (he : e = e')
    (hreceiver : turn.session.receiver = turn'.session.receiver) : turn = turn' := by
  cases h with
  | started a =>
    cases h' with
    | started a' =>
      obtain ⟨id, depth, receiver⟩ := a
      obtain ⟨id', depth', receiver'⟩ := a'
      cases he
      rfl
    | ended | propagated => cases he
  | ended a =>
    cases h' with
    | ended a' =>
      obtain ⟨id, depth, receiver⟩ := a
      obtain ⟨id', depth', receiver'⟩ := a'
      cases he
      cases hreceiver
      rfl
    | started | propagated => cases he
  | propagated a level =>
    cases h' with
    | propagated a' level' =>
      obtain ⟨id, depth, receiver⟩ := a
      obtain ⟨id', depth', receiver'⟩ := a'
      cases he
      cases hreceiver
      rfl
    | started | ended => cases he

/-- The event behind a banner tells whose banner it is, and where it ends. -/
theorem Turn.events_inj {turn turn' : Turn} {e e' : Event H} {es es' : List (Event H)}
    (h : turn.Noted e) (h' : turn'.Noted e')
    (hes : turn.events turn.banner e ++ es = turn'.events turn'.banner e' ++ es') :
    turn = turn' ∧ es = es' := by
  rw [events, events, List.cons_append, List.cons_append] at hes
  obtain ⟨hfired, hrest⟩ := List.cons.inj hes
  obtain ⟨hhook, hreceiver⟩ := Event.fired.inj hfired
  -- The two banners have the same text, so that they end at the same place.
  have hbanner : turn.banner = turn'.banner := by
    cases turn <;> cases turn' <;> simp_all [banner, hook, session, beforeSession, afterSession]
  rw [hbanner, List.append_assoc, List.append_assoc] at hrest
  obtain ⟨he, rfl⟩ := List.cons.inj (List.append_cancel_left hrest)
  exact ⟨h.inj h' he (List.singleton_inj.1 hreceiver), rfl⟩

namespace Laid

variable {es es' : List (Event H)} {ps ps' : List Passage}

theorem append (h : Laid es ps) (h' : Laid es' ps') : Laid (es ++ es') (ps ++ ps') := by
  induction h with
  | nil => exact h'
  | event he _ ih =>
    rw [List.append_assoc]
    exact .event he ih
  | banner hturn _ ih =>
    rw [List.append_assoc]
    exact .banner hturn ih

/-- Events none of which is about the begin or the end of a session write no banner. -/
theorem of_unstaged (h : ∀ e ∈ es, e.isStaged = false) :
    ∃ ps, Laid es ps ∧ ∀ p ∈ ps, p.isPlain = true := by
  induction es with
  | nil => exact ⟨[], .nil, by simp⟩
  | cons e es ih =>
    obtain ⟨ps, hps, hplain⟩ := ih fun x hx => h x (List.mem_cons_of_mem e hx)
    refine ⟨_, .event (h e List.mem_cons_self) hps, fun p hp => ?_⟩
    rcases List.mem_append.1 hp with hp | hp
    · exact e.passages_plain p hp
    · exact hplain p hp

/-- The output is the text of the passages. -/
theorem outputOf_eq (h : Laid es ps) : outputOf es = Passage.textOf ps := by
  induction h with
  | nil => rfl
  | @event e es ps _ _ ih =>
    rw [← List.singleton_append, outputOf_append, ih, Passage.textOf_append, e.textOf_passages]
  | banner hturn _ ih =>
    rw [outputOf_append, Turn.outputOf_events hturn, ih, Passage.textOf, Passage.textOf,
      List.map_cons, String.join_cons]
    rfl

/-- The events tell what the passages are. -/
theorem unique (h : Laid es ps) (h' : Laid es ps') : ps = ps' := by
  induction h generalizing ps' with
  | nil =>
    generalize hes : ([] : List (Event H)) = es at h'
    cases h' with
    | nil => rfl
    | event => cases hes
    | banner => cases hes
  | event he _ ih =>
    generalize hes : _ :: _ = es at h'
    cases h' with
    | nil => cases hes
    | event _ hps =>
      obtain ⟨rfl, rfl⟩ := List.cons.inj hes
      rw [ih hps]
    | banner =>
      obtain ⟨rfl, -⟩ := List.cons.inj hes
      cases he
  | banner hturn _ ih =>
    generalize hes : Turn.events _ _ _ ++ _ = es at h'
    cases h' with
    | nil => cases hes
    | event he =>
      obtain ⟨rfl, -⟩ := List.cons.inj hes
      cases he
    | banner hturn' hps =>
      obtain ⟨rfl, rfl⟩ := Turn.events_inj hturn hturn' hes
      rw [ih hps]

end Laid

/-- The standard hooks write the banners. -/
theorem Hooks.standard_writing (turn : Turn) :
    Hooks.standard.writing turn.hook [turn.session.receiver] = turn.banner := by
  cases turn <;> rfl

/-- On one occasion, a session without hooks writes what one with the standard hooks does apart from
banners. -/
theorem Occasion.laid {c c' : Config H} {es es' : List (Event H)} (h : Occasion c c' es es')
    (hhooks : c.hooks = []) (hhooks' : c'.hooks = .standard) (hprint : c'.print = c.print) :
    ∃ ps, Laid es' ps ∧ outputOf es = Passage.textOf (ps.filter Passage.isPlain) := by
  have hunstaged : (∀ e ∈ es', e.isStaged = false) → outputOf es = outputOf es' →
      ∃ ps, Laid es' ps ∧ outputOf es = Passage.textOf (ps.filter Passage.isPlain) := by
    intro hes' hsame
    obtain ⟨ps, hlaid, hplain⟩ := Laid.of_unstaged hes'
    refine ⟨ps, hlaid, ?_⟩
    rw [List.filter_eq_self.2 hplain, hsame, hlaid.outputOf_eq]
  cases h with
  | same he => exact hunstaged (by simpa using he) rfl
  | prompted input prompt prompt' => exact hunstaged (by simp [Event.isStaged]) rfl
  | printed id outcome =>
    refine hunstaged (fun e he => ?_) (by rw [hprint])
    rcases List.mem_cons.1 he with rfl | he
    · rfl
    · exact Writing.events_unstaged _ e he
  | @turned turn e hturn =>
    refine ⟨[.banner turn], ?_, ?_⟩
    · rw [hhooks', Hooks.standard_writing, ← List.append_nil (turn.events _ _)]
      exact .banner hturn .nil
    · rw [Turn.outputOf_events hturn, hhooks]
      rfl

/-- A run without hooks writes what one with the standard hooks does apart from banners. -/
theorem Occasions.laid {c c' : Config H} {ms ms' : List (Moment H)} (h : Occasions c c' ms ms')
    (hhooks : c.hooks = []) (hhooks' : c'.hooks = .standard) (hprint : c'.print = c.print) :
    ∃ ps, Laid (ms'.map Moment.event) ps ∧
      outputOf (ms.map Moment.event) = Passage.textOf (ps.filter Passage.isPlain) := by
  induction h with
  | nil => exact ⟨[], .nil, rfl⟩
  | cons view host ho _ ih =>
    obtain ⟨ps, hps, htext⟩ := ih
    obtain ⟨qs, hqs, htext'⟩ := ho.laid hhooks hhooks' hprint
    refine ⟨qs ++ ps, ?_, ?_⟩
    · rw [List.map_append, map_event_moments]
      exact hqs.append hps
    · rw [List.map_append, map_event_moments, outputOf_append, htext, htext', List.filter_append,
        Passage.textOf_append]

/-! ## The nesting of banners -/

/-- Things went well, or unwinding began. -/
def Orderly (e : Option Stop) : Prop := e = none ∨ ∃ level, e = some (.interrupt (.breakout level))

/-- Between the two worlds the passages are written to a sink that takes everything. -/
structure Lays (w : World H) (ps : List Passage) (w' : World H) : Prop where
  follows : w'.Follows w
  accepts : w'.Accepts
  laid : Laid ((w'.since w).map Moment.event) ps

namespace Lays

variable {w w₁ w' : World H} {ps qs : List Passage}

theorem trans (h₁ : Lays w ps w₁) (h₂ : Lays w₁ qs w') : Lays w (ps ++ qs) w' where
  follows := h₂.follows.trans h₁.follows
  accepts := h₂.accepts
  laid := by
    rw [World.since_trans h₂.follows h₁.follows, List.map_append]
    exact h₁.laid.append h₂.laid

theorem of_log {ms : List (Moment H)} (hw : w.Accepts) (hrefuses : w'.sink.refuses = w.sink.refuses)
    (hlog : w'.log.toList = w.log.toList ++ ms) (hms : Laid (ms.map Moment.event) ps) :
    Lays w ps w' where
  follows := ⟨ms, hlog.symm⟩
  accepts := by
    rw [World.Accepts, hrefuses]
    exact hw
  laid := by
    rw [World.since_eq hlog]
    exact hms

/-- Behind the passages there is one more event, which is nothing to the output. -/
theorem then_silent (h : Lays w ps w₁) (hrefuses : w'.sink.refuses = w₁.sink.refuses) {m : Moment H}
    (hlog : w'.log.toList = w₁.log.toList ++ [m]) (hstaged : m.event.isStaged = false)
    (hsilent : m.event.passages = []) : Lays w ps w' := by
  have hlaid : Laid [m.event] (m.event.passages ++ []) := .event hstaged .nil
  rw [hsilent] at hlaid
  rw [← List.append_nil ps]
  exact h.trans (of_log h.accepts hrefuses hlog hlaid)

/-- The standard hook writes its banner, and behind that it is noted what it was called for. -/
theorem fire {s : Session H} (hs : s.config.hooks = .standard) (turn : Turn) (hw : w.Accepts) :
    ∃ w₁, s.fire turn.hook [turn.session.receiver] w = (.ok (), w₁) ∧ w₁.view = w.view ∧
      ∀ e, turn.Noted e → Lays w [.banner turn] (w₁.record e) := by
  have hwriting : s.config.hooks.writing turn.hook [turn.session.receiver] = turn.banner := by
    rw [hs, Hooks.standard_writing]
  have hfail : (s.config.hooks.writing turn.hook [turn.session.receiver]).failure = none := by
    rw [hwriting]
    cases turn <;> rfl
  obtain ⟨sink, log, hfire, hrefuses, hlog⟩ := Session.fire_of_accepts hfail hw
  refine ⟨_, hfire, rfl, fun e he => of_log hw hrefuses (hlog e) ?_⟩
  have hevents : ((turn.events turn.banner e).map w.moment).map Moment.event =
      turn.events turn.banner e ++ [] := by
    rw [List.append_nil]
    exact map_event_moments _ w.view w.host
  rw [hwriting, hevents]
  exact .banner he .nil

end Lays

/-- What is written to a sink that takes everything are passages whose banners are nested. Where no
banner may be skipped, none of them stays open unless things end by an interrupt that no session
catches, or for lack of rounds. -/
def Announces (skips : Bool) : Conduct H := fun w e w' => w.Accepts →
  ∃ ps opened, Lays w ps w' ∧ ps.foldlM (Passage.announce skips) [] = some opened ∧
    (skips = false → Orderly e → opened = [])

namespace Announces

variable {skips : Bool} {w w₁ w' : World H} {e : Option Stop}

theorem trans (h₁ : Announces skips w none w₁) (h₂ : Announces skips w₁ e w') :
    Announces skips w e w' := by
  intro hw
  obtain ⟨ps, opened₁, hps, hopened₁, horderly₁⟩ := h₁ hw
  obtain ⟨qs, opened, hqs, hopened, horderly⟩ := h₂ hps.accepts
  refine ⟨ps ++ qs, opened ++ opened₁, hps.trans hqs, ?_, fun hskips he => ?_⟩
  · rw [List.foldlM_append, hopened₁]
    exact Passage.foldlM_announce_append hopened opened₁
  · rw [horderly hskips he, horderly₁ hskips (.inl rfl), List.append_nil]

/-- Whatever is caught, no more than skipping banners comes of it. -/
theorem catches : Conduct.Catches (Announces (H := H) true) := by
  intro w i w' h hw
  obtain ⟨ps, opened, hps, hopened, -⟩ := h hw
  exact ⟨ps, opened, hps, hopened, nofun⟩

/-- The log goes on with events that are about no begin or end of a session. -/
theorem of_log {ms : List (Moment H)} (hlog : w'.log.toList = w.log.toList ++ ms)
    (hms : ∀ m ∈ ms, m.event.isStaged = false) (hrefuses : w'.sink.refuses = w.sink.refuses) :
    Announces skips w e w' := by
  intro hw
  have hevents : ∀ ev ∈ ms.map Moment.event, ev.isStaged = false := by
    intro ev hev
    obtain ⟨m, hm, rfl⟩ := List.mem_map.1 hev
    exact hms m hm
  obtain ⟨ps, hlaid, hplain⟩ := Laid.of_unstaged hevents
  exact ⟨ps, [], .of_log hw hrefuses hlog hlaid, Passage.foldlM_announce_plain hplain [],
    fun _ _ => rfl⟩

theorem of_log_eq (hlog : w'.log = w.log) (hrefuses : w'.sink.refuses = w.sink.refuses) :
    Announces skips w e w' := by
  have hlog' : w'.log.toList = w.log.toList ++ [] := by rw [hlog, List.append_nil]
  exact of_log hlog' (by simp) hrefuses

theorem record {ev : Event H} (hev : ev.isStaged = false) :
    Announces skips w e (w.record ev) :=
  of_log (w.log_record ev) (by simpa using hev) rfl

/-- What a session does on the stack is about no begin or end of a session. -/
theorem works : Conduct.Works (Announces (H := H) skips) where
  refl _ := of_log_eq rfl rfl
  trans h₁ h₂ := h₁.trans h₂
  spent _ := of_log_eq rfl rfl
  raise _ _ := record rfl
  wrote w piece sink hsink :=
    of_log (World.log_record _ _) (by simp [Event.isStaged]) (Sink.take_refuses hsink)
  host _ _ := of_log_eq rfl rfl
  printed _ _ _ := record rfl
  consulting _ _ _ _ := record rfl
  last _ _ := of_log_eq rfl rfl
  inputs _ _ := of_log_eq rfl rfl
  reading _ ev hev := record (by cases ev <;> first | rfl | cases hev)
  work _ ev hev := record (by cases ev <;> first | rfl | cases hev)

/-- A session that is left has its banner for the end in place, outside of those that it left open.
-/
theorem ending (opened : List Activation) (a : Activation) (hopened : skips = false → opened = []) :
    ∃ outside, [Passage.banner (.ending a)].foldlM (Passage.announce skips) (opened ++ [a]) =
        some outside ∧ (skips = false → outside = []) := by
  cases skips with
  | false =>
    rw [hopened rfl]
    exact ⟨[], by simp [Passage.announce], fun _ => rfl⟩
  | true =>
    obtain ⟨outside, hending⟩ :=
      Passage.announce_ending_of_mem (List.mem_append_right opened (List.mem_singleton_self a))
    exact ⟨outside, by simp [hending], nofun⟩

variable {s : Session H} (hs : s.config.hooks = .standard)
include hs

/-- A session that unwinding ends has a banner for that. -/
theorem depart (receiver : Value) (depth level : Nat) (hw : w.Accepts) :
    Lays w [.banner (.ending ⟨s.id, depth, receiver⟩)] (s.depart receiver depth level w).2 := by
  obtain ⟨w₁, hfire, -, hnoted⟩ := Lays.fire hs (.ending ⟨s.id, depth, receiver⟩) hw
  have hfire' : s.fire afterSession [receiver] w = (.ok (), w₁) := hfire
  rw [Session.depart, Exec.bind_of_ok hfire']
  by_cases hlevel : level = depth
  · simp only [hlevel, if_pos]
    exact hnoted _ (.ended _)
  · simp only [hlevel, if_neg, not_false_eq_true]
    exact hnoted _ (.propagated _ level)

/-- The banners of a session are nested if those of the sessions are that it opens. -/
theorem runIn {run : Session.Runner H} (hb : (Announces skips).Bears s.config.commands)
    (hn : ∀ t, Exec.Meets (Announces skips) (s.nestVia run t)) (rounds : Nat) (ctx : H.Context) :
    Exec.Meets (Announces skips) (s.runIn run rounds ctx) := by
  intro w hw
  obtain ⟨w₁, hfire, hview, hnoted⟩ :=
    Lays.fire hs (.beginning (s.activation (H.receiver ctx) w)) hw
  have hfire' : s.fire beforeSession [H.receiver ctx] w = (.ok (), w₁) := hfire
  have hdepth : w₁.depth = w.depth := congrArg Snapshot.depth hview
  have hbegun : Lays w [.banner (.beginning (s.activation (H.receiver ctx) w))]
      (s.begun (H.receiver ctx) w₁) := by
    rw [Session.begun, hdepth]
    exact (hnoted _ (.started _)).then_silent rfl (World.log_record _ _) rfl rfl
  have hbody := works.body_meets (works.step_meets hb hn rounds ctx) _ hbegun.accepts
  have hcaught := Session.body_caught run rounds s ctx (s.begun (H.receiver ctx) w₁)
  rw [Session.runIn_of_fire hfire', hdepth]
  generalize s.body run rounds ctx (s.begun (H.receiver ctx) w₁) = x at hbody hcaught ⊢
  obtain ⟨x, w₂⟩ := x
  obtain ⟨ps, opened, hps, hopened, horderly⟩ := hbody
  have hinside : Lays w (.banner (.beginning (s.activation (H.receiver ctx) w)) :: ps)
      (w₂.leave w₁.active w.depth) :=
    (hbegun.trans hps).then_silent rfl (w₂.leave_log _ _) rfl rfl
  -- The banner for the begin is open all the while.
  have hfold : (Passage.banner (.beginning (s.activation (H.receiver ctx) w)) :: ps).foldlM
      (Passage.announce skips) [] = some (opened ++ [s.activation (H.receiver ctx) w]) :=
    Passage.foldlM_announce_append hopened [s.activation (H.receiver ctx) w]
  cases x with
  | error stop =>
    cases stop with
    | interrupt i =>
      refine ⟨_, _, hinside.then_silent rfl (World.log_record _ _) rfl rfl, hfold, ?_⟩
      rintro - (hnone | ⟨level, hlevel⟩)
      · cases hnone
      · cases hlevel
        exact absurd rfl (hcaught level)
    | spent =>
      refine ⟨_, _, hinside, hfold, ?_⟩
      rintro - (hnone | ⟨level, hlevel⟩)
      · cases hnone
      · cases hlevel
  | ok level =>
    have hdepart := depart hs (H.receiver ctx) w.depth level hinside.accepts
    obtain ⟨outside, hending, hnone⟩ :=
      ending opened (s.activation (H.receiver ctx) w) fun hskips =>
        horderly hskips (.inr ⟨level, rfl⟩)
    refine ⟨_, outside, hinside.trans hdepart, ?_, fun hskips _ => hnone hskips⟩
    rw [List.foldlM_append, hfold]
    exact hending

omit hs in
/-- The banners of every run are nested. -/
theorem run {c : Config H} (hc : c.hooks = .standard) (hb : (Announces skips).Bears c.commands)
    (rounds : Nat) (id : SessionId) (t : Target H.Context) :
    Exec.Meets (Announces skips) (Session.run rounds ⟨id, c⟩ t) := by
  -- By induction on the rounds: the sessions opened inside have fewer of them.
  induction rounds generalizing id t with
  | zero => exact works.spent
  | succ rounds ih =>
    intro w
    have hn : ∀ t, Exec.Meets (Announces skips)
        (Session.nestVia (Session.run rounds) ⟨id, c⟩ t) := by
      intro t w
      have hid : Announces skips w none { w with nextId := w.nextId + 1 } := of_log_eq rfl rfl
      exact hid.trans (ih w.nextId t { w with nextId := w.nextId + 1 })
    rw [Session.run_succ]
    exact (works.host w _).trans (runIn (s := ⟨id, c⟩) hc hb hn rounds _ _)

end Announces

/-! ## Presentation has no influence -/

/-- An event adds its text to the sink. -/
theorem Devices.text_after (c : Config H) (d : Devices) (e : Event H) :
    (d.after c e).sink.text = d.sink.text ++ e.output := by
  cases e with
  | wrote piece => simp [after, Sink.text, Event.output, String.join_append]
  | prompted input prompt =>
    simp only [after, Event.output, String.append_empty]
    split
    · rfl
    · split <;> rfl
  | lineRead line =>
    simp only [after, Event.output, String.append_empty]
    split <;> rfl
  | _ => exact String.append_empty.symm

/-- What happens adds its text to the sink. -/
theorem Devices.text_through (c : Config H) (d : Devices) (ms : List (Moment H)) :
    (d.through c ms).sink.text = d.sink.text ++ outputOf (ms.map Moment.event) := by
  induction ms generalizing d with
  | nil => exact String.append_empty.symm
  | cons m ms ih =>
    rw [through, List.foldl_cons]
    rw [show List.foldl _ _ ms = (d.after c m.event).through c ms from rfl, ih, text_after,
      List.map_cons, outputOf, outputOf, List.map_cons, String.join_cons, String.append_assoc]

/-- What is in the sink after a run is what was in it before, and what the run wrote. -/
theorem Session.run_text (rounds : Nat) (s : Session H) (t : Target H.Context) (w : World H) :
    (s.run rounds t w).2.sink.text =
      w.sink.text ++ outputOf (((s.run rounds t w).2.since w).map Moment.event) := by
  have h := Devices.text_through s.config w.devices ((s.run rounds t w).2.since w)
  rwa [← (Delivers.run rounds s t w).devices] at h

/-- The standard hooks do not fail, on whatever occasion they are called. -/
theorem Hooks.standard_failure (name : String) (args : List Value) :
    (Hooks.standard.writing name args).failure = none := by
  simp only [writing, standard, List.lookup]
  cases name == beforeSession with
  | true => rfl
  | false => cases name == afterSession <;> rfl

/-- Parts without hooks and with the standard hooks are alike if outcomes are printed without
failure. -/
theorem Config.alike_hooks {c : Config H} (h : ∀ outcome, (c.print outcome).failure = none) :
    Config.Alike { c with hooks := [] } { c with hooks := .standard } where
  input := rfl
  commands := rfl
  neverFails := ⟨fun _ _ => rfl, h⟩
  neverFails' := ⟨Hooks.standard_failure, h⟩

/-- Two runs over one script are made from one world by sessions that differ in nothing but hooks,
prompts and the printing of outcomes, none of which fails, and the sink takes everything. They come
to the same, with the same last result, state of the host, numbers for sessions, stack and active
session, and leave the same to read. They show as many prompts, read the same lines and evaluate the
same units in the same sessions, and apart from the texts shown all that happens is the same.

What is written with the standard hooks and the same printing are passages in order, and without
hooks just those of them that are no banners. Each banner stands right before its session notes that
it begins or ends. The banners are nested: each one for an end closes the latest one for the begin
of the same session. Unless commands or evaluations catch interrupts, none inside is skipped by
that: each one for an end is that of the session which is then the innermost one with a banner for
its begin only, and none is left open if the run gives a result or goes on unwinding. -/
theorem Session.presentation_inert {H : Host} {c c' : Config H} (h : c.Alike c') (rounds : Nat)
    (id : SessionId) (t : Target H.Context) (w : World H) {script : Line.Scripted}
    (hscript : w.inputs[c.input]? = some (.scripted script)) (hw : w.Accepts) :
    let one := run rounds ⟨id, c⟩ t w
    let other := run rounds ⟨id, c'⟩ t w
    let quiet := run rounds ⟨id, { c with hooks := [] }⟩ t w
    let loud := run rounds ⟨id, { c with hooks := .standard }⟩ t w
    (one.1 = other.1 ∧ one.2.last = other.2.last ∧ one.2.host = other.2.host ∧
      one.2.nextId = other.2.nextId ∧ one.2.stack = other.2.stack ∧
      one.2.active = other.2.active ∧
      one.2.inputs.map Line.Source.faceless = other.2.inputs.map Line.Source.faceless) ∧
    (promptsShown (one.2.since w) = promptsShown (other.2.since w) ∧
      linesRead (one.2.since w) = linesRead (other.2.since w) ∧
      unitsInPlace (one.2.since w) = unitsInPlace (other.2.since w) ∧
      faceless (one.2.since w) = faceless (other.2.since w)) ∧
    ∃ ps, Laid ((loud.2.since w).map Moment.event) ps ∧
      loud.2.sink.text = w.sink.text ++ Passage.textOf ps ∧
      quiet.2.sink.text = w.sink.text ++ Passage.textOf (ps.filter Passage.isPlain) ∧
      (∃ opened, ps.foldlM (Passage.announce true) [] = some opened) ∧
      (H.PassesOn → c.commands.PassesOn →
        ∃ opened, ps.foldlM (Passage.announce false) [] = some opened ∧
          (Orderly (ending loud.1) → opened = [])) := by
  have hstart : Abreast c.input w w := ⟨rfl, rfl, rfl, rfl, ⟨script, hscript⟩, hw, hw⟩
  intro one other quiet loud
  obtain ⟨hresult, honward⟩ := Alongside.run h rounds id t hstart
  have hsame := honward.occasions.faceless_eq
  have habreast := honward.abreast
  refine ⟨⟨hresult, habreast.last, habreast.host, habreast.nextId, habreast.stack, habreast.active,
    habreast.inputs⟩, ⟨?_, ?_, ?_, hsame⟩, ?_⟩
  · rw [← promptsShown_faceless, hsame, promptsShown_faceless]
  · rw [← linesRead_faceless, hsame, linesRead_faceless]
  · rw [← unitsInPlace_faceless, hsame, unitsInPlace_faceless]
  · -- The events of the loud run tell its passages, which are the same from both sides.
    obtain ⟨ps, opened, hlays, hopened, -⟩ :=
      Announces.run (c := { c with hooks := .standard }) rfl (.inl Announces.catches) rounds id t w
        hw
    obtain ⟨-, hhooks⟩ :=
      Alongside.run (Config.alike_hooks h.neverFails.print) rounds id t hstart
    obtain ⟨ps', hlaid, hplain⟩ := hhooks.occasions.laid rfl rfl rfl
    obtain rfl := hlays.laid.unique hlaid
    refine ⟨ps, hlays.laid, ?_, ?_, ⟨opened, hopened⟩, fun hH hcommands => ?_⟩
    · rw [run_text, ← hlays.laid.outputOf_eq]
    · rw [run_text, ← hplain]
    · obtain ⟨ps', opened', hlays', hopened', horderly⟩ :=
        Announces.run (c := { c with hooks := .standard }) rfl (.inr ⟨hH, hcommands⟩) rounds id t w
          hw
      obtain rfl := hlays.laid.unique hlays'.laid
      exact ⟨opened', hopened', horderly rfl⟩

/-- Inside of a session on five, which a command opens, a unit opens a session on seven, where the
user jumps to the top level, so that unwinding ends both. Then there is nothing more to read, and
the banner for the begin of the session at the top level stays open. -/
theorem Session.presentation_inert_nested :
    let queue : List Line.ReadResult :=
      [.ok (.line "cd 5"), .ok (.line "1 +"), .ok (.line "2"), .ok (.line "nest(7)"),
        .ok (.line "jump_to 0"), .ok (.line "3")]
    let w : World Calc.host :=
      { host := .single, nextId := 2, inputs := [.scripted { queue := queue }] }
    let c : Config Calc.host := .standard 0
    let c' : Config Calc.host :=
      { c with print := .tagged, prompts := .tagged,
               hooks := [(afterSession, .announce "left ")] }
    let one := run 12 ⟨1, c⟩ .topLevel w
    let other := run 12 ⟨1, c'⟩ .topLevel w
    c.Alike c' ∧ w.inputs[c.input]? = some (.scripted { queue := queue }) ∧ w.Accepts ∧
      one.1 = other.1 ∧ linesRead (one.2.since w) = linesRead (other.2.since w) ∧
      other.2.sink.text = "V<3>\nleft [7]\nleft [5]\nV<3>\n" ∧
      ∃ ps opened, Laid ((one.2.since w).map Moment.event) ps ∧
        Passage.textOf ps =
          "Beginning session for main\nBeginning session for 5\n=> 3\n" ++
            "Beginning session for 7\nEnding session for 7\nEnding session for 5\n=> 3\n" ∧
        Passage.textOf (ps.filter Passage.isPlain) = "=> 3\n=> 3\n" ∧
        ps.foldlM (Passage.announce false) [] = some opened := by
  intro queue w c c' one other
  have hprint : ∀ outcome, (c.print outcome).failure = none := by
    intro outcome
    cases outcome <;> rfl
  have hprint' : ∀ outcome, (c'.print outcome).failure = none := by
    intro outcome
    cases outcome <;> rfl
  have hhooks' : ∀ name args, (c'.hooks.writing name args).failure = none := by
    intro name args
    simp only [c', Hooks.writing, List.lookup]
    cases name == afterSession <;> rfl
  have h : c.Alike c' := ⟨rfl, rfl, ⟨Hooks.standard_failure, hprint⟩, ⟨hhooks', hprint'⟩⟩
  have hw : w.Accepts := fun _ _ => rfl
  obtain ⟨⟨hresult, -⟩, ⟨-, hlines, -⟩, ps, hlaid, hloud, hquiet, -, hnested⟩ :=
    presentation_inert h 12 1 .topLevel w rfl hw
  obtain ⟨opened, hopened, -⟩ := hnested Calc.host_passesOn Command.standard_passesOn
  have htext : (run 12 ⟨1, c⟩ .topLevel w).2.sink.text =
      "Beginning session for main\nBeginning session for 5\n=> 3\n" ++
        "Beginning session for 7\nEnding session for 7\nEnding session for 5\n=> 3\n" := by
    decide +kernel
  have htext' : (run 12 ⟨1, { c with hooks := [] }⟩ .topLevel w).2.sink.text = "=> 3\n=> 3\n" := by
    decide +kernel
  have hempty : w.sink.text = "" := rfl
  have hstandard : ({ c with hooks := .standard } : Config Calc.host) = c := rfl
  rw [hempty, String.empty_append] at hloud hquiet
  rw [hstandard] at hlaid hloud
  refine ⟨h, rfl, hw, hresult, hlines, ?_, ps, opened, hlaid, ?_, ?_, hopened⟩
  · decide +kernel
  · exact hloud.symm.trans htext
  · exact hquiet.symm.trans htext'

end CalcShell
