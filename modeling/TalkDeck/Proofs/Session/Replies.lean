import TalkDeck.Proofs.Definition
import TalkDeck.Proofs.QuickFix.Trace
import TalkDeck.Proofs.Session.Features
import TalkDeck.Proofs.Session.Works
import TalkDeck.Proofs.Yaml.Display

/-
Requests are answered.

A fix edits lines of the deck or the line below one, so it can be told about a deck that is short enough,
even if the diagnostic is one of an older text (`QuickFix.succeeds_all`).  A definition comes from the
parameter under the cursor, or is the file of a link, and only the parameter can be in its way
(`Definition.locate_cases`, `Definition.Blocked`).  With the ranges of the other features, and with the
documents of a run being those that were sent, every request of a run has its reply: `run_replies` is
what this file exists for.
-/

namespace TalkDeck

variable {c : Catalog} {d : Document} {p : Position}

/-! ## Fixes -/

namespace Logged

variable {ε α β : Type} {w : Logged ε α} {f : α → Logged ε β} {P : α → Prop} {Q : β → Prop}

/-- Work that does not fail, whatever was noted before, and what its result satisfies. -/
def Succeeds (w : Logged ε α) (P : α → Prop) : Prop :=
  ∀ j : Journal, ∃ a j', (ExceptT.run w).run j = (.ok a, j') ∧ P a

theorem succeeds_pure {a : α} (h : P a) : Succeeds (pure a : Logged ε α) P :=
  fun j => ⟨a, j, rfl, h⟩

theorem succeeds_note (level : Int) (text : String) :
    Succeeds (note level text : Logged ε Unit) fun _ => True :=
  fun _ => ⟨(), _, rfl, trivial⟩

theorem Succeeds.bind (hw : Succeeds w P) (hf : ∀ a, P a → Succeeds (f a) Q) :
    Succeeds (w >>= f) Q := by
  intro j
  obtain ⟨a, j', hrun, ha⟩ := hw j
  obtain ⟨b, j'', hrun', hb⟩ := hf a ha j'
  refine ⟨b, j'', ?_, hb⟩
  show (ExceptT.bindCont f ((ExceptT.run w).run j).1).run ((ExceptT.run w).run j).2 = _
  rw [hrun]
  exact hrun'

theorem Succeeds.outcome (h : Succeeds w P) : ∃ a, w.outcome.1 = .ok a ∧ P a := by
  obtain ⟨a, j, hrun, ha⟩ := h []
  refine ⟨a, ?_, ha⟩
  unfold Logged.outcome
  rw [hrun]

end Logged

namespace QuickFix

open Logged

variable {limits : Limits} {s : Settings} {g : Diagnostic} {uri content sequenceType : String}
  {version : Int}

/-- An editor can be told about all edits. -/
def Sendable (as : List CodeAction) : Prop := ∀ a ∈ as, a.edit.range.Sendable

theorem sendable_nil : Sendable [] := nofun

theorem sendable_singleton {a : CodeAction} (h : a.edit.range.Sendable) : Sendable [a] := by
  intro a' ha'
  obtain rfl := List.mem_singleton.mp ha'
  exact h

theorem sendable_findInRange? (hd : d.Short) {r range : Range} {word : List Char}
    (h : findInRange? d r word = some range) : range.Sendable := by
  obtain ⟨n, hn, h⟩ := List.exists_of_findSome?_eq_some h
  obtain ⟨a, ha, rfl⟩ := Option.map_eq_some_iff.mp h
  have hline : n ≤ d.lineCount := by
    rw [List.mem_range'_1] at hn
    omega
  have hfound := List.find?_some ha
  rw [Bool.and_eq_true, Bool.and_eq_true, decide_eq_true_eq] at hfound
  have hcount := hd.lineCount_le
  have hlength := hd.length_line_le n
  exact Range.sendable_onLine (by omega) (by omega) (by omega)

theorem succeeds_corrections (hd : d.Short) : Succeeds (corrections c s d g) Sendable := by
  unfold corrections
  split
  · exact succeeds_pure sendable_nil
  · split
    · exact (succeeds_note _ _).bind fun _ _ => succeeds_pure sendable_nil
    · next range hrange =>
      refine (succeeds_note _ _).bind fun _ _ => succeeds_pure ?_
      intro a ha
      obtain ⟨t, -, rfl⟩ := List.mem_map.mp ha
      exact sendable_findInRange? hd hrange

/-- The line below a range of the deck has a number. -/
theorem line_below (hd : Document.create limits uri version content sequenceType = .ok d)
    (hshort : d.Short) {r : Range} (hr : r ∈ d.ranges) :
    r.start.line + 1 ≤ Position.limit ∧ r.stop.line + 1 ≤ Position.limit :=
  hshort.lines_lt (Document.fits_of_mem_ranges hd hr)

theorem lineAfter_le (hd : Document.create limits uri version content sequenceType = .ok d)
    (hshort : d.Short) {ps : List Parameter} {typeRange : Option Range} {otherwise : Nat}
    (hps : ∀ q ∈ ps, ∀ r ∈ q.ranges, r ∈ d.ranges) (htype : ∀ r ∈ typeRange, r ∈ d.ranges)
    (hotherwise : otherwise ≤ Position.limit) :
    lineAfter ps typeRange otherwise ≤ Position.limit := by
  unfold lineAfter
  split
  · next q hlast =>
    have hq := List.mem_of_getLast? hlast
    exact (line_below hd hshort (hps q hq q.lineRange q.lineRange_mem_ranges)).2
  · next r _ => exact (line_below hd hshort (htype r rfl)).2
  · exact hotherwise

theorem sendable_insertion (hd : Document.create limits uri version content sequenceType = .ok d)
    (hshort : d.Short) : Sendable (insertion d g) := by
  unfold insertion
  split
  · next name b _ hb =>
    have hmem : b ∈ d.blocks := List.mem_of_find?_eq_some hb
    have hranges : ∀ r ∈ b.ranges, r ∈ d.ranges := fun r hr => Document.mem_ranges_of_block hmem hr
    have hpoint : ∀ {line : Nat} {indent : String}, line ≤ Position.limit →
        Sendable [⟨"Add missing parameter '" ++ name ++ "'", g, d.uri,
          ⟨Range.point line 0, indent ++ name ++ ": \n"⟩, none⟩] :=
      fun hline => sendable_singleton (Range.sendable_onLine hline (Nat.zero_le _) (Nat.zero_le _))
    dsimp only
    split
    · next t ht =>
      have ht : t ∈ b.steps := by
        split at ht
        · exact List.mem_of_find?_eq_some ht
        · cases ht
      have hstep : ∀ r ∈ t.ranges, r ∈ d.ranges := fun r hr =>
        hranges r (Block.mem_ranges_of_step ht hr)
      refine hpoint (lineAfter_le hd hshort ?_ ?_ ?_)
      · exact fun q hq r hr => hstep r (Step.mem_ranges_of_parameter hq hr)
      · exact fun r hr => hstep r (Step.mem_ranges_of_type hr)
      · exact (line_below hd hshort (hstep t.range List.mem_cons_self)).1
    · refine hpoint (lineAfter_le hd hshort ?_ ?_ ?_)
      · exact fun q hq r hr => hranges r (Block.mem_ranges_of_parameter hq hr)
      · exact fun r hr => hranges r (Block.mem_ranges_of_type hr)
      · -- The content begins on the line below the fence.
        obtain ⟨x, -, o, -, rfl⟩ := Document.exists_raw_of_mem_blocks hd hmem
        exact (line_below hd hshort (hranges _ List.mem_cons_self)).1
  · exact sendable_nil

/-- A parameter that is found again stands on a line of the deck. -/
theorem lineRange_mem {q : Parameter}
    (h : (d.blockAt? p).bind (parameterAt? · p) = some q) : q.lineRange ∈ d.ranges := by
  obtain ⟨b, hb, hq⟩ := Option.bind_eq_some_iff.mp h
  refine Document.mem_ranges_of_block (List.mem_of_find?_eq_some hb) ?_
  rcases List.mem_append.mp (List.mem_of_find?_eq_some hq) with hq | hq
  · exact Block.mem_ranges_of_parameter hq q.lineRange_mem_ranges
  · obtain ⟨t, ht, hq⟩ := List.mem_flatMap.mp hq
    exact Block.mem_ranges_of_step ht (Step.mem_ranges_of_parameter hq q.lineRange_mem_ranges)

theorem succeeds_rangeOf {first last : Nat} (hfirst : first + 1 ≤ Position.limit)
    (hlast : last + 1 ≤ Position.limit) :
    Succeeds (ExceptT.mk (pure (Range.of first 0 (last + 1) 0)) : Logged OutOfRange Range)
      Range.Sendable := by
  intro j
  have hof : Range.of first 0 (last + 1) 0 = .ok ⟨⟨first, 0⟩, ⟨last + 1, 0⟩⟩ := by
    exact_mod_cast Range.of_eq_ok_iff.mpr
      ⟨⟨Nat.le_of_succ_le hfirst, Nat.zero_le _⟩, ⟨hlast, Nat.zero_le _⟩, rfl⟩
  rw [hof]
  exact ⟨_, j, rfl, ⟨⟨Nat.le_of_succ_le hfirst, Nat.zero_le _⟩, ⟨hlast, Nat.zero_le _⟩⟩⟩

theorem succeeds_removal (hd : Document.create limits uri version content sequenceType = .ok d)
    (hshort : d.Short) (hg : g.range.start.line + 1 ≤ Position.limit) :
    Succeeds (removal d g) Sendable := by
  unfold removal
  split
  · exact succeeds_pure sendable_nil
  · simp only [pure_bind]
    split
    · next q hq =>
      obtain ⟨hfirst, hlast⟩ := line_below hd hshort (lineRange_mem hq)
      exact (succeeds_rangeOf hfirst hlast).bind fun _ hr => succeeds_pure (sendable_singleton hr)
    · refine (succeeds_note _ _).bind fun _ _ => ?_
      exact (succeeds_rangeOf hg hg).bind fun _ hr => succeeds_pure (sendable_singleton hr)

/-- A diagnostic whose fix takes its line out. -/
def Removes (g : Diagnostic) : Prop := g.code = some (.text "ET005") ∨ g.code = some (.text "ET009")

theorem succeeds_fixes (hd : Document.create limits uri version content sequenceType = .ok d)
    (hshort : d.Short) (hg : Removes g → g.range.start.line + 1 ≤ Position.limit) :
    Succeeds (fixes c s d g) Sendable := by
  unfold fixes
  split
  · next code hcode =>
    split
    · exact succeeds_corrections hshort
    · split
      · exact succeeds_pure (sendable_insertion hd hshort)
      · split
        · next hremoves =>
          refine succeeds_removal hd hshort (hg ?_)
          rcases hremoves with rfl | rfl
          · exact Or.inl hcode
          · exact Or.inr hcode
        · exact succeeds_pure sendable_nil
  · exact succeeds_pure sendable_nil

theorem succeeds_all (hd : Document.create limits uri version content sequenceType = .ok d)
    (hshort : d.Short) {gs : List Diagnostic}
    (hgs : ∀ g ∈ gs, Removes g → g.range.start.line + 1 ≤ Position.limit) :
    Succeeds (all c s d gs) Sendable := by
  induction gs with
  | nil => exact succeeds_pure sendable_nil
  | cons g gs ih =>
    refine (succeeds_fixes hd hshort (hgs g List.mem_cons_self)).bind fun found hfound => ?_
    refine (ih fun g hg => hgs g (List.mem_cons_of_mem _ hg)).bind fun more hmore => ?_
    refine succeeds_pure fun a ha => ?_
    rcases List.mem_append.mp ha with ha | ha
    · exact hfound a ha
    · exact hmore a ha

/-- An unknown parameter is found at its key. -/
theorem keyRange_mem {b : Block} {f : Finding} (hf : f ∈ b.findings c sequenceType)
    (hissue : (∃ key type, f.issue = .unknownParam key type) ∨
      ∃ key type, f.issue = .stepUnknownParam key type) : f.range ∈ b.ranges := by
  rcases hissue with ⟨key, type, hissue⟩ | ⟨key, type, hissue⟩
  · obtain ⟨-, q, hq, -, rfl⟩ := Block.mem_findings_unknownParam hf hissue
    exact Block.mem_ranges_of_parameter (mem_unknownOf.mp hq).1 List.mem_cons_self
  · obtain ⟨t, ht, hft⟩ :=
      Document.exists_step_of_mem_findings hf (Or.inr (Or.inr ⟨key, type, hissue⟩))
    obtain ⟨-, q, hq, -, rfl⟩ := Step.mem_findings_unknownParam hft hissue
    exact Block.mem_ranges_of_step ht
      (Step.mem_ranges_of_parameter (mem_unknownOf.mp hq).1 List.mem_cons_self)

/-- What was once told about a deck stands on a line that has one below it. -/
theorem line_below_of_removes (hd : Document.create limits uri version content sequenceType = .ok d)
    (hshort : d.Short) (hg : g ∈ d.diagnostics c s) (hremoves : Removes g) :
    g.range.start.line + 1 ≤ Position.limit := by
  have hcode : ∃ code ∈ ["ET004", "ET005", "ET008", "ET009"], g.code = some (.text code) := by
    rcases hremoves with h | h
    · exact ⟨_, by simp, h⟩
    · exact ⟨_, by simp, h⟩
  obtain ⟨b, hb, f, hf, rfl, hissue⟩ := Document.exists_finding hg hcode
  have hunknown : (∃ key type, f.issue = .unknownParam key type) ∨
      ∃ key type, f.issue = .stepUnknownParam key type := by
    have hneither : ∀ {i : Issue}, f.issue = i → i.code ≠ "ET005" → i.code ≠ "ET009" → False := by
      intro i hi h5 h9
      subst hi
      rcases hremoves with h | h
      · exact h5 (DiagnosticCode.text.inj (Option.some.inj h))
      · exact h9 (DiagnosticCode.text.inj (Option.some.inj h))
    rcases hissue with ⟨name, h⟩ | h | ⟨t, -, -, ⟨name, h⟩ | h⟩
    · exact (hneither h (by simp [Issue.code]) (by simp [Issue.code])).elim
    · exact Or.inl h
    · exact (hneither h (by simp [Issue.code]) (by simp [Issue.code])).elim
    · exact Or.inr h
  exact (line_below hd hshort (Document.mem_ranges_of_block hb (keyRange_mem hf hunknown))).1

end QuickFix

/-! ## Definitions -/

namespace Definition

open Workspace

variable {limits : Limits} {i : Index} {e : Failure}

/-- What is in the way of a definition: the value under the cursor cannot be shown, since its parts
nest too deep or an integer in it is too long, or it names a launch configuration on a line beyond the
limit. -/
inductive Blocked (limits : Limits) (i : Index) (q : Parameter) : Failure → Prop where
  | noText {e : Yaml.NoText} (hidden : ¬q.value.Showable limits) : Blocked limits i q (.noText e)
  | farLine {name : String} {l : LaunchConfig} (text : q.value.text limits = .ok name)
    (found : i.launch.find? (·.name == name) = some l) (line : Position.limit < l.line) :
    Blocked limits i q (.outOfRange ⟨true, l.line⟩)

theorem launchAt_eq_error {name : String} {x : OutOfRange} (h : i.launchAt name = .error x) :
    ∃ l, i.launch.find? (·.name == name) = some l ∧ Position.limit < l.line ∧ x = ⟨true, l.line⟩ := by
  unfold Index.launchAt at h
  split at h
  · cases h
  · next l hl =>
    by_cases hline : l.line ≤ Position.limit
    · have hof : Range.of l.line 0 l.line 0 = .ok (Range.point l.line 0) := by
        exact_mod_cast Range.of_eq_ok_iff.mpr ⟨⟨hline, Nat.zero_le _⟩, ⟨hline, Nat.zero_le _⟩, rfl⟩
      rw [hof] at h
      cases h
    · have hof : Range.of l.line 0 l.line 0 = .error ⟨true, l.line⟩ := by
        unfold Range.of Position.of
        rw [if_pos (Or.inr (by omega))]
        rfl
      rw [hof] at h
      exact ⟨l, hl, by omega, (Except.error.inj h).symm⟩

theorem sendable_launchAt {name : String} {l : Location} (h : i.launchAt name = .ok (some l)) :
    l.range.Sendable := by
  unfold Index.launchAt at h
  split at h
  · cases h
  · next found _ =>
    obtain ⟨range, hrange, h⟩ := bind_eq_ok_iff.mp h
    obtain rfl := Option.some.inj (Except.ok.inj h)
    have hof : Range.of found.line (0 : Nat) found.line (0 : Nat) = .ok range := hrange
    obtain ⟨hstart, hstop, rfl⟩ := Range.of_eq_ok_iff.mp hof
    exact ⟨⟨hstart.1, hstart.2⟩, ⟨hstop.1, hstop.2⟩⟩

theorem sendable_file? {path : String} {l : Location} (h : file? i path = some l) :
    l.range.Sendable := by
  obtain ⟨uri, -, rfl⟩ := Option.map_eq_some_iff.mp h
  exact Range.sendable_onLine (Nat.zero_le _) (Nat.zero_le _) (Nat.zero_le _)

theorem target_eq_error {spec : ParameterSpec} {q : Parameter}
    (h : target limits i spec q = .error e) : Blocked limits i q e := by
  unfold target at h
  cases htext : q.value.text limits with
  | error x =>
    rw [htext] at h
    split at h
    · obtain rfl := Except.error.inj h
      exact .noText (Yaml.Value.not_showable_of_error htext)
    · obtain rfl := Except.error.inj h
      exact .noText (Yaml.Value.not_showable_of_error htext)
    · cases h
  | ok name =>
    rw [htext] at h
    split at h
    · cases h
    · cases hlaunch : i.launchAt name with
      | error x =>
        obtain ⟨l, hl, hline, rfl⟩ := launchAt_eq_error hlaunch
        have he : e = .outOfRange ⟨true, l.line⟩ := by
          change (i.launchAt name).mapError Failure.outOfRange = .error e at h
          rw [hlaunch] at h
          exact (Except.error.inj h).symm
        rw [he]
        exact .farLine htext hl hline
      | ok found =>
        change (i.launchAt name).mapError Failure.outOfRange = .error e at h
        rw [hlaunch] at h
        cases h
    · cases h

theorem sendable_target {spec : ParameterSpec} {q : Parameter} {l : Location}
    (h : target limits i spec q = .ok (some l)) : l.range.Sendable := by
  unfold target at h
  cases htext : q.value.text limits with
  | error x =>
    rw [htext] at h
    split at h
    · cases h
    · cases h
    · cases h
  | ok name =>
    rw [htext] at h
    split at h
    · exact sendable_file? (Except.ok.inj h)
    · change (i.launchAt name).mapError Failure.outOfRange = .ok (some l) at h
      cases hlaunch : i.launchAt name with
      | error x =>
        rw [hlaunch] at h
        cases h
      | ok found =>
        rw [hlaunch] at h
        obtain rfl := Except.ok.inj h
        exact sendable_launchAt hlaunch
    · cases h

theorem sendable_ofLink {k : Inline} {l : Location} (h : ofLink i p k = some l) :
    l.range.Sendable := by
  unfold ofLink at h
  split at h
  · split at h
    · split at h
      · exact sendable_file? h
      · cases h
    · cases h
  · cases h

end Definition

/-! ## Runs -/

/-- A word has been typed up to the position, after the opening of a link or of a directive. -/
def Completion.Typed (d : Document) (p : Position) (word : List Char) : Prop :=
  actionTyped? ((d.line p.line).take p.character) = some word ∨
    renderTyped? ((d.line p.line).take p.character) = some word

/-- Going back from the position by the length of the word does not lead out of the line. -/
theorem Completion.of_typed (hp : p.Sendable) {word : List Char} (h : Typed d p word) :
    Range.of p.line (p.character - word.length) p.line p.character =
      .ok (Range.onLine p.line (p.character - word.length) p.character) := by
  have hlength : word.length ≤ ((d.line p.line).take p.character).length := by
    rcases h with h | h
    · exact length_typedAt? h
    · exact length_typedAt? h
  rw [List.length_take] at hlength
  have hback : ((p.character : Int) - word.length) = ((p.character - word.length : Nat) : Int) := by
    omega
  have hstart : p.character - word.length ≤ Position.limit :=
    Nat.le_trans (Nat.sub_le _ _) hp.character_le
  rw [hback]
  exact Range.of_eq_ok_iff.mpr ⟨⟨hp.line_le, hstart⟩, ⟨hp.line_le, hp.character_le⟩, rfl⟩

namespace Session

/-- An editor can be told about all that a reply points at. -/
def Reply.Sendable : Reply → Prop
  | .done => True
  | .completion items => ∀ i ∈ items.getD [], i.edit.range.Sendable
  | .hover found => ∀ h ∈ found, h.range.Sendable
  | .definition place => ∀ l ∈ place, l.range.Sendable
  | .symbols found => ∀ y ∈ found, ∀ r ∈ y.ranges, r.Sendable
  | .folds found => ∀ f ∈ found, f.Sendable
  | .codeActions found => QuickFix.Sendable found

/-- A request, at a position that an editor can be at. -/
def Event.IsRequest : Event → Prop
  | .completion _ p => p.Sendable
  | .hover _ p => p.Sendable
  | .definition _ p => p.Sendable
  | .symbols _ => True
  | .folds _ => True
  | .codeActions _ => True
  | _ => False

/-- The parameter whose value is under the cursor is in the way of its own definition. -/
def DefinitionBlocked (s : Session) (uri : String) (p : Position) : Prop :=
  ∃ i d, s.index = some i ∧ s.store.get? uri = some d ∧
    ∃ b ∈ d.blocks, ∃ q, (q ∈ b.parameters ∨ ∃ t ∈ b.steps, q ∈ t.parameters) ∧
      q.valueRange.holds p = true ∧ ∃ e, Definition.Blocked s.settings.limits i q e

variable {settings : Settings} {s : Session} {uri : String}

/-- A deck that has been read from a short text. -/
def ReadShort (settings : Settings) (d : Document) : Prop :=
  d.Short ∧ ∃ uri version content,
    Document.create settings.limits uri version content settings.sequenceType = .ok d

theorem completion_replies (hs : Vetted (ReadShort settings) settings s)
    (hp : p.Sendable) : (Reply.completion (s.completionAt uri p)).Sendable := by
  intro i hi
  unfold completionAt at hi
  cases hd : s.store.get? uri with
  | none =>
    rw [hd] at hi
    cases hi
  | some d =>
    rw [hd] at hi
    change i ∈ (Completion.itemsAt s.catalog s.settings d p).getD [] at hi
    cases hitems : Completion.itemsAt s.catalog s.settings d p with
    | none =>
      rw [hitems] at hi
      cases hi
    | some items =>
      rw [hitems] at hi
      exact Completion.sendable_itemsAt (hs.stored uri d hd).1 hp hitems hi

theorem hover_replies (hs : Vetted (ReadShort settings) settings s) :
    (Reply.hover (s.hoverAt uri p)).Sendable := by
  intro h hh
  obtain ⟨d, hd, hh⟩ := Option.bind_eq_some_iff.mp hh
  obtain ⟨hshort, _, _, _, hcreate⟩ := hs.stored uri d hd
  exact Document.sendable_of_mem_ranges hcreate hshort (Hover.range_mem hh)

theorem symbols_reply (hs : Vetted (ReadShort settings) settings s) :
    (Reply.symbols (s.symbolsOf uri)).Sendable := by
  intro y hy r hr
  unfold symbolsOf at hy
  cases hd : s.store.get? uri with
  | none =>
    rw [hd] at hy
    cases hy
  | some d =>
    rw [hd] at hy
    obtain ⟨hshort, _, _, _, hcreate⟩ := hs.stored uri d hd
    exact Document.sendable_of_mem_ranges hcreate hshort (Outline.mem_ranges_symbols hy hr)

theorem folds_reply (hs : Vetted (ReadShort settings) settings s) :
    (Reply.folds (s.foldsOf uri)).Sendable := by
  intro f hf
  unfold foldsOf at hf
  cases hd : s.store.get? uri with
  | none =>
    rw [hd] at hf
    cases hf
  | some d =>
    rw [hd] at hf
    obtain ⟨hshort, _, _, _, hcreate⟩ := hs.stored uri d hd
    exact Outline.sendable_folds hcreate hshort hf

theorem codeActions_reply (uri : String) (hs : Vetted (ReadShort settings) settings s) :
    ∃ found, (s.codeActionsOf uri).1 = .ok found ∧ (Reply.codeActions found).Sendable := by
  unfold codeActionsOf
  cases hd : s.store.get? uri with
  | none => exact ⟨[], rfl, QuickFix.sendable_nil⟩
  | some d =>
    obtain ⟨hshort, _, _, _, hcreate⟩ := hs.stored uri d hd
    refine (QuickFix.succeeds_all hcreate hshort ?_).outcome
    -- The diagnostics may be those of an older text.
    intro g hg hremoves
    cases hlast : s.lastPublished? uri with
    | none =>
      rw [hlast] at hg
      cases hg
    | some publication =>
      rw [hlast] at hg
      change g ∈ publication.diagnostics at hg
      have hmem := List.mem_reverse.mp (List.mem_of_find?_eq_some hlast)
      rcases hs.told publication hmem with hnil | ⟨old, ⟨holdshort, _, _, _, hold⟩, heq⟩
      · rw [hnil] at hg
        cases hg
      · rw [heq] at hg
        exact QuickFix.line_below_of_removes hold holdshort hg hremoves

theorem definition_reply (s : Session) (uri : String) (p : Position) :
    (∃ place, s.definitionAt uri p = .ok place ∧ (Reply.definition place).Sendable) ∨
      s.DefinitionBlocked uri p := by
  unfold definitionAt
  split
  · next d i hd hi =>
    cases hlocate : Definition.locate s.settings.limits s.catalog i d p with
    | error e =>
      right
      rcases Definition.locate_cases hlocate nofun with
        ⟨b, q, type, value, spec, hfollows⟩ | ⟨_, _, _, _, _, _, hl⟩
      · exact ⟨i, d, hi, hd, b, hfollows.block, q, hfollows.has.mem, hfollows.holds, e,
          Definition.target_eq_error hfollows.target⟩
      · cases hl
    | ok place =>
      refine Or.inl ⟨place, rfl, ?_⟩
      intro l hl
      obtain rfl : place = some l := hl
      rcases Definition.locate_cases hlocate nofun with
        ⟨b, q, type, value, spec, hfollows⟩ | ⟨_, _, k, _, l', hlink, hl'⟩
      · exact Definition.sendable_target hfollows.target
      · obtain rfl := Option.some.inj (Except.ok.inj hl')
        exact Definition.sendable_ofLink hlink
  · exact Or.inl ⟨none, rfl, nofun⟩

theorem request_replies (hs : Vetted (ReadShort settings) settings s) {e : Event}
    (he : e.IsRequest) :
    (∃ reply, (s.step e).1 = .ok reply ∧ reply.Sendable) ∨
      ∃ uri p, e = .definition uri p ∧ s.DefinitionBlocked uri p := by
  cases e with
  | completion uri p => exact Or.inl ⟨_, rfl, completion_replies hs he⟩
  | hover uri p => exact Or.inl ⟨_, rfl, hover_replies hs⟩
  | symbols uri => exact Or.inl ⟨_, rfl, symbols_reply hs⟩
  | folds uri => exact Or.inl ⟨_, rfl, folds_reply hs⟩
  | codeActions uri =>
    obtain ⟨found, hfound, hsend⟩ := codeActions_reply uri hs
    have hpair : s.codeActionsOf uri = (.ok found, (s.codeActionsOf uri).2) := Prod.ext hfound rfl
    refine Or.inl ⟨.codeActions found, ?_, hsend⟩
    show (s.handle (.codeActions uri)).1 = _
    rw [handle, hpair]
  | definition uri p =>
    rcases definition_reply s uri p with ⟨place, hplace, hsend⟩ | hblocked
    · refine Or.inl ⟨.definition place, ?_, hsend⟩
      rw [step, handle, hplace]
    · exact Or.inr ⟨uri, p, rfl, hblocked⟩
  | _ => exact he.elim

/-- Requests are answered.  After any events whose texts are short enough to be counted, a request gets
a reply, and an editor can be told about all that the reply points at; only a definition can fail, and
only where the value under the cursor is in its way.  Going back from the cursor over what was typed
never leads out of the line. -/
theorem run_replies (settings : Settings) {events : List Event}
    (hevents : ∀ e ∈ events, ∀ uri version text, e.Brings uri version text →
      text.toList.length < Position.limit) {e : Event} (he : e.IsRequest) :
    ((∃ reply, (((start settings).run events).step e).1 = .ok reply ∧ reply.Sendable) ∨
      ∃ uri p, e = .definition uri p ∧ ((start settings).run events).DefinitionBlocked uri p) ∧
    ∀ uri p d word, e = .completion uri p → ((start settings).run events).store.get? uri = some d →
      Completion.Typed d p word →
        Range.of p.line (p.character - word.length) p.line p.character =
          .ok (Range.onLine p.line (p.character - word.length) p.character) := by
  have hvetted : Vetted (ReadShort settings) settings ((start settings).run events) := by
    refine run_vetted (start_vetted _ settings) ?_
    intro e he uri version text d hbrings hread
    have hcontent : d.content = text := (Document.create_eq_ok_iff.mp hread.2).2.2.1
    refine ⟨?_, uri, version, text, hread.2⟩
    unfold Document.Short
    rw [hcontent]
    exact hevents e he uri version text hbrings
  refine ⟨request_replies hvetted he, ?_⟩
  rintro uri p d word rfl - htyped
  exact Completion.of_typed he htyped

/-- A launch configuration on a line that no position can have, and a deck that names it. -/
def farLaunch : List Event :=
  [.begun ["file:///work"] none,
    .ready (.value (.arr [])) (.value (.arr [.obj [("name", .str "Run"),
      ("uri", .str "file:///work/.vscode/launch.json"), ("line", .int 2147483648)]])),
    .opened "file:///a.deck.md" 1
      "\x60\x60\x60action\ntype: debug.start\nconfigName: Run\n\x60\x60\x60"]

theorem run_replies_farLaunch :
    ∃ reply, (((start {}).run farLaunch).step (.completion "file:///a.deck.md" ⟨2, 13⟩)).1 =
      .ok reply ∧ reply.Sendable := by
  have hevents : ∀ e ∈ farLaunch, ∀ uri version text, e.Brings uri version text →
      text.toList.length < Position.limit := by
    intro e he uri version text hbrings
    rcases List.mem_cons.mp he with rfl | he
    · cases hbrings
    rcases List.mem_pair.mp he with rfl | rfl
    · cases hbrings
    · cases hbrings
      decide +kernel
  have hposition : (Event.completion "file:///a.deck.md" ⟨2, 13⟩).IsRequest :=
    ⟨by decide, by decide⟩
  rcases (run_replies {} hevents hposition).1 with hreply | ⟨uri, p, hdefinition, -⟩
  · exact hreply
  · cases hdefinition

/-- At the value of the deck's parameter the definition fails. -/
theorem definition_fails_farLaunch :
    (((start {}).run farLaunch).step (.definition "file:///a.deck.md" ⟨2, 13⟩)).1 =
      .error (.outOfRange ⟨true, 2147483648⟩) := by
  have hcheck : (match (((start {}).run farLaunch).step (.definition "file:///a.deck.md" ⟨2, 13⟩)).1 with
    | .error e => decide (e = .outOfRange ⟨true, 2147483648⟩)
    | .ok _ => false) = true := by decide +kernel
  generalize (((start {}).run farLaunch).step (.definition "file:///a.deck.md" ⟨2, 13⟩)).1 = x at hcheck ⊢
  cases x with
  | ok reply => cases hcheck
  | error e => rw [of_decide_eq_true hcheck]

/-- A list in a list for a path, where a value may take two calls. -/
example : (match (((start { limits := ⟨480, 950, 2, by decide⟩ }).run
      [.begun ["file:///work"] none, .opened "file:///a.deck.md" 1
        "\x60\x60\x60action\ntype: file.open\npath: [[a]]\n\x60\x60\x60"]).step
      (.definition "file:///a.deck.md" ⟨2, 8⟩)).1 with
    | .error (.noText .tooDeep) => true
    | _ => false) = true := by decide +kernel

end Session
end TalkDeck
