import TalkDeck.Outline
import TalkDeck.Proofs.Deck.Closing

/-
Which outlines nest.

An editor takes an outline only if each symbol selects a part of its own range and lies inside the
symbol above it.  Slides, directives and closed blocks always do.  An unclosed block stops at the
start of its last line, while its type and its steps are found on all of its lines; so its symbol
nests when they end before the last line or when there is nothing on that line, and not otherwise
(`create_nested_iff`).
-/

namespace TalkDeck

/-- The symbol of a block or a directive with its steps: each selects a part of its own range, and
the steps lie inside the member. -/
structure MemberSymbol.Nested (m : MemberSymbol) : Prop where
  selection : m.selection.Inside m.range
  steps : ∀ t ∈ m.steps, t.selection.Inside t.range ∧ t.range.Inside m.range

/-- The symbol of a slide with all that stands below it. -/
structure SlideSymbol.Nested (s : SlideSymbol) : Prop where
  selection : s.selection.Inside s.range
  members : ∀ m ∈ s.members, m.Nested ∧ m.range.Inside s.range

instance (r outer : Range) : Decidable (r.Inside outer) := inferInstanceAs (Decidable (_ ∧ _))

theorem Range.inside_refl (r : Range) : r.Inside r :=
  ⟨Position.le_refl _, Position.le_refl _⟩

/-! ## Directives -/

namespace Inline

theorem typeRange_inside {f : Form} {n : Nat} {ls : List Line} {link : Inline}
    (h : link ∈ ofLines f n ls) : link.typeRange.Inside link.range := by
  obtain ⟨q, -, hlink⟩ := List.mem_flatMap.mp h
  obtain ⟨offset, r, rfl, -⟩ := mem_ofLine hlink
  have hlength : r.typeStart f + r.type.length ≤ (r.text f).length := by
    rw [← List.append_nil (r.text f), Raw.text_append, Raw.typeStart]
    simp only [List.length_cons, List.length_append, List.length_nil]
    omega
  refine ⟨Or.inr ⟨rfl, ?_⟩, Or.inr ⟨rfl, ?_⟩⟩
  · show offset ≤ offset + r.typeStart f
    omega
  · show offset + r.typeStart f + r.type.length ≤ offset + (r.text f).length
    omega

end Inline

/-! ## Types and steps of a block -/

theorem Line.typeStart?_bounds {l : Line} {start : Nat} (h : l.typeStart? = some start) :
    0 < start ∧ start ≤ l.length := by
  rw [typeStart?] at h
  split at h
  · cases h
  · next rest hrest =>
    have hlength := congrArg List.length (Text.strip?_eq_some_iff.mp hrest)
    rw [List.length_append, show typeWord.length = 5 from rfl] at hlength
    split at h
    · cases h
    · next hne =>
      split at h
      · have hpos : 0 < rest.length := List.length_pos_iff.mpr fun hnil => hne (by rw [hnil]; rfl)
        obtain rfl := Option.some.inj h
        omega
      · obtain rfl := Option.some.inj h
        have hpos : 0 < l.valueStart 4 := by
          rw [valueStart]
          omega
        exact ⟨hpos, valueStart_le (by omega)⟩

namespace Block

variable {d : Document} {r : Raw} {sequenceType : String} {o : Fragment.Outcome}

/-- The ranges that have to lie inside the block: that of its type and those of its steps. -/
def shown (b : Block) : List Range := b.typeRange.toList ++ b.steps.map (·.range)

theorem typeRange?_withinLine {g : List (Line × Nat)} {x : Range} (h : typeRange? g = some x) :
    ∃ q ∈ g, x.WithinLine q.2 q.1.length ∧ 0 < x.stop.character := by
  obtain ⟨q, hq, hx⟩ := List.exists_of_findSome?_eq_some h
  obtain ⟨start, hstart, rfl⟩ := Option.map_eq_some_iff.mp hx
  obtain ⟨hpos, hle⟩ := Line.typeStart?_bounds hstart
  exact ⟨q, hq, ⟨_, _, rfl, Nat.le_add_right _ _, Line.trimmedStop_le hle⟩,
    Nat.lt_of_lt_of_le hpos (Nat.le_add_right _ _)⟩

theorem content_ne_nil_of_mem_shown {x : Range} (h : x ∈ (ofOutcome sequenceType r o).shown) :
    r.content ≠ [] := by
  rintro hnil
  obtain ⟨first, last, content, unclosed⟩ := r
  subst hnil
  rcases List.mem_append.mp h with h | h
  · have htype := Option.mem_toList.mp h
    unfold ofOutcome at htype
    dsimp only at htype
    split at htype
    · cases htype
    · cases htype
  · obtain ⟨t, ht, rfl⟩ := List.mem_map.mp h
    obtain ⟨i, hi⟩ := List.getElem?_of_mem ht
    obtain ⟨members, -, hmember⟩ := getElem?_steps_ofOutcome hi
    cases hmember

/-- What is shown of a block lies inside its content, stops within a line, and stops at the start of
a line only if nothing stands there. -/
theorem shown_spec (hcontent : r.content <+: d.lines.drop (r.first + 1)) {x : Range}
    (h : x ∈ (ofOutcome sequenceType r o).shown) :
    x.Inside (ofOutcome sequenceType r o).contentRange ∧
      x.stop.character ≤ (d.line x.stop.line).length ∧
      (x.stop.character = 0 → d.line x.stop.line = []) := by
  rcases List.mem_append.mp h with h | h
  · have htype : typeRange? (r.content.zipIdx (r.first + 1)) = some x := by
      have h' := Option.mem_toList.mp h
      unfold ofOutcome at h'
      dsimp only at h'
      split at h'
      · exact h'
      · cases h'
    obtain ⟨q, hq, hwithin, hpos⟩ := typeRange?_withinLine htype
    have hne : r.content.zipIdx (r.first + 1) ≠ [] := List.ne_nil_of_mem hq
    have hnumbers := Document.numbers_zipIdx hcontent
    rw [contentRange_ofOutcome hne]
    exact ⟨hnumbers.inside hne hq hwithin, (hnumbers.fits hq hwithin).stop_le,
      fun hzero => absurd hzero (Nat.ne_of_gt hpos)⟩
  · obtain ⟨t, ht, rfl⟩ := List.mem_map.mp h
    obtain ⟨i, hi⟩ := List.getElem?_of_mem ht
    have hstep := locatesStep hcontent hi
    refine ⟨hstep.inside, hstep.fits.stop_le, fun hzero => ?_⟩
    -- A step stops at the end of its last line.
    obtain ⟨members, -, hmember⟩ := getElem?_steps_ofOutcome hi
    obtain ⟨g, member, hg, -, rfl⟩ := Step.getElem?_ofBlock hmember
    have hne := Step.groups_ne_nil (List.mem_of_getElem? hg)
    have hline := (((Document.numbers_zipIdx hcontent).sublist
      (Step.sublist_of_mem_groups (List.mem_of_getElem? hg))).line_eq (List.getLast_mem hne)).2
    rw [Step.ofLines_eq i hne] at hzero ⊢
    show d.line (g.getLast hne).2 = []
    rw [hline]
    exact List.length_eq_zero_iff.mp hzero

/-- The symbol of a block nests when nothing shown of it stops after the block does. -/
theorem nested_iff_shown (hcontent : r.content <+: d.lines.drop (r.first + 1)) :
    (Outline.ofBlock (ofOutcome sequenceType r o)).Nested ↔
      ∀ x ∈ (ofOutcome sequenceType r o).shown,
        Position.le x.stop (ofOutcome sequenceType r o).range.stop := by
  have hstart : ∀ x ∈ (ofOutcome sequenceType r o).shown,
      Position.le (ofOutcome sequenceType r o).range.start x.start := by
    intro x hx
    refine Position.le_trans (Or.inl ?_) (shown_spec hcontent hx).1.1
    show r.first < r.first + 1
    omega
  constructor
  · intro hnested x hx
    rcases List.mem_append.mp hx with hx | hx
    · have hselection := hnested.selection
      have htype : (ofOutcome sequenceType r o).typeRange = some x := Option.mem_toList.mp hx
      rw [Outline.ofBlock, htype] at hselection
      exact hselection.2
    · obtain ⟨t, ht, rfl⟩ := List.mem_map.mp hx
      exact (hnested.steps _ (List.mem_map_of_mem ht)).2.2
  · intro hstop
    have hinside : ∀ x ∈ (ofOutcome sequenceType r o).shown,
        x.Inside (ofOutcome sequenceType r o).range := fun x hx => ⟨hstart x hx, hstop x hx⟩
    constructor
    · show ((ofOutcome sequenceType r o).typeRange.getD (ofOutcome sequenceType r o).range).Inside
        (ofOutcome sequenceType r o).range
      cases htype : (ofOutcome sequenceType r o).typeRange with
      | none => exact Range.inside_refl _
      | some x =>
        exact hinside x (List.mem_append_left _ (Option.mem_toList.mpr htype))
    · intro u hu
      obtain ⟨t, ht, rfl⟩ := List.mem_map.mp hu
      refine ⟨?_, hinside _ (List.mem_append_right _ (List.mem_map_of_mem ht))⟩
      obtain ⟨i, hi⟩ := List.getElem?_of_mem ht
      have hstep := locatesStep hcontent hi
      show (t.typeRange.getD t.range).Inside t.range
      cases htype : t.typeRange with
      | none => exact Range.inside_refl _
      | some x => exact (hstep.type_inside x htype).2

/-- A block ends in text when something stands on its last line and what is shown of it reaches that
line. -/
def EndsInText (d : Document) (b : Block) : Prop :=
  d.line b.range.stop.line ≠ [] ∧ ∃ x ∈ b.shown, b.range.stop.line ≤ x.stop.line

instance (d : Document) (b : Block) : Decidable (b.EndsInText d) :=
  inferInstanceAs (Decidable (_ ∧ _))

theorem stop_of_closed (flag : r.unclosed = false) :
    (ofOutcome sequenceType r o).range.stop = ⟨r.last, 3⟩ := by
  show (⟨r.last, if r.unclosed then 0 else 3⟩ : Position) = _
  rw [flag]
  rfl

theorem stop_of_unclosed (flag : r.unclosed = true) :
    (ofOutcome sequenceType r o).range.stop = ⟨r.last, 0⟩ := by
  show (⟨r.last, if r.unclosed then 0 else 3⟩ : Position) = _
  rw [flag]
  rfl

/-- All of the content is above the closing fence. -/
theorem contentRange_stop_le (last : r.last = r.first + 1 + r.content.length) :
    Position.le (ofOutcome sequenceType r o).contentRange.stop ⟨r.last, 3⟩ := by
  show Position.le ⟨r.first + 1 + (r.content.length - 1), (r.content.getLast?.getD []).length⟩
    ⟨r.last, 3⟩
  rcases Nat.eq_zero_or_pos r.content.length with hzero | hpos
  · rw [List.length_eq_zero_iff.mp hzero] at last ⊢
    exact Or.inr ⟨last.symm, Nat.zero_le 3⟩
  · left
    show r.first + 1 + (r.content.length - 1) < r.last
    omega

/-- What is shown of an open block stops before its last line, or at the start of an empty one. -/
theorem shown_stop_le_iff (hcontent : r.content <+: d.lines.drop (r.first + 1))
    (last : r.last = r.first + r.content.length) {x : Range}
    (hx : x ∈ (ofOutcome sequenceType r o).shown) :
    Position.le x.stop ⟨r.last, 0⟩ ↔ (d.line r.last ≠ [] → x.stop.line < r.last) := by
  obtain ⟨hinside, hlength, hempty⟩ := shown_spec hcontent hx
  constructor
  · rintro (hlt | ⟨heq, hzero⟩) hline
    · exact hlt
    · rw [show x.stop.line = r.last from heq] at hempty
      exact absurd (hempty (Nat.le_zero.mp hzero)) hline
  · intro h
    rcases Nat.lt_or_ge x.stop.line r.last with hlt | hge
    · exact Or.inl hlt
    · have hline : d.line r.last = [] := by
        by_contra hline
        exact Nat.not_lt.mpr hge (h hline)
      have hlast : x.stop.line ≤ r.last := by
        have hcontentStop : (ofOutcome sequenceType r o).contentRange.stop.line =
          r.first + 1 + (r.content.length - 1) := rfl
        have hpos := List.length_pos_iff.mpr (content_ne_nil_of_mem_shown hx)
        rcases hinside.2 with hlt | ⟨heq, -⟩
        · omega
        · omega
      have heq : x.stop.line = r.last := Nat.le_antisymm hlast hge
      rw [heq, hline] at hlength
      exact Or.inr ⟨heq, hlength⟩

theorem nested_iff {beyond : Nat} (hcontent : r.content <+: d.lines.drop (r.first + 1))
    (hends : r.Ends d.lines beyond) :
    (Outline.ofBlock (ofOutcome sequenceType r o)).Nested ↔
      ¬((ofOutcome sequenceType r o).unclosed = true ∧
        (ofOutcome sequenceType r o).EndsInText d) := by
  rw [nested_iff_shown hcontent]
  cases hends with
  | closed flag last before fence =>
    have hflag : (ofOutcome sequenceType r o).unclosed = false := flag
    rw [hflag, stop_of_closed flag]
    refine iff_of_true (fun x hx => ?_) (fun h => Bool.false_ne_true h.1)
    exact Position.le_trans (shown_spec hcontent hx).1.2 (contentRange_stop_le last)
  | unclosed flag last before =>
    have hflag : (ofOutcome sequenceType r o).unclosed = true := flag
    rw [EndsInText, hflag, stop_of_unclosed flag]
    constructor
    · rintro hle ⟨-, hline, x, hx, hreach⟩
      exact Nat.not_lt.mpr hreach ((shown_stop_le_iff hcontent last hx).mp (hle x hx) hline)
    · intro hnot x hx
      refine (shown_stop_le_iff hcontent last hx).mpr fun hline => ?_
      by_contra hreach
      exact hnot ⟨rfl, hline, x, hx, Nat.not_lt.mp hreach⟩

end Block

/-! ## Outlines -/

namespace Document

variable {limits : Limits} {d : Document} {uri content sequenceType : String} {version : Int}

/-- All of a slide but the inside of its blocks nests in any case. -/
theorem nested_ofSlide_iff (h : create limits uri version content sequenceType = .ok d) {s : Slide}
    (hs : s ∈ d.slides) :
    (Outline.ofSlide s).Nested ↔ ∀ b ∈ s.blocks, ¬(b.unclosed = true ∧ b.EndsInText d) := by
  rcases lines_of_mem_slides h hs with ⟨first, -, hblocks, -, hdirectives⟩ |
    ⟨first, ls, hne, hls, hrange, hblocks, -, hdirectives⟩
  · have hmembers : (Outline.ofSlide s).members = [] := by
      rw [Outline.ofSlide, hblocks, hdirectives]
      rfl
    rw [hblocks]
    refine iff_of_true ⟨Range.inside_refl _, fun m hm => ?_⟩ fun _ hb => absurd hb List.not_mem_nil
    rw [hmembers] at hm
    cases hm
  · constructor
    · intro hnested b hb
      have hmember := hnested.members _ (List.mem_append_left _ (List.mem_map_of_mem hb))
      obtain ⟨r, o, rfl, hcontent, -, hends⟩ := ends_of_mem_blocks hls hblocks hb
      exact (Block.nested_iff hcontent hends).mp hmember.1
    · intro hall
      refine ⟨Range.inside_refl _, fun m hm => ?_⟩
      rcases List.mem_append.mp hm with hm | hm
      · obtain ⟨b, hb, rfl⟩ := List.mem_map.mp hm
        have hnot := hall b hb
        obtain ⟨r, o, rfl, hcontent, hfirst, hends⟩ := ends_of_mem_blocks hls hblocks hb
        refine ⟨(Block.nested_iff hcontent hends).mpr hnot, ?_⟩
        show Range.Inside _ s.range
        rw [hrange]
        exact range_inside_of_ends hls hne hfirst hends sequenceType o
      · obtain ⟨link, hlink, rfl⟩ := List.mem_map.mp hm
        rw [hdirectives] at hlink
        refine ⟨⟨Inline.typeRange_inside hlink, fun _ ht => absurd ht List.not_mem_nil⟩, ?_⟩
        show Range.Inside _ s.range
        rw [hrange]
        exact (inside_of_mem_ofLines hls hne hlink).2

/-- The outline of a deck nests exactly if no unclosed block ends in text. -/
theorem create_nested_iff (h : create limits uri version content sequenceType = .ok d) :
    (∀ s ∈ Outline.symbols d, s.Nested) ↔
      ∀ b ∈ d.blocks, ¬(b.unclosed = true ∧ b.EndsInText d) := by
  constructor
  · intro hnested b hb
    obtain ⟨s, hs, hb⟩ := List.mem_flatMap.mp hb
    exact (nested_ofSlide_iff h hs).mp (hnested _ (List.mem_map_of_mem hs)) b hb
  · intro hall symbol hsymbol
    obtain ⟨s, hs, rfl⟩ := List.mem_map.mp hsymbol
    exact (nested_ofSlide_iff h hs).mpr fun b hb => hall b (List.mem_flatMap.mpr ⟨s, hs, hb⟩)

/-- A directive, a closed block and an unclosed one of one step, with an empty line at its end. -/
def openStepDeck : String :=
  "[a](render:file?path=b)\n\x60\x60\x60action\ntype: wait\n\x60\x60\x60\n" ++
    "\x60\x60\x60action\ntype: sequence\nsteps:\n  - type: file.open\n    path: a.py\n"

theorem create_nested_openStep :
    ∃ d, create .usual "a" 1 openStepDeck "sequence" = .ok d ∧
      (∃ b ∈ d.blocks, b.unclosed = true ∧ b.steps.length = 1) ∧
      ∀ s ∈ Outline.symbols d, s.Nested := by
  obtain ⟨d, hd, hcheck⟩ := exists_eq_ok_of_any (x := create .usual "a" 1 openStepDeck "sequence")
    (p := fun d => decide ((∃ b ∈ d.blocks, b.unclosed = true ∧ b.steps.length = 1) ∧
      ∀ b ∈ d.blocks, ¬(b.unclosed = true ∧ b.EndsInText d))) (by decide +kernel)
  obtain ⟨hopen, hall⟩ := of_decide_eq_true hcheck
  exact ⟨d, hd, hopen, (create_nested_iff hd).mpr hall⟩

/-- The type of an unclosed block on the last line of the deck. -/
def openTypeDeck : String := "\x60\x60\x60action\ntype: file.open"

/-- The symbol of the block selects what is not in its range. -/
theorem not_nested_openType :
    ∃ d, create .usual "a" 1 openTypeDeck "sequence" = .ok d ∧ ∃ s ∈ Outline.symbols d, ∃ m ∈ s.members,
      ¬m.selection.Inside m.range := by
  obtain ⟨d, hd, hcheck⟩ := exists_eq_ok_of_any (x := create .usual "a" 1 openTypeDeck "sequence")
    (p := fun d => decide (∃ s ∈ Outline.symbols d, ∃ m ∈ s.members,
      ¬m.selection.Inside m.range)) (by decide +kernel)
  exact ⟨d, hd, of_decide_eq_true hcheck⟩

end Document
end TalkDeck
