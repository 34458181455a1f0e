import TalkDeck.Proofs.Outline.Nesting
import TalkDeck.Proofs.Yaml.Scalars

/-
Every range of a deck lies in the deck.

`Document.ranges` collects the ranges that features show of a deck: those of its slides, blocks, types,
parameters, steps, links and directives.  Each of them runs forward within lines that the deck has
(`Document.fits_of_mem_ranges`), so the size of the text bounds them, and those of a text that is short
enough can all be told to an editor (`Document.sendable_of_mem_ranges`).
-/

namespace TalkDeck

/-- An editor can be told about the position. -/
structure Position.Sendable (p : Position) : Prop where
  line_le : p.line ≤ limit
  character_le : p.character ≤ limit

/-- An editor can be told about both ends of the range. -/
structure Range.Sendable (r : Range) : Prop where
  start : r.start.Sendable
  stop : r.stop.Sendable

theorem Range.sendable_onLine {n a b : Nat} (hn : n ≤ Position.limit) (ha : a ≤ Position.limit)
    (hb : b ≤ Position.limit) : (Range.onLine n a b).Sendable :=
  ⟨⟨hn, ha⟩, ⟨hn, hb⟩⟩

/-! ## All ranges -/

def Inline.ranges (l : Inline) : List Range := [l.range, l.typeRange]

def Step.ranges (t : Step) : List Range :=
  t.range :: (t.typeRange.toList ++ t.parameters.flatMap (·.ranges))

def Block.ranges (b : Block) : List Range :=
  b.range :: (b.typeRange.toList ++ b.parameters.flatMap (·.ranges) ++ b.steps.flatMap (·.ranges))

def Slide.ranges (s : Slide) : List Range :=
  s.range :: (s.blocks.flatMap (·.ranges) ++ (s.links ++ s.directives).flatMap (·.ranges))

def Document.ranges (d : Document) : List Range := d.slides.flatMap (·.ranges)

section

variable {r : Range}

theorem Parameter.lineRange_mem_ranges (q : Parameter) : q.lineRange ∈ q.ranges :=
  List.mem_cons_of_mem _ (List.mem_cons_of_mem _ List.mem_cons_self)

theorem Step.mem_ranges_of_type {t : Step} (hr : t.typeRange = some r) : r ∈ t.ranges :=
  List.mem_cons_of_mem _ (List.mem_append_left _ (Option.mem_toList.mpr hr))

theorem Step.mem_ranges_of_parameter {t : Step} {q : Parameter} (hq : q ∈ t.parameters)
    (hr : r ∈ q.ranges) : r ∈ t.ranges :=
  List.mem_cons_of_mem _ (List.mem_append_right _ (List.mem_flatMap.mpr ⟨q, hq, hr⟩))

theorem Block.mem_ranges_of_type {b : Block} (hr : b.typeRange = some r) : r ∈ b.ranges :=
  List.mem_cons_of_mem _ (List.mem_append_left _ (List.mem_append_left _ (Option.mem_toList.mpr hr)))

theorem Block.mem_ranges_of_parameter {b : Block} {q : Parameter} (hq : q ∈ b.parameters)
    (hr : r ∈ q.ranges) : r ∈ b.ranges := by
  refine List.mem_cons_of_mem _ (List.mem_append_left _ (List.mem_append_right _ ?_))
  exact List.mem_flatMap.mpr ⟨q, hq, hr⟩

theorem Block.mem_ranges_of_step {b : Block} {t : Step} (ht : t ∈ b.steps) (hr : r ∈ t.ranges) :
    r ∈ b.ranges :=
  List.mem_cons_of_mem _ (List.mem_append_right _ (List.mem_flatMap.mpr ⟨t, ht, hr⟩))

theorem Document.mem_ranges_of_slide {d : Document} {s : Slide} (hs : s ∈ d.slides) :
    s.range ∈ d.ranges :=
  List.mem_flatMap.mpr ⟨s, hs, List.mem_cons_self⟩

theorem Document.mem_ranges_of_block {d : Document} {b : Block} (hb : b ∈ d.blocks)
    (hr : r ∈ b.ranges) : r ∈ d.ranges := by
  obtain ⟨s, hs, hb⟩ := List.mem_flatMap.mp hb
  refine List.mem_flatMap.mpr ⟨s, hs, List.mem_cons_of_mem _ (List.mem_append_left _ ?_)⟩
  exact List.mem_flatMap.mpr ⟨b, hb, hr⟩

theorem Document.mem_ranges_of_inline {d : Document} {s : Slide} (hs : s ∈ d.slides) {l : Inline}
    (hl : l ∈ s.links ++ s.directives) (hr : r ∈ l.ranges) : r ∈ d.ranges := by
  refine List.mem_flatMap.mpr ⟨s, hs, List.mem_cons_of_mem _ (List.mem_append_right _ ?_)⟩
  exact List.mem_flatMap.mpr ⟨l, hl, hr⟩

end

namespace Inline

theorem typeRange_withinLine {f : Form} {n : Nat} {l : Line} {link : Inline}
    (h : link ∈ ofLine f n l) : link.typeRange.WithinLine n l.length := by
  obtain ⟨offset, r, rfl, hprefix⟩ := mem_ofLine h
  have hlength := hprefix.length_le
  rw [List.length_drop] at hlength
  have htext : r.typeStart f + r.type.length ≤ (r.text f).length := by
    rw [← List.append_nil (r.text f), Raw.text_append, Raw.typeStart]
    simp only [List.length_cons, List.length_append, List.length_nil]
    omega
  have hpos : 3 ≤ r.typeStart f := by
    rw [Raw.typeStart]
    omega
  exact ⟨offset + r.typeStart f, offset + r.typeStart f + r.type.length, rfl,
    Nat.le_add_right _ _, by omega⟩

theorem withinLine_of_mem_ranges {f : Form} {n : Nat} {l : Line} {link : Inline}
    (h : link ∈ ofLine f n l) {r : Range} (hr : r ∈ link.ranges) : r.WithinLine n l.length := by
  rcases List.mem_pair.mp hr with rfl | rfl
  · exact withinLine_of_mem_ofLine h
  · exact typeRange_withinLine h

end Inline

namespace Document

variable {limits : Limits} {d : Document} {uri content sequenceType : String} {version : Int}
  {r : Range}

theorem Locates.fits {b : Block} {outer : Range} {mapping : Option Yaml.Value} {ps : List Parameter}
    (h : d.Locates b outer mapping ps) (hr : r ∈ ps.flatMap (·.ranges)) : d.Fits r := by
  obtain ⟨p, hp, hr⟩ := List.mem_flatMap.mp hr
  exact (h.inside p hp r hr).1

theorem LocatesStep.fits_of_mem {b : Block} {i : Nat} {t : Step} (h : d.LocatesStep b i t)
    (hr : r ∈ t.ranges) : d.Fits r := by
  rcases List.mem_cons.mp hr with rfl | hr
  · exact h.fits
  · rcases List.mem_append.mp hr with hr | hr
    · exact (h.type_inside r (Option.mem_toList.mp hr)).1
    · exact h.parameters.fits hr

theorem fits_blockRange {first : Nat} {ls : List Line} (hls : ls <+: d.lines.drop first)
    {x : Block.Raw} (hfirst : first ≤ x.first) (h : x.Ends d.lines (first + ls.length))
    (sequenceType : String) (o : Fragment.Outcome) :
    d.Fits (Block.ofOutcome sequenceType x o).range := by
  obtain ⟨n, c, hstop, hle, hlt, hc⟩ := exists_stop_of_ends h sequenceType o
  have hline := (numbers_zipIdx hls).line_eq (mem_zipIdx_line hls (Nat.le_trans hfirst hle) hlt)
  constructor
  · constructor
    · rw [hstop]
      rcases Nat.lt_or_eq_of_le hle with hlt | heq
      · exact Or.inl hlt
      · exact Or.inr ⟨heq, Nat.zero_le c⟩
    · exact Nat.zero_le _
    · rw [hstop]
      exact hc
  · rw [hstop]
    exact hline.1

theorem fits_blockType {x : Block.Raw} (hcontent : x.content <+: d.lines.drop (x.first + 1))
    {o : Fragment.Outcome} (hr : r ∈ (Block.ofOutcome sequenceType x o).typeRange) : d.Fits r := by
  have htype : Block.typeRange? (x.content.zipIdx (x.first + 1)) = some r := by
    unfold Block.ofOutcome at hr
    dsimp only at hr
    split at hr
    · exact hr
    · cases hr
  obtain ⟨q, hq, hwithin, -⟩ := Block.typeRange?_withinLine htype
  exact (numbers_zipIdx hcontent).fits hq hwithin

/-- Every range of a deck runs forward within lines of the deck. -/
theorem fits_of_mem_ranges (h : create limits uri version content sequenceType = .ok d)
    (hr : r ∈ d.ranges) : d.Fits r := by
  obtain ⟨s, hs, hr⟩ := List.mem_flatMap.mp hr
  rcases lines_of_mem_slides h hs with ⟨first, hrange, hb, hl, hd⟩ |
    ⟨first, ls, hne, hls, hrange, hraws, hlinks, hdirectives⟩
  · -- A slide without lines has only its own range to show.
    rcases List.mem_cons.mp hr with rfl | hr
    · rw [hrange]
      exact fits_emptyRange d first
    · rw [hb, hl, hd] at hr
      cases hr
  rcases List.mem_cons.mp hr with rfl | hr
  · rw [hrange]
    exact (numbers_zipIdx hls).fits_extent hne
  rcases List.mem_append.mp hr with hr | hr
  · obtain ⟨b, hb, hr⟩ := List.mem_flatMap.mp hr
    obtain ⟨x, o, rfl, hcontent, hfirst, hends⟩ := ends_of_mem_blocks hls hraws hb
    rcases List.mem_cons.mp hr with rfl | hr
    · exact fits_blockRange hls hfirst hends sequenceType o
    rcases List.mem_append.mp hr with hr | hr
    · rcases List.mem_append.mp hr with hr | hr
      · exact fits_blockType hcontent (Option.mem_toList.mp hr)
      · exact (Block.locates_parameters hcontent sequenceType o).fits hr
    · obtain ⟨t, ht, hr⟩ := List.mem_flatMap.mp hr
      obtain ⟨i, hi⟩ := List.getElem?_of_mem ht
      exact (Block.locatesStep hcontent hi).fits_of_mem hr
  · obtain ⟨link, hlink, hr⟩ := List.mem_flatMap.mp hr
    have hline : ∃ f, link ∈ Inline.ofLines f first ls := by
      rw [hlinks, hdirectives] at hlink
      rcases List.mem_append.mp hlink with hlink | hlink
      · exact ⟨_, hlink⟩
      · exact ⟨_, hlink⟩
    obtain ⟨f, hlink⟩ := hline
    obtain ⟨q, hq, hlink⟩ := List.mem_flatMap.mp hlink
    exact (numbers_zipIdx hls).fits hq (Inline.withinLine_of_mem_ranges hlink hr)

theorem fits_frontmatter (h : create limits uri version content sequenceType = .ok d)
    (hr : d.frontmatter = some r) : d.Fits r := by
  obtain ⟨-, -, -, hfrontmatter, -⟩ := create_eq_ok_iff.mp h
  rw [hfrontmatter] at hr
  obtain ⟨m, l, hpos, hm, -, rfl⟩ := frontmatterOf_eq_some hr
  have hline : d.line m = l := by
    rw [line, hm]
    rfl
  refine ⟨⟨Or.inl hpos, Nat.zero_le _, ?_⟩, (List.getElem?_eq_some_iff.mp hm).1⟩
  rw [hline]

/-! ## Short texts -/

/-- A deck whose text is short enough for its lines and characters to be counted. -/
def Short (d : Document) : Prop := d.content.toList.length < Position.limit

theorem length_le_of_mem_splitAt {sep : Char} {cs piece : List Char}
    (h : piece ∈ Text.splitAt sep cs) : piece.length ≤ cs.length := by
  induction cs generalizing piece with
  | nil =>
    obtain rfl := List.mem_singleton.mp h
    exact Nat.le_refl 0
  | cons c cs ih =>
    have hrest : ∀ {piece}, piece ∈ Text.splitAt sep cs → piece.length ≤ (c :: cs).length :=
      fun h => Nat.le_succ_of_le (ih h)
    rw [Text.splitAt] at h
    split at h
    · rcases List.mem_cons.mp h with rfl | h
      · exact Nat.zero_le _
      · exact hrest h
    · split at h
      · obtain rfl := List.mem_singleton.mp h
        exact Nat.succ_le_succ (Nat.zero_le _)
      · next hpieces =>
        rw [hpieces] at ih hrest
        rcases List.mem_cons.mp h with rfl | h
        · exact Nat.succ_le_succ (ih List.mem_cons_self)
        · exact hrest (List.mem_cons_of_mem _ h)

namespace Short

theorem lineCount_le (h : d.Short) : d.lineCount ≤ Position.limit := by
  have hlength : d.lineCount = d.content.toList.count '\n' + 1 := Text.length_splitAt _ _
  have hcount : d.content.toList.count '\n' ≤ d.content.toList.length := List.count_le_length
  have hshort : d.content.toList.length < Position.limit := h
  omega

theorem length_line_le (h : d.Short) (n : Nat) : (d.line n).length ≤ Position.limit := by
  unfold line
  cases hline : d.lines[n]? with
  | none => exact Nat.zero_le _
  | some l =>
    have hlength : l.length ≤ d.content.toList.length :=
      length_le_of_mem_splitAt (List.mem_of_getElem? hline)
    exact Nat.le_trans hlength (Nat.le_of_lt h)

theorem lines_lt (h : d.Short) (hr : d.Fits r) :
    r.start.line < Position.limit ∧ r.stop.line < Position.limit := by
  have hstart : r.start.line ≤ r.stop.line := by
    rcases hr.forward with hlt | ⟨heq, -⟩
    · exact Nat.le_of_lt hlt
    · exact Nat.le_of_eq heq
  have hstop := hr.in_deck
  have hcount := h.lineCount_le
  omega

theorem sendable_of_fits (h : d.Short) (hr : d.Fits r) : r.Sendable := by
  obtain ⟨hstart, hstop⟩ := h.lines_lt hr
  exact ⟨⟨Nat.le_of_lt hstart, Nat.le_trans hr.start_le (h.length_line_le _)⟩,
    ⟨Nat.le_of_lt hstop, Nat.le_trans hr.stop_le (h.length_line_le _)⟩⟩

end Short

theorem sendable_of_mem_ranges (h : create limits uri version content sequenceType = .ok d)
    (hshort : d.Short) (hr : r ∈ d.ranges) : r.Sendable :=
  hshort.sendable_of_fits (fits_of_mem_ranges h hr)

end Document
end TalkDeck
