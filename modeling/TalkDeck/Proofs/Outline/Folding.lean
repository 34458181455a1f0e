import TalkDeck.Proofs.Deck.Ranges
import TalkDeck.Proofs.Deck.Search

/-
Regions that can be folded nest.

An editor can draw regions only if any two of them are apart or one holds the other.  The regions of
a deck come from three scans: front matter ends above all slides, slides follow each other line by
line, and so do blocks, each inside its slide.  Two of these facts need care.  A slide without lines
has its place on a line of another slide or of the front matter, but it has no region and no block
(`Document.slide_cases`); and a block that is cut off at the end of its slide is still inside it.
-/

namespace TalkDeck

namespace Range

variable {r outer : Range}

theorem Inside.start_line_le (h : r.Inside outer) : outer.start.line ≤ r.start.line := by
  rcases h.1 with hlt | ⟨heq, -⟩
  · exact Nat.le_of_lt hlt
  · exact Nat.le_of_eq heq

theorem Inside.stop_line_le (h : r.Inside outer) : r.stop.line ≤ outer.stop.line := by
  rcases h.2 with hlt | ⟨heq, -⟩
  · exact Nat.le_of_lt hlt
  · exact Nat.le_of_eq heq

end Range

namespace Outline

/-! ## Regions -/

namespace Fold

/-- Whether a line belongs to a region. -/
def Holds (f : Fold) (n : Nat) : Prop := f.first ≤ n ∧ n ≤ f.last

/-- Regions without a line in common. -/
def Apart (f g : Fold) : Prop := ∀ n, f.Holds n → ¬g.Holds n

/-- A region all of whose lines belong to another. -/
def Within (f g : Fold) : Prop := ∀ n, f.Holds n → g.Holds n

theorem apart_of_lt {f g : Fold} (h : f.last < g.first) : f.Apart g := by
  rintro n ⟨-, hlast⟩ ⟨hfirst, -⟩
  omega

theorem Apart.symm {f g : Fold} (h : f.Apart g) : g.Apart f := fun n hg hf => h n hf hg

theorem Apart.of_within {e f g : Fold} (h : f.Apart g) (he : e.Within f) : e.Apart g :=
  fun n hn => h n (he n hn)

theorem within_of_inside {r outer : Range} (h : r.Inside outer) :
    (ofRange r).Within (ofRange outer) := by
  rintro n ⟨hfirst, hlast⟩
  exact ⟨Nat.le_trans h.start_line_le hfirst, Nat.le_trans hlast h.stop_line_le⟩

end Fold

theorem mem_tall {rs : List Range} {f : Fold} :
    f ∈ tall rs ↔ ∃ r ∈ rs, r.start.line < r.stop.line ∧ f = Fold.ofRange r := by
  rw [tall, List.mem_map]
  refine exists_congr fun r => ?_
  rw [List.mem_filter, decide_eq_true_iff, and_assoc, @eq_comm _ f]

/-- The regions of ranges stand to each other as the ranges of more than one line do. -/
theorem pairwise_tall {R : Fold → Fold → Prop} {rs : List Range}
    (h : rs.Pairwise fun r t => t.start.line < t.stop.line → R (Fold.ofRange r) (Fold.ofRange t)) :
    (tall rs).Pairwise R := by
  rw [tall, List.pairwise_map, List.pairwise_filter]
  exact h.imp fun hrt _ ht => hrt (of_decide_eq_true ht)

end Outline

namespace Document

variable {limits : Limits} {d : Document} {uri content sequenceType : String} {version : Int}

/-! ## Slides and blocks line by line -/

theorem emptyRange_start (all : List Line) (first : Nat) :
    (emptyRange all first).start = (emptyRange all first).stop := by
  unfold emptyRange
  split
  · rfl
  · rfl

/-- A slide without lines is a place and has no blocks; any other begins at the start of a line below
the front matter. -/
theorem slide_cases (h : create limits uri version content sequenceType = .ok d) {s : Slide}
    (hs : s ∈ d.slides) :
    (s.range.start = s.range.stop ∧ s.blocks = []) ∨
      (s.range.start.character = 0 ∧ bodyStart d.frontmatter ≤ s.range.start.line) := by
  obtain ⟨i, hi⟩ := List.getElem?_of_mem hs
  obtain ⟨p, hp, hslide⟩ := slide_of_getElem? h hi
  have hspan := List.mem_of_getElem? hp
  obtain ⟨-, hrange, hempty⟩ := slideOf_spec (snd_le_of_mem_slideSpans hspan) hslide
  rcases Nat.lt_or_ge p.1 p.2 with hlt | hge
  · right
    rw [hrange, spanRange, if_pos hlt]
    exact ⟨rfl, bodyStart_le_of_mem_slideSpans hspan⟩
  · left
    obtain rfl := hempty hge
    exact ⟨emptyRange_start d.lines p.1, rfl⟩

theorem slide_start_of_tall (h : create limits uri version content sequenceType = .ok d) {s : Slide}
    (hs : s ∈ d.slides) (htall : s.range.start.line < s.range.stop.line) :
    s.range.start.character = 0 ∧ bodyStart d.frontmatter ≤ s.range.start.line := by
  refine (slide_cases h hs).resolve_left fun hempty => ?_
  rw [hempty.1] at htall
  exact Nat.lt_irrefl _ htall

theorem slide_start_of_block (h : create limits uri version content sequenceType = .ok d) {s : Slide}
    (hs : s ∈ d.slides) {b : Block} (hb : b ∈ s.blocks) :
    s.range.start.character = 0 ∧ bodyStart d.frontmatter ≤ s.range.start.line := by
  refine (slide_cases h hs).resolve_left fun hempty => ?_
  rw [hempty.2] at hb
  cases hb

/-- A slide that begins at the start of a line begins below the lines of the slides before it. -/
theorem slides_below (h : create limits uri version content sequenceType = .ok d) :
    d.slides.Pairwise fun s t =>
      t.range.start.character = 0 → s.range.stop.line < t.range.start.line := by
  refine (slides_pairwise h).imp fun hlt hzero => ?_
  rcases hlt with hlt | ⟨-, hlt⟩
  · exact hlt
  · omega

theorem blockRange_inside (h : create limits uri version content sequenceType = .ok d) {s : Slide}
    (hs : s ∈ d.slides) {b : Block} (hb : b ∈ s.blocks) : b.range.Inside s.range := by
  rcases lines_of_mem_slides h hs with ⟨first, -, hblocks, -⟩ | ⟨first, ls, hne, hls, hrange, hblocks, -⟩
  · rw [hblocks] at hb
    cases hb
  · obtain ⟨r, o, rfl, -, hfirst, hends⟩ := ends_of_mem_blocks hls hblocks hb
    rw [hrange]
    exact range_inside_of_ends hls hne hfirst hends sequenceType o

/-- The blocks of a deck follow each other line by line. -/
theorem blocks_below (h : create limits uri version content sequenceType = .ok d) :
    d.blocks.Pairwise fun b c => b.range.stop.line < c.range.start.line := by
  rw [blocks, List.pairwise_flatMap]
  constructor
  · intro s hs
    obtain ⟨i, hi⟩ := List.getElem?_of_mem hs
    obtain ⟨p, hp, hslide⟩ := slide_of_getElem? h hi
    have hsize := snd_le_of_mem_slideSpans (List.mem_of_getElem? hp)
    have hsearched := Block.searched_of_blocks hsize (slideOf_blocks hslide)
    exact hsearched.pairwise.imp And.right
  · refine (slides_below h).imp_of_mem fun hs ht hbelow b hb c hc => ?_
    have hstop := (blockRange_inside h hs hb).stop_line_le
    have hstart := (blockRange_inside h ht hc).start_line_le
    have hlt := hbelow (slide_start_of_block h ht hc).1
    omega

end Document

namespace Outline

variable {limits : Limits} {d : Document} {uri content sequenceType : String} {version : Int}

open Document

/-! ## The regions of a deck -/

/-- Every region is that of a range in the deck. -/
theorem exists_range_of_mem_folds (h : create limits uri version content sequenceType = .ok d)
    {f : Fold} (hf : f ∈ folds d) :
    ∃ r, d.Fits r ∧ r.start.line < r.stop.line ∧ f = Fold.ofRange r := by
  rcases List.mem_append.mp hf with hf | hf
  · rcases List.mem_append.mp hf with hf | hf
    · obtain ⟨r, hr, rfl⟩ := Option.map_eq_some_iff.mp (Option.mem_toList.mp hf)
      refine ⟨r, fits_frontmatter h hr, ?_, rfl⟩
      rw [(create_eq_ok_iff.mp h).2.2.2.1] at hr
      obtain ⟨m, l, hpos, -, -, rfl⟩ := frontmatterOf_eq_some hr
      exact hpos
    · obtain ⟨r, hr, htall, rfl⟩ := mem_tall.mp hf
      obtain ⟨s, hs, rfl⟩ := List.mem_map.mp hr
      exact ⟨_, fits_of_mem_ranges h (mem_ranges_of_slide hs), htall, rfl⟩
  · obtain ⟨r, hr, htall, rfl⟩ := mem_tall.mp hf
    obtain ⟨b, hb, rfl⟩ := List.mem_map.mp hr
    exact ⟨_, fits_of_mem_ranges h (mem_ranges_of_block hb List.mem_cons_self), htall, rfl⟩

theorem within_slide (h : create limits uri version content sequenceType = .ok d) {s : Slide}
    (hs : s ∈ d.slides) {b : Block} (hb : b ∈ s.blocks) :
    (Fold.ofRange b.range).Within (Fold.ofRange s.range) :=
  Fold.within_of_inside (blockRange_inside h hs hb)

theorem apart_frontmatter {r t : Range} (hr : r ∈ d.frontmatter)
    (ht : bodyStart d.frontmatter ≤ t.start.line) : (Fold.ofRange r).Apart (Fold.ofRange t) := by
  rw [Option.mem_def.mp hr] at ht
  exact Fold.apart_of_lt ht

/-- Two slides with lines are one slide, or apart. -/
theorem eq_or_apart (h : create limits uri version content sequenceType = .ok d) {s t : Slide}
    (hs : s ∈ d.slides) (ht : t ∈ d.slides) (hstart : s.range.start.character = 0)
    (hstart' : t.range.start.character = 0) :
    s = t ∨ (Fold.ofRange s.range).Apart (Fold.ofRange t.range) := by
  have hbelow := List.pairwise_iff_getElem.mp (slides_below h)
  obtain ⟨i, hi, rfl⟩ := List.getElem_of_mem hs
  obtain ⟨j, hj, rfl⟩ := List.getElem_of_mem ht
  rcases Nat.lt_trichotomy i j with hij | rfl | hji
  · exact Or.inr (Fold.apart_of_lt (hbelow i j hi hj hij hstart'))
  · exact Or.inl rfl
  · exact Or.inr (Fold.apart_of_lt (hbelow j i hj hi hji hstart)).symm

theorem pairwise_slideFolds (h : create limits uri version content sequenceType = .ok d) :
    (tall (d.slides.map (·.range))).Pairwise Fold.Apart := by
  refine pairwise_tall (List.pairwise_map.mpr ?_)
  refine (slides_below h).imp_of_mem fun _ ht hbelow htall => Fold.apart_of_lt ?_
  exact hbelow (slide_start_of_tall h ht htall).1

theorem pairwise_blockFolds (h : create limits uri version content sequenceType = .ok d) :
    (tall (d.blocks.map (·.range))).Pairwise Fold.Apart := by
  refine pairwise_tall (List.pairwise_map.mpr ?_)
  refine (blocks_below h).imp ?_
  intro b c hlt _
  exact Fold.apart_of_lt hlt

theorem frontmatter_slideFolds (h : create limits uri version content sequenceType = .ok d) {r : Range}
    (hr : r ∈ d.frontmatter) {f : Fold} (hf : f ∈ tall (d.slides.map (·.range))) :
    (Fold.ofRange r).Apart f := by
  obtain ⟨t, ht, htall, rfl⟩ := mem_tall.mp hf
  obtain ⟨s, hs, rfl⟩ := List.mem_map.mp ht
  exact apart_frontmatter hr (slide_start_of_tall h hs htall).2

theorem frontmatter_blockFolds (h : create limits uri version content sequenceType = .ok d) {r : Range}
    (hr : r ∈ d.frontmatter) {f : Fold} (hf : f ∈ tall (d.blocks.map (·.range))) :
    (Fold.ofRange r).Apart f := by
  obtain ⟨t, ht, -, rfl⟩ := mem_tall.mp hf
  obtain ⟨b, hb, rfl⟩ := List.mem_map.mp ht
  obtain ⟨s, hs, hb⟩ := List.mem_flatMap.mp hb
  have hslide := apart_frontmatter hr (slide_start_of_block h hs hb).2
  exact (hslide.symm.of_within (within_slide h hs hb)).symm

theorem slideFolds_blockFolds (h : create limits uri version content sequenceType = .ok d) {f g : Fold}
    (hf : f ∈ tall (d.slides.map (·.range))) (hg : g ∈ tall (d.blocks.map (·.range))) :
    f.Apart g ∨ g.Within f := by
  obtain ⟨r, hr, htall, rfl⟩ := mem_tall.mp hf
  obtain ⟨s, hs, rfl⟩ := List.mem_map.mp hr
  obtain ⟨t, ht, -, rfl⟩ := mem_tall.mp hg
  obtain ⟨b, hb, rfl⟩ := List.mem_map.mp ht
  obtain ⟨s', hs', hb⟩ := List.mem_flatMap.mp hb
  have hwithin := within_slide h hs' hb
  rcases eq_or_apart h hs hs' (slide_start_of_tall h hs htall).1 (slide_start_of_block h hs' hb).1 with
    rfl | hapart
  · exact Or.inr hwithin
  · exact Or.inl (hapart.symm.of_within hwithin).symm

/-- Of any two regions both are apart, or one lies in the other. -/
theorem pairwise_folds (h : create limits uri version content sequenceType = .ok d) :
    (folds d).Pairwise fun f g => f.Apart g ∨ f.Within g ∨ g.Within f := by
  rw [folds, List.pairwise_append, List.pairwise_append]
  refine ⟨⟨?_, (pairwise_slideFolds h).imp Or.inl, ?_⟩, (pairwise_blockFolds h).imp Or.inl, ?_⟩
  · cases d.frontmatter with
    | none => exact .nil
    | some r => exact List.pairwise_singleton _ _
  · intro f hf g hg
    obtain ⟨r, hr, rfl⟩ := Option.map_eq_some_iff.mp (Option.mem_toList.mp hf)
    exact Or.inl (frontmatter_slideFolds h hr hg)
  · intro f hf g hg
    rcases List.mem_append.mp hf with hf | hf
    · obtain ⟨r, hr, rfl⟩ := Option.map_eq_some_iff.mp (Option.mem_toList.mp hf)
      exact Or.inl (frontmatter_blockFolds h hr hg)
    · exact (slideFolds_blockFolds h hf hg).imp_right Or.inr

/-- The regions of a deck form a laminar family.  Each has more than one line, all of them in the
deck; of any two, both are apart or one lies in the other; a block lies in its slide, and the front
matter is apart from the slides. -/
theorem folds_laminar (h : create limits uri version content sequenceType = .ok d) :
    (∀ f ∈ folds d, f.first < f.last ∧ f.last < d.lineCount) ∧
    (folds d).Pairwise (fun f g => f.Apart g ∨ f.Within g ∨ g.Within f) ∧
    (∀ s ∈ d.slides, ∀ b ∈ s.blocks, (Fold.ofRange b.range).Within (Fold.ofRange s.range)) ∧
    ∀ r ∈ d.frontmatter, ∀ f ∈ tall (d.slides.map (·.range)), (Fold.ofRange r).Apart f := by
  refine ⟨fun f hf => ?_, pairwise_folds h, fun s hs b hb => within_slide h hs hb,
    fun r hr f hf => frontmatter_slideFolds h hr hf⟩
  obtain ⟨r, hfits, htall, rfl⟩ := exists_range_of_mem_folds h hf
  exact ⟨htall, hfits.in_deck⟩

/-- Front matter, a slide with a closed and an unclosed block, and one without lines. -/
def nestedFoldsDeck : String :=
  "---\na: b\n---\n# A\n\x60\x60\x60action\ntype: wait\n\x60\x60\x60\n" ++
    "\x60\x60\x60action\n\x60\x60\x60js\n---"

theorem folds_laminar_openBlock :
    ∃ d, create .usual "a" 1 nestedFoldsDeck "sequence" = .ok d ∧
      folds d = [⟨0, 2⟩, ⟨3, 8⟩, ⟨4, 6⟩, ⟨7, 8⟩] ∧
      (folds d).Pairwise (fun f g => f.Apart g ∨ f.Within g ∨ g.Within f) := by
  obtain ⟨d, hd, hcheck⟩ := exists_eq_ok_of_any (x := create .usual "a" 1 nestedFoldsDeck "sequence")
    (p := fun d => decide (folds d = [⟨0, 2⟩, ⟨3, 8⟩, ⟨4, 6⟩, ⟨7, 8⟩])) (by decide +kernel)
  exact ⟨d, hd, of_decide_eq_true hcheck, (folds_laminar hd).2.1⟩

end Outline
end TalkDeck
