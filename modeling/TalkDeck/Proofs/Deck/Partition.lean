import Mathlib.Logic.ExistsUnique
import TalkDeck.Proofs.Deck.Boundary
import TalkDeck.Proofs.Position

/-
Slides partition a deck.

The spans between boundaries are read off the boundaries by number: the slide of number `i` begins
after the boundary of number `i - 1` and ends before the one of number `i`.  What is proved of the
spans, by induction on the boundaries, is that they hold every line but the boundaries and the front
matter, each line once; and that their ranges follow each other.  The second needs a look at the
empty slide at the end of a deck, which has no line of its own and is put at the end of the last
boundary: that is after the empty slide at the start of the same line, since a delimiter is not
empty.
-/

namespace TalkDeck
namespace Document

variable {limits : Limits} {d : Document} {uri content sequenceType : String} {version : Int}

/-! ## Spans by number -/

theorem getElem?_spans {start size : Nat} {bs : List Nat} {i : Nat} (h : i ≤ bs.length) :
    (spans start bs size)[i]? =
      some (if i = 0 then start else bs.getD (i - 1) size + 1, bs.getD i size) := by
  induction bs generalizing start i with
  | nil =>
    obtain rfl : i = 0 := Nat.le_zero.mp h
    rfl
  | cons b bs ih =>
    cases i with
    | zero => rfl
    | succ i =>
      rw [spans, List.getElem?_cons_succ, ih (Nat.le_of_succ_le_succ h)]
      cases i with
      | zero => rfl
      | succ j => rfl

/-- A line that is no boundary is in a span. -/
theorem exists_span {start size n : Nat} {bs : List Nat} (hstart : start ≤ n) (hsize : n < size)
    (hn : n ∉ bs) :
    ∃ (i : Nat) (p : Nat × Nat), (spans start bs size)[i]? = some p ∧ p.1 ≤ n ∧ n < p.2 := by
  induction bs generalizing start with
  | nil => exact ⟨0, (start, size), rfl, hstart, hsize⟩
  | cons b bs ih =>
    rw [List.mem_cons, not_or] at hn
    rcases Nat.lt_or_gt_of_ne hn.1 with hlt | hgt
    · exact ⟨0, (start, b), rfl, hstart, hlt⟩
    · obtain ⟨i, p, hp, h⟩ := ih hgt hn.2
      exact ⟨i + 1, p, hp, h⟩

/-- No span reaches a boundary. -/
theorem not_mem_span {start size b : Nat} {bs : List Nat} {p : Nat × Nat}
    (hsorted : bs.Pairwise (· < ·)) (hb : b ∈ bs) (hp : p ∈ spans start bs size) :
    ¬ (p.1 ≤ b ∧ b < p.2) := by
  induction bs generalizing start with
  | nil => cases hb
  | cons c bs ih =>
    obtain ⟨hfirst, hrest⟩ := List.pairwise_cons.mp hsorted
    rw [spans] at hp
    rcases List.mem_cons.mp hp with rfl | hp
    · rcases List.mem_cons.mp hb with rfl | hb
      · omega
      · have hlt := hfirst b hb
        omega
    · rcases List.mem_cons.mp hb with rfl | hb
      · rcases (mem_spans hp).1 with heq | ⟨m, hm, heq⟩
        · omega
        · have hlt := hfirst m hm
          omega
      · exact ih hrest hb hp

/-- Each span ends before the next begins. -/
theorem pairwise_spans {start size : Nat} {bs : List Nat} (hsorted : bs.Pairwise (· < ·)) :
    (spans start bs size).Pairwise fun p q => p.2 < q.1 := by
  induction bs generalizing start with
  | nil => exact List.pairwise_singleton _ _
  | cons b bs ih =>
    obtain ⟨hfirst, hrest⟩ := List.pairwise_cons.mp hsorted
    rw [spans]
    refine List.pairwise_cons.mpr ⟨?_, ih hrest⟩
    intro q hq
    rcases (mem_spans hq).1 with heq | ⟨m, hm, heq⟩
    · show b < q.1
      omega
    · have hlt := hfirst m hm
      show b < q.1
      omega

theorem pairwise_boundariesFrom (n : Nat) (inCode : Bool) (ls : List Line) :
    (boundariesFrom n inCode ls).Pairwise (· < ·) := by
  induction ls generalizing n inCode with
  | nil => exact List.Pairwise.nil
  | cons l ls ih =>
    rw [boundariesFrom]
    split
    · exact ih _ _
    · split
      · refine List.pairwise_cons.mpr ⟨?_, ih _ _⟩
        intro m hm
        obtain ⟨i, -, rfl, -⟩ := mem_boundariesFrom.mp hm
        omega
      · exact ih _ _

/-! ## Ranges of spans -/

/-- The range of the slide on a span of lines. -/
def spanRange (all : List Line) (p : Nat × Nat) : Range :=
  if p.1 < p.2 then ⟨⟨p.1, 0⟩, ⟨p.2 - 1, (all.getD (p.2 - 1) []).length⟩⟩
  else emptyRange all p.1

/-- A slide between two boundaries ends at the second at the latest. -/
theorem spanRange_stop_le {all : List Line} {first beyond : Nat} (hle : first ≤ beyond)
    (hsize : beyond < all.length) :
    Position.le (spanRange all (first, beyond)).stop ⟨beyond, 0⟩ := by
  unfold spanRange emptyRange Position.le
  split
  · left
    show beyond - 1 < beyond
    have hlt : first < beyond := by assumption
    omega
  · have heq : first ≤ all.length - 1 := by omega
    rw [if_pos heq]
    show first < beyond ∨ first = beyond ∧ 0 ≤ 0
    omega

/-- A slide after a boundary begins after the start of that line, even where only its end is
left. -/
theorem lt_spanRange_start {all : List Line} {b : Nat} {p : Nat × Nat} (hb : b < all.length)
    (hlength : 0 < (all.getD b []).length) (hfirst : b < p.1) :
    Position.lt ⟨b, 0⟩ (spanRange all p).start := by
  unfold spanRange emptyRange Position.lt
  split
  · exact Or.inl hfirst
  · split
    · exact Or.inl hfirst
    · next hgt =>
      -- The slide is put at the end of the last line, which may be the boundary itself.
      by_cases hlast : b = all.length - 1
      · right
        have hget : all.getLast?.getD [] = all.getD b [] := by
          rw [List.getLast?_eq_getElem?, ← hlast, List.getD_eq_getElem?_getD]
        refine ⟨hlast, ?_⟩
        show 0 < (all.getLast?.getD []).length
        rw [hget]
        exact hlength
      · left
        show b < all.length - 1
        omega

theorem spanRange_start_le_stop (all : List Line) (p : Nat × Nat) :
    Position.le (spanRange all p).start (spanRange all p).stop := by
  unfold spanRange emptyRange
  split
  · unfold Position.le
    show p.1 < p.2 - 1 ∨ p.1 = p.2 - 1 ∧ 0 ≤ _
    omega
  · split
    · exact Position.le_refl _
    · exact Position.le_refl _

/-- The ranges of the spans follow each other when boundaries are lines that are not empty. -/
theorem pairwise_spanRange {all : List Line} {start : Nat} {bs : List Nat}
    (hsorted : bs.Pairwise (· < ·)) (hstart : ∀ b ∈ bs, start ≤ b)
    (hbs : ∀ b ∈ bs, b < all.length ∧ 0 < (all.getD b []).length) :
    (spans start bs all.length).Pairwise fun p q =>
      Position.lt (spanRange all p).stop (spanRange all q).start := by
  induction bs generalizing start with
  | nil => exact List.pairwise_singleton _ _
  | cons b bs ih =>
    obtain ⟨hfirst, hrest⟩ := List.pairwise_cons.mp hsorted
    obtain ⟨hsize, hlength⟩ := hbs b List.mem_cons_self
    have hnext : (spans start (b :: bs) all.length).Pairwise fun p q => p.2 < q.1 :=
      pairwise_spans hsorted
    rw [spans] at hnext ⊢
    refine List.pairwise_cons.mpr
      ⟨?_, ih hrest hfirst fun c hc => hbs c (List.mem_cons_of_mem b hc)⟩
    intro q hq
    exact Position.lt_of_le_of_lt
      (spanRange_stop_le (hstart b List.mem_cons_self) hsize)
      (lt_spanRange_start hsize hlength ((List.pairwise_cons.mp hnext).1 q hq))

/-! ## The slides of a deck -/

/-- The boundaries are lines of the deck with something on them. -/
theorem boundary_length_pos {b : Nat} (h : b ∈ d.boundaries) :
    b < d.lineCount ∧ 0 < (d.lines.getD b []).length := by
  obtain ⟨-, hsize, hl, -⟩ := mem_boundaries.mp h
  have hlength := Line.three_le_length_of_isDelimiter hl
  refine ⟨hsize, ?_⟩
  rw [List.getD_eq_getElem?_getD]
  exact Nat.lt_of_lt_of_le (by omega) hlength

theorem getLast?_slice {all : List Line} {first beyond : Nat} (hlt : first < beyond)
    (hle : beyond ≤ all.length) :
    ((all.drop first).take (beyond - first)).getLast?.getD [] = all.getD (beyond - 1) [] := by
  have hlength : ((all.drop first).take (beyond - first)).length = beyond - first := by
    rw [List.length_take, List.length_drop]
    omega
  rw [List.getLast?_eq_getElem?, hlength, List.getElem?_take_of_lt (by omega), List.getElem?_drop,
    List.getD_eq_getElem?_getD]
  congr 2
  omega

/-- A slide has its number, the range of its span, and no content without lines. -/
theorem slideOf_spec {all : List Line} {index : Nat} {p : Nat × Nat}
    {s : Slide} (hle : p.2 ≤ all.length)
    (h : slideOf limits sequenceType all index p.1 p.2 = .ok s) :
    s.index = index ∧ s.range = spanRange all p ∧
      (p.2 ≤ p.1 → s = ⟨index, emptyRange all p.1, none, [], [], []⟩) := by
  rcases Nat.lt_or_ge p.1 p.2 with hlt | hge
  · obtain ⟨ls, rfl, hindex, hrange, -⟩ := (slideOf_eq_ok_iff hlt).mp h
    refine ⟨hindex, ?_, fun hge => absurd hlt (Nat.not_lt.mpr hge)⟩
    rw [hrange, getLast?_slice hlt hle, spanRange, if_pos hlt]
  · rw [slideOf_empty hge] at h
    obtain rfl := Except.ok.inj h
    refine ⟨rfl, ?_, fun _ => rfl⟩
    rw [spanRange, if_neg (Nat.not_lt.mpr hge)]

theorem slide_of_getElem?
    (h : create limits uri version content sequenceType = .ok d) {i : Nat} {s : Slide}
    (hs : d.slides[i]? = some s) :
    ∃ p, d.slideSpans[i]? = some p ∧ slideOf limits sequenceType d.lines i p.1 p.2 = .ok s := by
  obtain ⟨hlength, hget⟩ := List.forall₂_iff_get.mp (slides_of_create h)
  obtain ⟨hi, rfl⟩ := List.getElem?_eq_some_iff.mp hs
  have hi' : i < d.slideSpans.length := by
    rw [List.length_zipIdx] at hlength
    omega
  refine ⟨d.slideSpans[i], List.getElem?_eq_getElem hi', ?_⟩
  have hslide := hget i (by omega) hi
  simp only [List.get_eq_getElem, List.getElem_zipIdx, Nat.zero_add] at hslide
  exact hslide

theorem length_slides
    (h : create limits uri version content sequenceType = .ok d) :
    d.slides.length = d.boundaries.length + 1 := by
  have hlength := (slides_of_create h).length_eq
  rw [List.length_zipIdx, slideSpans, length_spans] at hlength
  exact hlength.symm

/-- The first line of the slide of a number, after the boundary before it. -/
def slideStart (d : Document) (i : Nat) : Nat :=
  if i = 0 then bodyStart d.frontmatter else d.boundaries.getD (i - 1) d.lineCount + 1

/-- The line after the slide of a number: its boundary, or the end of the deck. -/
def slideEnd (d : Document) (i : Nat) : Nat := d.boundaries.getD i d.lineCount

theorem getElem?_slideSpans {i : Nat} (h : i ≤ d.boundaries.length) :
    d.slideSpans[i]? = some (d.slideStart i, d.slideEnd i) :=
  getElem?_spans h

theorem slides_pairwise
    (h : create limits uri version content sequenceType = .ok d) :
    d.slides.Pairwise fun s t => Position.lt s.range.stop t.range.start := by
  have hspans : d.slideSpans.Pairwise fun p q =>
      Position.lt (spanRange d.lines p).stop (spanRange d.lines q).start :=
    pairwise_spanRange (pairwise_boundariesFrom _ _ _) (fun b hb => (mem_boundaries.mp hb).1)
      fun b hb => boundary_length_pos hb
  refine List.pairwise_iff_getElem.mpr fun i j hi hj hij => ?_
  obtain ⟨p, hp, hs⟩ := slide_of_getElem? h (List.getElem?_eq_getElem hi)
  obtain ⟨q, hq, ht⟩ := slide_of_getElem? h (List.getElem?_eq_getElem hj)
  rw [(slideOf_spec (snd_le_of_mem_slideSpans (List.mem_of_getElem? hp)) hs).2.1,
    (slideOf_spec (snd_le_of_mem_slideSpans (List.mem_of_getElem? hq)) ht).2.1]
  obtain ⟨hi', rfl⟩ := List.getElem?_eq_some_iff.mp hp
  obtain ⟨hj', rfl⟩ := List.getElem?_eq_some_iff.mp hq
  exact List.pairwise_iff_getElem.mp hspans i j hi' hj' hij

/-! ## The parts of a deck -/

/-- What a line of a deck can belong to. -/
inductive Part where
  | frontmatter
  | boundary
  | slide (i : Nat)
deriving DecidableEq, Repr

/-- Whether a line lies in a part.  Of a slide without lines the range says nothing. -/
def LiesIn (d : Document) (n : Nat) : Part → Prop
  | .frontmatter => ∃ r ∈ d.frontmatter, r.start.line ≤ n ∧ n ≤ r.stop.line
  | .boundary => n ∈ d.boundaries
  | .slide i => d.slideStart i < d.slideEnd i ∧
      ∃ s, d.slides[i]? = some s ∧ s.range.start.line ≤ n ∧ n ≤ s.range.stop.line

theorem liesIn_frontmatter_iff
    (h : create limits uri version content sequenceType = .ok d) {n : Nat} :
    d.LiesIn n .frontmatter ↔ n < bodyStart d.frontmatter := by
  obtain ⟨-, -, -, hfront, -⟩ := create_eq_ok_iff.mp h
  unfold LiesIn
  cases hr : d.frontmatter with
  | none => simp [bodyStart]
  | some r =>
    rw [hfront] at hr
    obtain ⟨m, l, -, -, -, rfl⟩ := frontmatterOf_eq_some hr
    show (∃ r ∈ some (⟨⟨0, 0⟩, ⟨m, l.length⟩⟩ : Range), r.start.line ≤ n ∧ n ≤ r.stop.line) ↔
      n < m + 1
    constructor
    · rintro ⟨r, hr, -, hle⟩
      obtain rfl := Option.some.inj hr
      exact Nat.lt_succ_of_le hle
    · intro hlt
      exact ⟨_, rfl, Nat.zero_le n, Nat.le_of_lt_succ hlt⟩

theorem liesIn_slide_iff
    (h : create limits uri version content sequenceType = .ok d) {n i : Nat} :
    d.LiesIn n (.slide i) ↔ ∃ p, d.slideSpans[i]? = some p ∧ p.1 ≤ n ∧ n < p.2 := by
  have hlength := length_slides h
  unfold LiesIn
  constructor
  · rintro ⟨hlt, s, hs, hstart, hstop⟩
    have hi : i ≤ d.boundaries.length := by
      have hi := (List.getElem?_eq_some_iff.mp hs).1
      omega
    have hspan := getElem?_slideSpans hi
    obtain ⟨p, hp, hslide⟩ := slide_of_getElem? h hs
    obtain rfl := Option.some.inj (hspan.symm.trans hp)
    have hrange := (slideOf_spec (snd_le_of_mem_slideSpans (List.mem_of_getElem? hp)) hslide).2.1
    rw [hrange, spanRange, if_pos hlt] at hstart hstop
    refine ⟨_, hspan, hstart, ?_⟩
    show n < d.slideEnd i
    have hstop' : n ≤ d.slideEnd i - 1 := hstop
    omega
  · rintro ⟨p, hp, hstart, hstop⟩
    have hi : i ≤ d.boundaries.length := by
      have hi := (List.getElem?_eq_some_iff.mp hp).1
      rw [slideSpans, length_spans] at hi
      omega
    obtain rfl := Option.some.inj (hp.symm.trans (getElem?_slideSpans hi))
    have hi' : i < d.slides.length := by omega
    have hs := List.getElem?_eq_getElem hi'
    obtain ⟨q, hq, hslide⟩ := slide_of_getElem? h hs
    obtain rfl := Option.some.inj (hp.symm.trans hq)
    have hlt : d.slideStart i < d.slideEnd i := Nat.lt_of_le_of_lt hstart hstop
    have hrange := (slideOf_spec (snd_le_of_mem_slideSpans (List.mem_of_getElem? hp)) hslide).2.1
    refine ⟨hlt, _, hs, ?_⟩
    rw [hrange, spanRange, if_pos hlt]
    exact ⟨hstart, Nat.le_sub_one_of_lt hstop⟩

theorem exists_liesIn
    (h : create limits uri version content sequenceType = .ok d) {n : Nat} (hn : n < d.lineCount) :
    ∃ part, d.LiesIn n part := by
  by_cases hfront : n < bodyStart d.frontmatter
  · exact ⟨.frontmatter, (liesIn_frontmatter_iff h).mpr hfront⟩
  · by_cases hb : n ∈ d.boundaries
    · exact ⟨.boundary, hb⟩
    · obtain ⟨i, p, hp⟩ := exists_span (Nat.not_lt.mp hfront) hn hb
      exact ⟨.slide i, (liesIn_slide_iff h).mpr ⟨p, hp⟩⟩

/-- The first line of a span is after the front matter. -/
theorem bodyStart_le_of_mem_slideSpans {p : Nat × Nat} (h : p ∈ d.slideSpans) :
    bodyStart d.frontmatter ≤ p.1 := by
  rcases (mem_spans h).1 with heq | ⟨b, hb, heq⟩
  · exact Nat.le_of_eq heq.symm
  · have hstart := (mem_boundaries.mp hb).1
    omega

theorem not_liesIn_boundary_of_frontmatter
    (h : create limits uri version content sequenceType = .ok d) {n : Nat}
    (hn : d.LiesIn n .frontmatter) : ¬d.LiesIn n .boundary := by
  intro hb
  rw [liesIn_frontmatter_iff h] at hn
  have hstart := (mem_boundaries.mp hb).1
  omega

theorem not_liesIn_slide_of_frontmatter
    (h : create limits uri version content sequenceType = .ok d) {n i : Nat}
    (hn : d.LiesIn n .frontmatter) : ¬d.LiesIn n (.slide i) := by
  intro hi
  rw [liesIn_frontmatter_iff h] at hn
  obtain ⟨p, hp, hle, -⟩ := (liesIn_slide_iff h).mp hi
  have hstart := bodyStart_le_of_mem_slideSpans (List.mem_of_getElem? hp)
  omega

theorem not_liesIn_slide_of_boundary
    (h : create limits uri version content sequenceType = .ok d) {n i : Nat}
    (hn : d.LiesIn n .boundary) : ¬d.LiesIn n (.slide i) := by
  intro hi
  have hsorted : d.boundaries.Pairwise (· < ·) := pairwise_boundariesFrom _ _ _
  obtain ⟨p, hp, hin⟩ := (liesIn_slide_iff h).mp hi
  exact not_mem_span hsorted hn (List.mem_of_getElem? hp) hin

/-- A line of a slide is above all lines of the slides behind it. -/
theorem not_liesIn_slide_of_lt
    (h : create limits uri version content sequenceType = .ok d) {n i j : Nat} (hij : i < j)
    (hn : d.LiesIn n (.slide i)) : ¬d.LiesIn n (.slide j) := by
  intro hj
  obtain ⟨p, hp, -, hstop⟩ := (liesIn_slide_iff h).mp hn
  obtain ⟨q, hq, hstart, -⟩ := (liesIn_slide_iff h).mp hj
  obtain ⟨hi', rfl⟩ := List.getElem?_eq_some_iff.mp hp
  obtain ⟨hj', rfl⟩ := List.getElem?_eq_some_iff.mp hq
  have hsorted : d.boundaries.Pairwise (· < ·) := pairwise_boundariesFrom _ _ _
  have hlt : d.slideSpans[i].2 < d.slideSpans[j].1 :=
    List.pairwise_iff_getElem.mp (pairwise_spans hsorted) i j hi' hj' hij
  omega

theorem liesIn_unique
    (h : create limits uri version content sequenceType = .ok d) {n : Nat} {a b : Part}
    (ha : d.LiesIn n a) (hb : d.LiesIn n b) : a = b := by
  -- The three kinds of parts exclude each other, and so do two slides.
  cases a with
  | frontmatter =>
    cases b with
    | frontmatter => rfl
    | boundary => exact absurd hb (not_liesIn_boundary_of_frontmatter h ha)
    | slide j => exact absurd hb (not_liesIn_slide_of_frontmatter h ha)
  | boundary =>
    cases b with
    | frontmatter => exact absurd ha (not_liesIn_boundary_of_frontmatter h hb)
    | boundary => rfl
    | slide j => exact absurd hb (not_liesIn_slide_of_boundary h ha)
  | slide i =>
    cases b with
    | frontmatter => exact absurd ha (not_liesIn_slide_of_frontmatter h hb)
    | boundary => exact absurd ha (not_liesIn_slide_of_boundary h hb)
    | slide j =>
      rcases Nat.lt_trichotomy i j with hij | rfl | hij
      · exact absurd hb (not_liesIn_slide_of_lt h hij ha)
      · rfl
      · exact absurd ha (not_liesIn_slide_of_lt h hij hb)

/-- At most one slide holds a position. -/
theorem slide_index_unique
    (h : create limits uri version content sequenceType = .ok d) {p : Position} {i j : Nat}
    {s t : Slide} (hs : d.slides[i]? = some s) (ht : d.slides[j]? = some t)
    (hsp : s.range.holds p = true) (htp : t.range.holds p = true) : i = j := by
  have hless : ∀ {i j : Nat} {s t : Slide}, d.slides[i]? = some s → d.slides[j]? = some t →
      s.range.holds p = true → i < j → t.range.holds p = false := by
    intro i j s t hs ht hsp hij
    obtain ⟨hi, rfl⟩ := List.getElem?_eq_some_iff.mp hs
    obtain ⟨hj, rfl⟩ := List.getElem?_eq_some_iff.mp ht
    exact Range.not_holds_of_lt
      (List.pairwise_iff_getElem.mp (slides_pairwise h) i j hi hj hij) hsp
  rcases Nat.lt_trichotomy i j with hij | hij | hij
  · rw [hless hs ht hsp hij] at htp
    cases htp
  · exact hij
  · rw [hless ht hs htp hij] at hsp
    cases hsp

/-- Slides partition a deck.  Its boundaries are the delimiters after the front matter with an even
number of fences before them; there is one more slide than boundaries, numbered in order, each from
one boundary to the next; every line lies in exactly one part; and the ranges of the slides follow
each other, so that no two of them hold one position. -/
theorem slides_partition
    (h : create limits uri version content sequenceType = .ok d) :
    (∀ n, n ∈ d.boundaries ↔ bodyStart d.frontmatter ≤ n ∧ n < d.lineCount ∧
      (d.line n).isDelimiter = true ∧
      ((d.lines.take n).drop (bodyStart d.frontmatter)).countP (·.isFence) % 2 = 0) ∧
    d.boundaries.Pairwise (· < ·) ∧
    d.slides.length = d.boundaries.length + 1 ∧
    (∀ (i : Nat) (s : Slide), d.slides[i]? = some s → s.index = i ∧
      (d.slideStart i < d.slideEnd i → s.range =
        ⟨⟨d.slideStart i, 0⟩, ⟨d.slideEnd i - 1, (d.line (d.slideEnd i - 1)).length⟩⟩) ∧
      (d.slideEnd i ≤ d.slideStart i → s.range.start = s.range.stop ∧
        s.title = none ∧ s.blocks = [] ∧ s.links = [] ∧ s.directives = [])) ∧
    (∀ n, n < d.lineCount → ∃! part, d.LiesIn n part) ∧
    d.slides.Pairwise (fun s t => Position.lt s.range.stop t.range.start) ∧
    (∀ s ∈ d.slides, Position.le s.range.start s.range.stop) ∧
    (∀ (p : Position) (i j : Nat) (s t : Slide), d.slides[i]? = some s → d.slides[j]? = some t →
      s.range.holds p = true → t.range.holds p = true → i = j) := by
  have hspec : ∀ i s, d.slides[i]? = some s → s.index = i ∧
      s.range = spanRange d.lines (d.slideStart i, d.slideEnd i) ∧
      (d.slideEnd i ≤ d.slideStart i →
        s = ⟨i, emptyRange d.lines (d.slideStart i), none, [], [], []⟩) := by
    intro i s hs
    obtain ⟨p, hp, hslide⟩ := slide_of_getElem? h hs
    have hi : i ≤ d.boundaries.length := by
      have hi := (List.getElem?_eq_some_iff.mp hs).1
      have hlength := length_slides h
      omega
    obtain rfl := Option.some.inj (hp.symm.trans (getElem?_slideSpans hi))
    exact slideOf_spec (snd_le_of_mem_slideSpans (List.mem_of_getElem? hp)) hslide
  refine ⟨fun n => mem_boundaries, pairwise_boundariesFrom _ _ _, length_slides h, ?_, ?_,
    slides_pairwise h, ?_, fun p i j s t => slide_index_unique h⟩
  · intro i s hs
    obtain ⟨hindex, hrange, hempty⟩ := hspec i s hs
    refine ⟨hindex, fun hlt => ?_, fun hge => ?_⟩
    · rw [hrange, spanRange, if_pos hlt, List.getD_eq_getElem?_getD]
      rfl
    · obtain rfl := hempty hge
      refine ⟨?_, rfl, rfl, rfl, rfl⟩
      show (emptyRange d.lines (d.slideStart i)).start = (emptyRange d.lines (d.slideStart i)).stop
      unfold emptyRange
      split <;> rfl
  · intro n hn
    obtain ⟨part, hpart⟩ := exists_liesIn h hn
    exact ⟨part, hpart, fun other hother => liesIn_unique h hother hpart⟩
  · intro s hs
    obtain ⟨i, hi, rfl⟩ := List.getElem_of_mem hs
    rw [(hspec i _ (List.getElem?_eq_getElem hi)).2.1]
    exact spanRange_start_le_stop d.lines _

/-- Three boundaries at the end of a deck, the last of which is its last line, leave three slides
without lines. -/
theorem slides_partition_without_lines :
    ∃ d, create .usual "a" 1 "# A\n---\n---\n---" "sequence" = .ok d ∧ d.boundaries = [1, 2, 3] ∧
      d.slides.length = 4 ∧
      d.slides.Pairwise (fun s t => Position.lt s.range.stop t.range.start) := by
  obtain ⟨d, hd, hcheck⟩ := exists_eq_ok_of_any
    (x := create .usual "a" 1 "# A\n---\n---\n---" "sequence")
    (p := fun d => decide (d.boundaries = [1, 2, 3])) (by decide +kernel)
  obtain ⟨-, -, hlength, -, -, hpairwise, -⟩ := slides_partition hd
  have hboundaries := of_decide_eq_true hcheck
  rw [hboundaries] at hlength
  exact ⟨d, hd, hboundaries, hlength, hpairwise⟩

end Document
end TalkDeck
