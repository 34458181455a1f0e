import TalkDeck.Proofs.Deck.Located
import TalkDeck.Proofs.Deck.Raws
import TalkDeck.Proofs.Deck.Scan

/-
Two ways to tell code from text.

A boundary is a delimiter with an even number of fences before it, whatever stands after their
backquotes.  A block opens at an action fence and closes at a bare one, and to it all other fences are
content (`Block.found_of_mem_scan`).  A slide that ends in a delimiter therefore has an even number of
fences (`Document.fences_slide`), but one of them may be an action fence that nothing closes: then the
fences before it and those in its content are odd in number, and one of them must have been taken for
the end of code.  So a delimiter cuts a block only where the two ways part, which is the theorem this
file exists for (`Document.closed_before_delimiter`).
-/

namespace TalkDeck

theorem Line.isFence_of_isActionFence {l : Line} (h : l.isActionFence = true) : l.isFence = true := by
  rw [isActionFence, Option.any_eq_true] at h
  obtain ⟨rest, hrest, -⟩ := h
  rw [Text.strip?_eq_some_iff.mp hrest, List.append_assoc, isFence,
    Text.strip?_eq_some_iff.mpr rfl]
  rfl

namespace Block

namespace Raw.Found

variable {r : Raw} {n : Nat} {ls before tail : List Line} {fence : Line}

/-- A block is left open if nothing below its fence closes it. -/
theorem unclosed_iff (h : r.Found n ls before tail fence) :
    r.unclosed = true ↔ ∀ l ∈ r.content ++ tail, l.isFenceClose = false := by
  constructor
  · intro hopen l hl
    cases h.stops with
    | closed flag close =>
      rw [hopen] at flag
      cases flag
    | unclosed flag =>
      rw [List.append_nil] at hl
      exact h.inside l hl
  · intro hnone
    cases h.stops with
    | @closed fence rest flag close =>
      rw [hnone fence (List.mem_append_right _ List.mem_cons_self)] at close
      cases close
    | unclosed flag => exact flag

/-- The fences of a slide whose last block is left open. -/
theorem countP_of_unclosed (h : r.Found n ls before tail fence) (hopen : r.unclosed = true) :
    ls.countP Line.isFence = before.countP Line.isFence + (r.content.countP Line.isFence + 1) := by
  have htail : tail = [] := by
    cases h.stops with
    | closed flag =>
      rw [hopen] at flag
      cases flag
    | unclosed => rfl
  rw [h.lines, htail, List.append_nil, List.countP_append,
    List.countP_cons_of_pos (Line.isFence_of_isActionFence h.opens)]

end Raw.Found

end Block

namespace Document

variable {limits : Limits} {uri content sequenceType : String} {version : Int} {d : Document}

/-! ## Fences between two lines -/

/-- How many fences there are from line `a` up to line `b`. -/
def fences (d : Document) (a b : Nat) : Nat := ((d.lines.take b).drop a).countP Line.isFence

theorem fences_self (d : Document) (a : Nat) : d.fences a a = 0 := by
  rw [fences, List.drop_eq_nil_of_le (List.length_take_le a d.lines)]
  rfl

theorem fences_eq (d : Document) (a k : Nat) :
    d.fences a (a + k) = ((d.lines.drop a).take k).countP Line.isFence := by
  rw [fences, List.take_drop]

theorem fences_add {a b c : Nat} (hab : a ≤ b) (hbc : b ≤ c) :
    d.fences a b + d.fences b c = d.fences a c := by
  obtain ⟨j, rfl⟩ := Nat.exists_eq_add_of_le hab
  obtain ⟨k, rfl⟩ := Nat.exists_eq_add_of_le hbc
  rw [fences_eq, fences_eq, Nat.add_assoc, fences_eq, List.take_add, List.countP_append,
    List.drop_drop]

theorem fences_succ_of_isDelimiter {n : Nat} (hn : n < d.lineCount)
    (h : (d.line n).isDelimiter = true) : d.fences n (n + 1) = 0 := by
  have hline : d.lines[n]? = some (d.line n) := by
    rw [line, List.getElem?_eq_getElem hn, Option.getD_some]
  have hfence : ¬(d.line n).isFence = true := by
    intro hfence
    rw [Line.isDelimiter_of_isFence hfence] at h
    cases h
  rw [fences_eq, List.take_one, List.head?_drop, hline, Option.toList_some,
    List.countP_singleton, if_neg hfence]

theorem getD_mem_boundaries {i : Nat} (hi : i < d.boundaries.length) :
    d.boundaries.getD i d.lineCount ∈ d.boundaries := by
  rw [List.getD_eq_getElem?_getD, List.getElem?_eq_getElem hi, Option.getD_some]
  exact List.getElem_mem hi

/-- A slide begins outside code. -/
theorem fences_slideStart {i : Nat} (hi : i ≤ d.boundaries.length) :
    bodyStart d.frontmatter ≤ d.slideStart i ∧
      d.fences (bodyStart d.frontmatter) (d.slideStart i) % 2 = 0 := by
  unfold slideStart
  split
  · rw [fences_self]
    exact ⟨Nat.le_refl _, rfl⟩
  · have hb := getD_mem_boundaries (d := d) (i := i - 1) (by omega)
    obtain ⟨hle, hsize, hdelimiter, heven⟩ := mem_boundaries.mp hb
    rw [← fences_add hle (Nat.le_succ _), fences_succ_of_isDelimiter hsize hdelimiter]
    exact ⟨Nat.le_succ_of_le hle, heven⟩

/-- A slide that a delimiter ends has an even number of fences. -/
theorem fences_slide {i : Nat} (hi : i < d.boundaries.length)
    (hlines : d.slideStart i ≤ d.slideEnd i) :
    d.fences (d.slideStart i) (d.slideEnd i) % 2 = 0 := by
  obtain ⟨-, -, -, hend⟩ := mem_boundaries.mp (getD_mem_boundaries hi)
  change d.fences (bodyStart d.frontmatter) (d.slideEnd i) % 2 = 0 at hend
  obtain ⟨hle, hstart⟩ := fences_slideStart (Nat.le_of_lt hi)
  have hsum := fences_add hle hlines (d := d)
  omega

/-! ## Blocks before a delimiter -/

theorem countP_lines_unlines {ls : List Line} (h : ∀ l ∈ ls, '\n' ∉ l) :
    (Text.lines (Text.unlines ls)).countP Line.isFence = ls.countP Line.isFence := by
  cases ls with
  | nil => rfl
  | cons l ls => rw [Text.lines_unlines (List.cons_ne_nil l ls) h]

/-- The lines of a slide that has a block, and the block among them. -/
theorem exists_found (h : create limits uri version content sequenceType = .ok d) {i : Nat} {s : Slide}
    {b : Block} (hs : d.slides[i]? = some s) (hb : b ∈ s.blocks) :
    ∃ r o before tail fence, b = Block.ofOutcome sequenceType r o ∧
      r.Found (d.slideStart i)
        ((d.lines.drop (d.slideStart i)).take (d.slideEnd i - d.slideStart i)) before tail fence ∧
      s.range.start.line = d.slideStart i ∧ s.range.stop.line + 1 = d.slideEnd i ∧
      d.slideStart i < d.slideEnd i ∧ d.slideEnd i ≤ d.lineCount := by
  obtain ⟨p, hp, hslide⟩ := slide_of_getElem? h hs
  have hi : i ≤ d.boundaries.length := by
    have hlt := (List.getElem?_eq_some_iff.mp hs).1
    have hlength := length_slides h
    omega
  obtain rfl := Option.some.inj (hp.symm.trans (getElem?_slideSpans hi))
  have hsize := snd_le_of_mem_slideSpans (List.mem_of_getElem? hp)
  rcases Nat.lt_or_ge (d.slideStart i) (d.slideEnd i) with hlt | hge
  · obtain ⟨ls, rfl, -, hrange, -, hblocks, -⟩ := (slideOf_eq_ok_iff hlt).mp hslide
    obtain ⟨r, o, hr, rfl⟩ := mem_scan_of_mem_blocks hblocks hb
    obtain ⟨before, tail, fence, hfound⟩ := Block.found_of_mem_scan hr
    refine ⟨r, o, before, tail, fence, rfl, hfound, ?_, ?_, hlt, hsize⟩
    · rw [hrange]
    · rw [hrange]
      show d.slideEnd i - 1 + 1 = d.slideEnd i
      omega
  · rw [slideOf_empty hge] at hslide
    obtain rfl := Except.ok.inj hslide
    cases hb

theorem fences_of_lines {first k : Nat} {before rest : List Line}
    (h : (d.lines.drop first).take k = before ++ rest) :
    d.fences first (first + before.length) = before.countP Line.isFence := by
  have hlength := congrArg List.length h
  rw [List.length_take, List.length_append] at hlength
  have htake : (d.lines.drop first).take before.length = before := by
    rw [← Nat.min_eq_left (show before.length ≤ k by omega), ← List.take_take, h,
      List.take_left]
  rw [fences_eq, htake]

/-- The lines of a slide below one of its lines. -/
theorem forall_line_iff {first beyond n : Nat} {before rest : List Line} {fence : Line}
    {p : Line → Prop} (hsize : beyond ≤ d.lineCount)
    (hlines : (d.lines.drop first).take (beyond - first) = before ++ fence :: rest)
    (hn : n = first + before.length) :
    (∀ m, n < m → m < beyond → p (d.line m)) ↔ ∀ l ∈ rest, p l := by
  have hlength := congrArg List.length hlines
  rw [List.length_take, List.length_drop, List.length_append, List.length_cons] at hlength
  -- Line `n + 1 + k` of the deck is number `k` below the fence.
  have hget : ∀ k, k < rest.length → rest[k]? = some (d.line (n + 1 + k)) := by
    intro k hk
    have hplace : (before ++ fence :: rest)[before.length + (k + 1)]? = rest[k]? := by
      rw [List.getElem?_append_right (Nat.le_add_right _ _), Nat.add_sub_cancel_left,
        List.getElem?_cons_succ]
    rw [← hplace, ← hlines, List.getElem?_take_of_lt (by omega), List.getElem?_drop,
      show first + (before.length + (k + 1)) = n + 1 + k by omega, line,
      List.getElem?_eq_getElem (show n + 1 + k < d.lines.length by omega), Option.getD_some]
  change beyond ≤ d.lines.length at hsize
  constructor
  · intro h l hl
    obtain ⟨k, hk, rfl⟩ := List.getElem_of_mem hl
    have hline := hget k hk
    rw [List.getElem?_eq_getElem hk] at hline
    rw [Option.some.inj hline]
    exact h _ (by omega) (by omega)
  · intro h m hm hbeyond
    obtain ⟨k, rfl⟩ := Nat.exists_eq_add_of_le (show n + 1 ≤ m from hm)
    exact h _ (List.mem_of_getElem? (hget k (by omega)))

/-- A block of a slide that is not the last is left open exactly if no line below its fence closes it.
It is never left open if the fences before it in its slide and those in its content are both even or
both odd in number: as when its fence stands in text and its content has no fence. -/
theorem closed_before_delimiter (h : create limits uri version content sequenceType = .ok d) {i : Nat}
    {s : Slide} {b : Block} (hs : d.slides[i]? = some s) (hlast : i + 1 < d.slides.length)
    (hb : b ∈ s.blocks) :
    (b.unclosed = true ↔ ∀ n, b.range.start.line < n → n ≤ s.range.stop.line →
      (d.line n).isFenceClose = false) ∧
    (d.fences s.range.start.line b.range.start.line % 2 =
      (Text.lines b.text).countP Line.isFence % 2 → b.unclosed = false) := by
  obtain ⟨r, o, before, tail, fence, rfl, hfound, hstart, hstop, hlt, hsize⟩ := exists_found h hs hb
  have hi : i < d.boundaries.length := by
    have hlength := length_slides h
    omega
  change (r.unclosed = true ↔ ∀ n, r.first < n → n ≤ s.range.stop.line →
    (d.line n).isFenceClose = false) ∧ (d.fences s.range.start.line r.first % 2 =
      (Text.lines (Text.unlines r.content)).countP Line.isFence % 2 → r.unclosed = false)
  constructor
  · rw [hfound.unclosed_iff, ← forall_line_iff hsize hfound.lines hfound.first, ← hstop]
    exact forall₂_congr fun n _ => by rw [Nat.lt_succ_iff]
  · intro hparity
    have heven := fences_slide hi (Nat.le_of_lt hlt)
    rw [← Nat.add_sub_cancel' (Nat.le_of_lt hlt), fences_eq] at heven
    have hnewline : ∀ l ∈ r.content, '\n' ∉ l := fun l hl =>
      Text.not_mem_of_mem_splitAt (List.mem_of_mem_drop (List.mem_of_mem_take
        (hfound.lines ▸ List.mem_append_right _ (List.mem_cons_of_mem _ (List.mem_append_left _ hl)))))
    rw [hstart, hfound.first, fences_of_lines hfound.lines, countP_lines_unlines hnewline] at hparity
    -- Left open, the block would leave an odd number of fences before the delimiter.
    by_contra hopen
    rw [hfound.countP_of_unclosed (Bool.not_eq_false _ ▸ hopen)] at heven
    omega

/-- A block that the slide has to itself, with two more fences in its content. -/
def shownFencesDeck : String :=
  "\x60\x60\x60action\nnote: |\n\x60\x60\x60yaml\n\x60\x60\x60js\n\x60\x60\x60\n---\n# B"

theorem closed_before_delimiter_shownFences :
    ∃ d, create .usual "a" 1 shownFencesDeck "sequence" = .ok d ∧ d.slides.length = 2 ∧
      ∃ s b, d.slides[0]? = some s ∧ b ∈ s.blocks ∧
        (Text.lines b.text).countP Line.isFence = 2 ∧ b.unclosed = false := by
  obtain ⟨d, hd, hcheck⟩ := exists_eq_ok_of_any (x := create .usual "a" 1 shownFencesDeck "sequence")
    (p := fun d => d.slides.length == 2 && (d.slides[0]?).any fun s => s.blocks.any fun b =>
      (Text.lines b.text).countP Line.isFence == 2 &&
        d.fences s.range.start.line b.range.start.line % 2 == 0) (by decide +kernel)
  rw [Bool.and_eq_true, beq_iff_eq, Option.any_eq_true] at hcheck
  obtain ⟨hlength, s, hs, hblock⟩ := hcheck
  obtain ⟨b, hb, hfences⟩ := List.any_eq_true.mp hblock
  rw [Bool.and_eq_true, beq_iff_eq, beq_iff_eq] at hfences
  refine ⟨d, hd, hlength, s, b, hs, hb, hfences.1, ?_⟩
  exact (closed_before_delimiter hd hs (by omega) hb).2 (by rw [hfences.1, hfences.2])

/-- A fence that names a language, where the block was to be closed. -/
def strayFenceDeck : String :=
  "\x60\x60\x60action\ntype: wait\n\x60\x60\x60yaml\n---\n\x60\x60\x60"

/-- The delimiter cuts the block. -/
theorem not_closed_strayFence :
    ∃ d, create .usual "a" 1 strayFenceDeck "sequence" = .ok d ∧ ∃ s ∈ d.slides.dropLast,
      ∃ b ∈ s.blocks, b.unclosed = true := by
  obtain ⟨d, hd, hcheck⟩ := exists_eq_ok_of_any (x := create .usual "a" 1 strayFenceDeck "sequence")
    (p := fun d => decide (∃ s ∈ d.slides.dropLast, ∃ b ∈ s.blocks, b.unclosed = true))
    (by decide +kernel)
  exact ⟨d, hd, of_decide_eq_true hcheck⟩

end Document
end TalkDeck
