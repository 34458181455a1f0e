import TalkDeck.Proofs.Deck.Boundary
import TalkDeck.Proofs.Deck.Down

/-
Two decks joined by a delimiter.

When the first deck ends outside code and its last line belongs to a slide, the delimiter between
the two is a boundary of the joined deck.  The boundaries of the joined deck are then those of the
first, the delimiter, and those of the second moved down; so are its spans, and so are its slides
(`create_join`).
-/

namespace TalkDeck
namespace Document

/-- The line between two joined decks. -/
def delimiter : Line := ['-', '-', '-']

theorem lines_join (a b : String) :
    Text.lines (a ++ "\n---\n" ++ b).toList =
      Text.lines a.toList ++ delimiter :: Text.lines b.toList := by
  have hjoin : (a ++ "\n---\n" ++ b).toList =
      a.toList ++ '\n' :: (delimiter ++ '\n' :: b.toList) := by
    simp [delimiter]
  rw [hjoin, Text.lines, Text.splitAt_append, Text.splitAt_append]
  rfl

/-- The delimiter between the decks is a boundary when the first ends outside code. -/
theorem boundariesFrom_join (start : Nat) (as bs : List Line) (hstart : start ≤ as.length)
    (hfences : oddFences (as.drop start) = false) :
    boundariesFrom start false ((as ++ delimiter :: bs).drop start) =
      boundariesFrom start false (as.drop start) ++
        as.length :: (boundariesFrom 0 false bs).map (· + (as.length + 1)) := by
  have hlength : start + (as.drop start).length = as.length := by
    rw [List.length_drop]
    omega
  rw [List.drop_append_of_le_length hstart, boundariesFrom_append, hlength, hfences,
    ← boundariesFrom_add, Nat.zero_add]
  rfl

/-- A slide that has a line is read the same with more lines at the end of the deck. -/
theorem slideOf_append {limits : Limits} {sequenceType : String} {all : List Line}
    {index first beyond : Nat} {s : Slide} (more : List Line) (hfirst : first < all.length)
    (hbeyond : beyond ≤ all.length)
    (h : slideOf limits sequenceType all index first beyond = .ok s) :
    slideOf limits sequenceType (all ++ more) index first beyond = .ok s := by
  rcases Nat.lt_or_ge first beyond with hlt | hge
  · have hls : ((all ++ more).drop first).take (beyond - first) =
        (all.drop first).take (beyond - first) := by
      rw [List.drop_append_of_le_length (Nat.le_of_lt hfirst), List.take_append_of_le_length]
      rw [List.length_drop]
      omega
    rw [slideOf_eq_ok_iff hlt] at h ⊢
    rw [hls]
    exact h
  · rw [slideOf_empty hge] at h ⊢
    have hrange : emptyRange (all ++ more) first = emptyRange all first := by
      unfold emptyRange
      rw [List.length_append, if_pos (by omega), if_pos (by omega)]
    rw [hrange]
    exact h

/-- The slides read from numbered spans of the lines of a deck. -/
def Slides (limits : Limits) (sequenceType : String) (all : List Line)
    (ps : List ((Nat × Nat) × Nat)) (slides : List Slide) : Prop :=
  List.Forall₂ (fun p s => slideOf limits sequenceType all p.2 p.1.1 p.1.2 = .ok s) ps slides

theorem Slides.append {limits : Limits} {sequenceType : String} {all : List Line}
    {ps : List ((Nat × Nat) × Nat)} {slides : List Slide} (more : List Line)
    (hps : ∀ p ∈ ps, p.1.1 < all.length ∧ p.1.2 ≤ all.length)
    (h : Slides limits sequenceType all ps slides) :
    Slides limits sequenceType (all ++ more) ps slides := by
  induction h with
  | nil => exact List.Forall₂.nil
  | cons hs hrest ih =>
    obtain ⟨hfirst, hbeyond⟩ := hps _ List.mem_cons_self
    exact List.Forall₂.cons (slideOf_append more hfirst hbeyond hs)
      (ih fun p hp => hps p (List.mem_cons_of_mem _ hp))

theorem Slides.down {limits : Limits} {sequenceType : String} {all : List Line}
    {ps : List (Nat × Nat)} {j : Nat} {slides : List Slide} (before : List Line) (i : Nat)
    (hall : all ≠ [])
    (h : Slides limits sequenceType all (ps.zipIdx j) slides) :
    Slides limits sequenceType (before ++ all)
      ((ps.map fun p => (p.1 + before.length, p.2 + before.length)).zipIdx (j + i))
      (slides.map (·.down before.length i)) := by
  induction ps generalizing j slides with
  | nil =>
    obtain rfl := List.forall₂_nil_left_iff.mp h
    exact List.Forall₂.nil
  | cons p ps ih =>
    obtain ⟨s, rest, hs, hrest, rfl⟩ := List.forall₂_cons_left_iff.mp h
    rw [List.map_cons, List.zipIdx_cons, List.map_cons, Nat.add_right_comm j i 1]
    exact List.Forall₂.cons (slideOf_down i hall hs) (ih hrest)

section Joined

variable {docA docB : Document}

/-- The spans of the joined deck are those of the first and those of the second moved down. -/
theorem spans_join (hstart : bodyStart docA.frontmatter ≤ docA.lineCount)
    (hfences : oddFences (docA.lines.drop (bodyStart docA.frontmatter)) = false)
    (hfront : docB.frontmatter = none) :
    spans (bodyStart docA.frontmatter)
        (boundariesFrom (bodyStart docA.frontmatter) false
          ((docA.lines ++ delimiter :: docB.lines).drop (bodyStart docA.frontmatter)))
        (docA.lines ++ delimiter :: docB.lines).length =
      docA.slideSpans ++
        docB.slideSpans.map fun p => (p.1 + (docA.lineCount + 1), p.2 + (docA.lineCount + 1)) := by
  have hsize : (docA.lines ++ delimiter :: docB.lines).length =
      docB.lineCount + (docA.lineCount + 1) := by
    rw [List.length_append, List.length_cons, lineCount, lineCount]
    omega
  have hsecond : docB.slideSpans = spans 0 (boundariesFrom 0 false docB.lines) docB.lineCount := by
    rw [slideSpans, boundaries, hfront]
    rfl
  rw [boundariesFrom_join _ _ _ hstart hfences, spans_append, hsize, hsecond, ← spans_add,
    Nat.zero_add]
  rfl

/-- Front matter that does not close on the last line leaves a line for the slides. -/
theorem bodyStart_lt (hfront : docA.frontmatter = frontmatterOf docA.lines)
    (hclosing : ∀ r ∈ docA.frontmatter, r.stop.line ≠ docA.lineCount - 1) :
    bodyStart docA.frontmatter < docA.lineCount := by
  have hle : bodyStart docA.frontmatter ≤ docA.lineCount := by
    rw [hfront]
    exact bodyStart_le docA.lines
  cases hf : docA.frontmatter with
  | none => exact List.length_pos_of_ne_nil (Text.splitAt_ne_nil _ _)
  | some r =>
    have hne := hclosing r hf
    rw [hf] at hle
    show r.stop.line + 1 < docA.lineCount
    have hle' : r.stop.line + 1 ≤ docA.lineCount := hle
    omega

/-- More lines at the end close no front matter that the deck does not have itself. -/
theorem frontmatterOf_join (hfront : docA.frontmatter = frontmatterOf docA.lines)
    (hopening : (docA.line 0).isDelimiter = false ∨ docA.frontmatter ≠ none) (more : List Line) :
    frontmatterOf (docA.lines ++ more) = docA.frontmatter := by
  have hhead : docA.lines.headD [] = docA.line 0 := by
    rw [line, List.headD_eq_head?_getD, List.head?_eq_getElem?]
  rw [hfront]
  refine frontmatterOf_append more (Text.splitAt_ne_nil _ _) ?_
  rw [hhead, ← hfront]
  exact hopening

/-- Where a deck ends inside a slide, every slide has a line to begin at. -/
theorem fst_lt_of_mem_slideSpans (hlast : docA.lineCount - 1 ∉ docA.boundaries)
    (hstart : bodyStart docA.frontmatter < docA.lineCount) {p : Nat × Nat}
    (h : p ∈ docA.slideSpans) : p.1 < docA.lineCount ∧ p.2 ≤ docA.lineCount := by
  refine ⟨?_, snd_le_of_mem_slideSpans h⟩
  rcases (mem_spans h).1 with hfirst | ⟨b, hb, hfirst⟩
  · rw [hfirst]
    exact hstart
  · have hlt : b < docA.lineCount := (mem_boundaries.mp hb).2.1
    have hne : b ≠ docA.lineCount - 1 := fun heq => hlast (heq ▸ hb)
    omega

theorem diagnostics_join {doc : Document} {k i : Nat}
    (h : doc.slides = docA.slides ++ docB.slides.map (·.down k i)) (c : Catalog)
    (settings : Settings) :
    doc.diagnostics c settings =
      docA.diagnostics c settings ++ (docB.diagnostics c settings).map (·.down k) := by
  unfold diagnostics findings
  rw [h, List.flatMap_append, List.map_append, List.flatMap_map, List.map_map]
  simp only [Slide.findings_down, ← List.map_flatMap, List.map_map]
  rfl

/-- A deck that ends inside a slide, a delimiter, and a deck without front matter make one deck: its
slides are those of the first and those of the second moved down, and so are its diagnostics. -/
theorem create_join {limits : Limits} {uriA uriB a b sequenceType : String} {versionA versionB : Int}
    (hA : create limits uriA versionA a sequenceType = .ok docA)
    (hB : create limits uriB versionB b sequenceType = .ok docB)
    (hopening : (docA.line 0).isDelimiter = false ∨ docA.frontmatter ≠ none)
    (hfences : (docA.lines.drop (bodyStart docA.frontmatter)).countP (·.isFence) % 2 = 0)
    (hboundary : docA.lineCount - 1 ∉ docA.boundaries)
    (hclosing : ∀ r ∈ docA.frontmatter, r.stop.line ≠ docA.lineCount - 1)
    (hfront : docB.frontmatter = none) (uri : String) (version : Int) :
    ∃ doc, create limits uri version (a ++ "\n---\n" ++ b) sequenceType = .ok doc ∧
      doc.frontmatter = docA.frontmatter ∧
      doc.slides = docA.slides ++
        docB.slides.map (·.down (docA.lineCount + 1) docA.slides.length) ∧
      ∀ c settings, doc.diagnostics c settings =
        docA.diagnostics c settings ++
          (docB.diagnostics c settings).map (·.down (docA.lineCount + 1)) := by
  obtain ⟨-, -, rfl, hfrontA, -⟩ := create_eq_ok_iff.mp hA
  obtain ⟨-, -, rfl, -, -⟩ := create_eq_ok_iff.mp hB
  have hlines : Text.lines (docA.content ++ "\n---\n" ++ docB.content).toList =
      docA.lines ++ delimiter :: docB.lines := lines_join docA.content docB.content
  have hneB : docB.lines ≠ [] := Text.splitAt_ne_nil _ _
  have hodd : oddFences (docA.lines.drop (bodyStart docA.frontmatter)) = false := by
    rw [oddFences, hfences]
    rfl
  have hstart := bodyStart_lt hfrontA hclosing
  have hfrontmatter := frontmatterOf_join hfrontA hopening (delimiter :: docB.lines)
  have hslidesA : Slides limits sequenceType docA.lines docA.slideSpans.zipIdx docA.slides :=
    slides_of_create hA
  have hslidesB : Slides limits sequenceType docB.lines docB.slideSpans.zipIdx docB.slides :=
    slides_of_create hB
  have hcount : 0 + docA.slideSpans.length = 0 + docA.slides.length := by
    rw [← hslidesA.length_eq, List.length_zipIdx]
  have hfirst : Slides limits sequenceType (docA.lines ++ delimiter :: docB.lines)
      docA.slideSpans.zipIdx docA.slides := by
    refine hslidesA.append _ fun p hp => ?_
    exact fst_lt_of_mem_slideSpans hboundary hstart (List.fst_mem_of_mem_zipIdx hp)
  have hsecond : Slides limits sequenceType (docA.lines ++ delimiter :: docB.lines)
      ((docB.slideSpans.map fun p =>
        (p.1 + (docA.lineCount + 1), p.2 + (docA.lineCount + 1))).zipIdx (0 + docA.slides.length))
      (docB.slides.map (·.down (docA.lineCount + 1) docA.slides.length)) := by
    have hdown := hslidesB.down (docA.lines ++ [delimiter]) docA.slides.length hneB
    rw [List.append_assoc, List.length_append] at hdown
    exact hdown
  -- The joined deck is known in full, so it is enough that reading gives it.
  let doc : Document :=
    ⟨uri, version, docA.content ++ "\n---\n" ++ docB.content,
      docA.slides ++ docB.slides.map (·.down (docA.lineCount + 1) docA.slides.length),
      docA.frontmatter⟩
  have hdoc : doc.lines = docA.lines ++ delimiter :: docB.lines := hlines
  refine ⟨doc, create_eq_ok_iff.mpr ⟨rfl, rfl, rfl, ?_, ?_⟩, rfl, rfl, diagnostics_join rfl⟩
  · rw [hdoc]
    exact hfrontmatter.symm
  · refine mapM_eq_ok_iff.mpr ?_
    rw [hdoc, spans_join (Nat.le_of_lt hstart) hodd hfront, List.zipIdx_append, hcount]
    exact List.rel_append hfirst hsecond

/-- Front matter and a delimiter in code in the first deck, and a delimiter without front matter at
the top of the second. -/
theorem create_join_hidden_delimiters :
    ∃ docA docB doc,
      create .usual "a" 1 "---\nx\n---\n# A\n```\n---\n```" "sequence" = .ok docA ∧
      create .usual "b" 1 "---\n# B\n```action\ntype: nope\n```" "sequence" = .ok docB ∧
      docA.slides.length = 1 ∧ docB.slides.length = 2 ∧
      create .usual "c" 2 ("---\nx\n---\n# A\n```\n---\n```" ++ "\n---\n" ++
        "---\n# B\n```action\ntype: nope\n```") "sequence" = .ok doc ∧
      doc.slides = docA.slides ++ docB.slides.map (·.down 8 1) := by
  obtain ⟨docA, hA, hcheckA⟩ := exists_eq_ok_of_any
    (x := create .usual "a" 1 "---\nx\n---\n# A\n```\n---\n```" "sequence")
    (p := fun d => decide (((d.line 0).isDelimiter = false ∨ d.frontmatter ≠ none) ∧
      (d.lines.drop (bodyStart d.frontmatter)).countP (·.isFence) % 2 = 0 ∧
      d.lineCount - 1 ∉ d.boundaries ∧ (∀ r ∈ d.frontmatter, r.stop.line ≠ d.lineCount - 1) ∧
      d.lineCount = 7 ∧ d.slides.length = 1)) (by decide +kernel)
  obtain ⟨docB, hB, hcheckB⟩ := exists_eq_ok_of_any
    (x := create .usual "b" 1 "---\n# B\n```action\ntype: nope\n```" "sequence")
    (p := fun d => decide (d.frontmatter = none ∧ d.slides.length = 2)) (by decide +kernel)
  obtain ⟨hopening, hfences, hboundary, hclosing, hcount, hslidesA⟩ := of_decide_eq_true hcheckA
  obtain ⟨hfront, hslidesB⟩ := of_decide_eq_true hcheckB
  obtain ⟨doc, hdoc, -, hslides, -⟩ :=
    create_join hA hB hopening hfences hboundary hclosing hfront "c" 2
  rw [hcount, hslidesA] at hslides
  exact ⟨docA, docB, doc, hA, hB, hslidesA, hslidesB, hdoc, hslides⟩

end Joined

end Document
end TalkDeck
