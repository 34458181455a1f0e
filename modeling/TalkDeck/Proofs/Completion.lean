import TalkDeck.Catalog.Standard
import TalkDeck.Completion
import TalkDeck.Proofs.Context.Span
import TalkDeck.Proofs.Deck.Break
import TalkDeck.Proofs.Edit
import TalkDeck.Proofs.QuickFix.Place

/-
Where a completed name of a parameter of a step is written.

The name takes the whole line, with the blanks the line opens with, and the text for it has none.  So
the key is written at the left edge, where no parameter of a step stands; on a line of blanks among the
steps it is read as a key of the block.  The theorem this file exists for is `itemsAt_misplaces`.
-/

namespace TalkDeck

open Text Yaml Layout

theorem Context.replace_of_stepAim {t : Step} {l : Line} {p : Position} {type : String}
    {existing : List String} {replace : Range}
    (h : stepAim t l p = .paramName type existing replace) : replace = wholeLine p.line l := by
  unfold stepAim at h
  split at h
  · cases h
  · rcases value_or_fallback h with hfallback | ⟨type', k, -, hvalue⟩
    · unfold fallback at hfallback
      split at hfallback
      · exact (Aim.paramName.inj hfallback).2.2
      · cases hfallback
    · cases eq_of_valueAt? hvalue

namespace Document

variable {limits : Limits} {uri content seq : String} {version : Int} {d : Document} {b : Block}
  {t : Step} {p : Position}

/-- A position in a step is on a line of the deck. -/
theorem lt_lineCount_of_step (hd : create limits uri version content seq = .ok d) (hb : b ∈ d.blocks)
    (ht : t ∈ b.steps) (hp : t.range.holds p = true) : p.line < d.lineCount := by
  obtain ⟨r, hr, o, -, rfl⟩ := exists_raw_of_mem_blocks hd hb
  obtain ⟨i, hi⟩ := List.getElem?_of_mem ht
  have hfits := (Block.locatesStep (content_prefix_of_mem_raws hr) hi).fits
  refine Nat.lt_of_le_of_lt ?_ hfits.in_deck
  rcases ((Range.holds_iff _ _).mp hp).2 with hlt | ⟨heq, -⟩
  · exact Nat.le_of_lt hlt
  · exact Nat.le_of_eq heq

/-- No parameter of a step stands on a line with a key at the left edge. -/
theorem line_ne_of_mem_parameters (hd : create limits uri version content seq = .ok d) {n : Nat}
    {f : Keyed Layout} (hf : isKey f.key = true) (hline : d.line n = f.head 0) (hb : b ∈ d.blocks)
    (ht : t ∈ b.steps) {q : Parameter} (hq : q ∈ t.parameters) : q.keyRange.start.line ≠ n := by
  rintro rfl
  obtain ⟨r, hr, o, -, rfl⟩ := exists_raw_of_mem_blocks hd hb
  obtain ⟨n, hpoints, hkey⟩ := Block.exists_stepKey? (content_prefix_of_mem_raws hr) ht hq
  obtain ⟨a, z, hrange, -⟩ := hpoints.key_line
  have hn : q.keyRange.start.line = n := by
    rw [hrange]
    rfl
  rw [← hn, hline, Line.stepKey?_head_zero hf] at hkey
  cases hkey

end Document

/-- The deck after an edit is read, and where `b` opened it has a block without an error, in which the
step of that index has the key and the mapping has no new one. -/
def Document.Places (limits : Limits) (d : Document) (seq : String) (e : Edit) (b : Block) (i : Nat)
    (key : String) : Prop :=
  ∃ d', Document.create limits d.uri d.version
      (String.ofList (e.apply d.content.toList)) seq = .ok d' ∧
    ∃ b' ∈ d'.blocks, b'.range.start = b.range.start ∧ b'.error? = none ∧
      (∃ w, b'.stepValue? i = some w ∧ w.has key = true) ∧
      ∀ v v', b.value? = some v → b'.value? = some v' → ∀ k, v'.has k = true → v.has k = true

namespace Completion

variable {limits : Limits} {c : Catalog} {s : Settings} {d : Document} {p : Position}
  {i : CompletionItem}
  {items : List CompletionItem} {type : String} {existing : List String} {replace : Range}

theorem typedAt?_eq_none {scheme : List Char} {inWord : Char → Bool} {cs : List Char}
    (h : '[' ∉ cs) : typedAt? scheme inWord cs = none := by
  induction cs with
  | nil => rfl
  | cons c cs ih =>
    obtain ⟨hne, hcs⟩ := not_or.mp (mt List.mem_cons.mpr h)
    rw [typedAt?, if_neg (Ne.symm hne)]
    exact ih hcs

/-- The name of a parameter is written with a colon and a blank. -/
theorem edit_of_mem_paramNames (h : paramNames c type existing replace = some items) (hi : i ∈ items) :
    i.edit = ⟨replace, i.label ++ ": "⟩ := by
  obtain ⟨spec, -, h⟩ := Option.bind_eq_some_iff.mp h
  dsimp only at h
  split at h
  · cases h
  · obtain rfl := Option.some.inj h
    obtain ⟨q, -, rfl⟩ := List.mem_map.mp hi
    rfl

/-- Without a link on the line, the names of parameters are offered for a step. -/
theorem itemsAt_eq_paramNames {b : Block} {t : Step}
    (hcontext : Context.detect s.sequenceType d p = .step b t (.paramName type existing replace))
    (hlink : '[' ∉ d.line p.line) : itemsAt c s d p = paramNames c type existing replace := by
  have hbefore : '[' ∉ (d.line p.line).take p.character := fun h => hlink (List.mem_of_mem_take h)
  unfold itemsAt
  simp only [actionTyped?, renderTyped?, typedAt?_eq_none hbefore, hcontext, ofAim]

/-- The name takes its line, and stands at the left edge. -/
theorem apply_of_mem_itemsAt {uri content : String} {version : Int} {b : Block} {t : Step}
    (hd : Document.create limits uri version content s.sequenceType = .ok d)
    (hcontext : Context.detect s.sequenceType d p = .step b t (.paramName type existing replace))
    (hlink : '[' ∉ d.line p.line) (hitems : itemsAt c s d p = some items) (hi : i ∈ items) :
    b ∈ d.blocks ∧ p.line < d.lineCount ∧ i.edit.apply d.content.toList =
      unlines (d.lines.set p.line (i.label.toList ++ [':', ' '])) := by
  obtain ⟨hblock, hstep, haim⟩ := Context.detect_eq_step hcontext
  obtain ⟨ht, hp⟩ := List.find?_eq_some_iff_append.mp hstep
  have hb := List.mem_of_find?_eq_some hblock
  have hline := Document.lt_lineCount_of_step hd hb (List.mem_of_find?_eq_some hstep) ht
  rw [itemsAt_eq_paramNames hcontext hlink] at hitems
  refine ⟨hb, hline, ?_⟩
  have hget : d.lines[p.line]? = some (d.line p.line) := by
    rw [Document.line, List.getElem?_eq_getElem hline, Option.getD_some]
  rw [edit_of_mem_paramNames hitems hi, Context.replace_of_stepAim haim, Context.wholeLine,
    Edit.apply_line hget, String.toList_append]
  rfl

/-- **A name completed in a step is not written into the step.**  In every deck it is written at the
left edge of its line, where no parameter of a step is read.  Where that line is one of blanks among the
steps of a sequence, the deck is read with the name as a new key of the block, and no step has a new key. -/
theorem itemsAt_misplaces {uri content : String} {version : Int} {b : Block} {t : Step}
    (hd : Document.create limits uri version content s.sequenceType = .ok d)
    (hcontext : Context.detect s.sequenceType d p = .step b t (.paramName type existing replace))
    (hlink : '[' ∉ d.line p.line) (hitems : itemsAt c s d p = some items) (hi : i ∈ items)
    (hkey : isKey i.label.toList = true) :
    i.edit.apply d.content.toList = unlines (d.lines.set p.line (i.label.toList ++ [':', ' '])) ∧
    (∀ d', Document.create limits d.uri d.version (String.ofList (i.edit.apply d.content.toList))
        s.sequenceType = .ok d' →
      ∀ b' ∈ d'.blocks, ∀ t' ∈ b'.steps, ∀ q ∈ t'.parameters, q.keyRange.start.line ≠ p.line) ∧
    ∀ q q' above below n xs ys, Readable limits (SequenceForm.fields q) →
      i.label.toList ∉ q.fields.map (·.key) → q.Breaks i.label.toList above below q' →
      Spread above xs → Spread below ys → b.text = unlines (xs ++ blanks n :: ys) →
      p.line = b.range.start.line + 1 + xs.length →
      d.Misplaces limits s.sequenceType i.edit b i.label := by
  obtain ⟨hb, hline, happly⟩ := apply_of_mem_itemsAt hd hcontext hlink hitems hi
  refine ⟨happly, fun d' hd' b' hb' t' ht' q hq => ?_, ?_⟩
  · have hnewline : ∀ l ∈ d.lines.set p.line (i.label.toList ++ [':', ' ']), '\n' ∉ l := by
      intro l hl
      rcases List.mem_or_eq_of_mem_set hl with hl | rfl
      · exact not_mem_of_mem_splitAt hl
      · intro hnewline
        rcases List.mem_append.mp hnewline with hnewline | hnewline
        · exact absurd (solid_of_isKey hkey _ hnewline).1 (by decide)
        · simp at hnewline
    have hlines : d'.lines = d.lines.set p.line (i.label.toList ++ [':', ' ']) := by
      obtain ⟨-, -, hcontent, -⟩ := Document.create_eq_ok_iff.mp hd'
      have hne : d.lines.set p.line (i.label.toList ++ [':', ' ']) ≠ [] := by
        rw [ne_eq, List.set_eq_nil_iff]
        exact List.ne_nil_of_length_pos (Nat.zero_lt_of_lt hline)
      rw [Document.lines, hcontent, String.toList_ofList, happly, lines_unlines hne hnewline]
    have hhead : d'.line p.line = Keyed.head 0 ⟨i.label.toList, 1, .scalar []⟩ := by
      rw [Document.line, hlines, List.getElem?_set_self hline]
      rfl
    exact Document.line_ne_of_mem_parameters hd' hkey hhead hb' ht' hq
  · intro q q' above below n xs ys hread hnew hbreaks habove hbelow htext hplace
    refine Document.misplaces_of_breaks hd hb hread hkey hnew hbreaks habove hbelow htext ?_
    rw [← hplace, happly]

/-- A step with a type and a line of blanks below it. -/
def blankStepDeck : String :=
  "\x60\x60\x60action\ntype: sequence\nsteps:\n  - type: terminal.run\n    \n\x60\x60\x60"

/-- The sequence of the deck. -/
def oneStep : SequenceForm where
  before := [⟨"type".toList, 1, .scalar "sequence".toList⟩]
  gap := 2
  steps := [⟨1, 1, "terminal.run".toList, []⟩]
  after := []

/-- What is offered in the deck, and that no step has the key once the name is taken. -/
theorem exists_blankStep :
    ∃ d, Document.create .usual "a" 1 blankStepDeck "sequence" = .ok d ∧ d.line 4 = blanks 4 ∧
      ∃ b ∈ d.blocks, ∃ t ∈ b.steps,
        Context.detect "sequence" d ⟨4, 4⟩ =
          .step b t (.paramName "terminal.run" ["type"] (Range.onLine 4 0 4)) ∧
        b.text = unlines (fieldLines 0 oneStep.fields ++ [blanks 4]) ∧ b.range.start.line = 0 ∧
        ∃ items ∈ itemsAt (.standard "sequence") {} d ⟨4, 4⟩, ∃ i ∈ items, i.label = "command" ∧
          ((Document.create .usual d.uri d.version (String.ofList (i.edit.apply d.content.toList))
            "sequence").toOption.all fun d' => d'.blocks.all fun b' =>
              (b'.stepValue? t.index).all fun w => !w.has i.label) = true := by
  obtain ⟨d, hd, hcheck⟩ := exists_eq_ok_of_any
    (x := Document.create .usual "a" 1 blankStepDeck "sequence")
    (p := fun d => decide (d.line 4 = blanks 4 ∧ ∃ b ∈ d.blocks, ∃ t ∈ b.steps,
      Context.detect "sequence" d ⟨4, 4⟩ =
        .step b t (.paramName "terminal.run" ["type"] (Range.onLine 4 0 4)) ∧
      b.text = unlines (fieldLines 0 oneStep.fields ++ [blanks 4]) ∧ b.range.start.line = 0 ∧
      ∃ items ∈ itemsAt (.standard "sequence") {} d ⟨4, 4⟩, ∃ i ∈ items, i.label = "command" ∧
        ((Document.create .usual d.uri d.version (String.ofList (i.edit.apply d.content.toList))
          "sequence").toOption.all fun d' => d'.blocks.all fun b' =>
            (b'.stepValue? t.index).all fun w => !w.has i.label) = true)) (by decide +kernel)
  exact ⟨d, hd, of_decide_eq_true hcheck⟩

theorem itemsAt_misplaces_command :
    ∃ d, Document.create .usual "a" 1 blankStepDeck "sequence" = .ok d ∧ ∃ b ∈ d.blocks, ∃ items,
      itemsAt (.standard "sequence") {} d ⟨4, 4⟩ = some items ∧ ∃ i ∈ items, i.label = "command" ∧
        i.edit.apply d.content.toList = unlines (d.lines.set 4 "command: ".toList) ∧
        d.Misplaces .usual "sequence" i.edit b "command" := by
  obtain ⟨d, hd, hline, b, hb, t, ht, hcontext, htext, hfirst, items, hitems, i, hi, hlabel, -⟩ :=
    exists_blankStep
  have hlink : '[' ∉ d.line 4 := by
    rw [hline]
    decide
  have hkey : isKey i.label.toList = true := by
    rw [hlabel]
    decide +kernel
  obtain ⟨happly, -, hmisplaces⟩ := itemsAt_misplaces (s := {}) hd hcontext hlink hitems hi hkey
  rw [hlabel] at happly hmisplaces
  refine ⟨d, hd, b, hb, items, hitems, i, hi, hlabel, happly, ?_⟩
  have hread : Readable .usual oneStep.fields := ⟨by decide +kernel, by decide +kernel⟩
  have hbreaks : oneStep.Breaks "command".toList
      (oneStep.above oneStep.steps ++ fieldLines 0 []) (fieldLines 0 []) _ := .after rfl
  exact hmisplaces oneStep _ _ _ 4 _ [] hread (by decide) hbreaks (.refl _) .nil htext
    (by rw [hfirst]; decide)

/-- The step has no key `command` afterwards. -/
theorem not_places_command :
    ∃ d, Document.create .usual "a" 1 blankStepDeck "sequence" = .ok d ∧ ∃ b ∈ d.blocks, ∃ t ∈ b.steps,
      Context.detect "sequence" d ⟨4, 4⟩ =
        .step b t (.paramName "terminal.run" ["type"] (Range.onLine 4 0 4)) ∧
      allBlank (d.line 4) = true ∧
      ∃ items ∈ itemsAt (.standard "sequence") {} d ⟨4, 4⟩, ∃ i ∈ items, i.label = "command" ∧
        ¬ d.Places .usual "sequence" i.edit b t.index i.label := by
  obtain ⟨d, hd, hline, b, hb, t, ht, hcontext, -, -, items, hitems, i, hi, hlabel, hafter⟩ :=
    exists_blankStep
  refine ⟨d, hd, b, hb, t, ht, hcontext, by rw [hline]; decide, items, hitems, i, hi, hlabel, ?_⟩
  rintro ⟨d', hd', b', hb', -, -, ⟨w, hw, hhas⟩, -⟩
  rw [hd'] at hafter
  have hnot := List.all_eq_true.mp hafter b' hb'
  rw [hw] at hnot
  simp [hhas] at hnot

end Completion
end TalkDeck
