import TalkDeck.Proofs.Deck.Laid
import TalkDeck.Proofs.Yaml.Stops

/-
Where the fault of a block is shown.

A fault has the mark of a place in the block's text, and is shown from there to the end of the line.
Marks count each line end of the markup language, a lone carriage return and the separators of Unicode
among them, and the range takes the count for one of lines of the deck: it is on the line of the place
only if none of those line ends comes before it (`create_marked`).  In a deck whose lines all end in a
carriage return and a line feed they do not, unless the place is the end of the text, where the last
carriage return has lost its line feed (`not_inside_openBracket`).
-/

namespace TalkDeck

open Yaml (Cursor Marks strayBreaks)

/-! ## Fragments -/

namespace Fragment

/-- A fault of a fragment that shows at the place after `n` characters: from its column, on the line
that its mark counts, and within the line if no stray line end was counted. -/
structure ShownAt (t : List Char) (n : Nat) (e : ParseError) : Prop where
  mark : ∀ line column, e.mark = some (line, column) →
    ((Cursor.ofText t).skip n).mark.line = line ∧
      ((Cursor.ofText t).skip n).mark.column = column ∧ e.range.start.character = column
  range : ∃ start stop, start ≤ stop ∧
    e.range = Range.onLine ((t.take n).count '\n' + strayBreaks n t) start stop
  width : strayBreaks n t = 0 →
    e.range.stop.character ≤ ((Text.lines t)[(t.take n).count '\n']?.getD []).length

theorem shownAt_firstLine (t : List Char) (message : String) :
    ShownAt t 0 ⟨message, firstLine t, none⟩ := by
  refine ⟨nofun, ⟨0, _, Nat.zero_le _, rfl⟩, fun _ => ?_⟩
  show ((Text.lines t).headD []).length ≤ ((Text.lines t)[0]?.getD []).length
  cases Text.lines t with
  | nil => exact Nat.le_refl _
  | cons l ls => exact Nat.le_refl _

theorem shownAt_markRange (t : List Char) (n : Nat) (message : String) {m : Yaml.Mark}
    (hm : ((Cursor.ofText t).skip n).mark = m) :
    ShownAt t n ⟨message, markRange t m, some (m.line, m.column)⟩ := by
  have hline : m.line = (t.take n).count '\n' + strayBreaks n t := by
    rw [← hm, Cursor.line_skip]
    exact Nat.zero_add _ ▸ rfl
  refine ⟨?_, ⟨m.column, _, Nat.le_max_left _ _, by rw [← hline]; rfl⟩, fun hstray => ?_⟩
  · intro line column hmark
    obtain ⟨rfl, rfl⟩ := Prod.mk.inj (Option.some.inj hmark)
    exact ⟨congrArg _ hm, congrArg _ hm, rfl⟩
  · have hcolumn := Cursor.column_skip_le n (Cursor.ofText t) hstray
    rw [hm] at hcolumn
    rw [hstray, Nat.add_zero] at hline
    refine Nat.max_le.mpr ⟨?_, ?_⟩
    · refine Nat.le_trans hcolumn ?_
      split
      · exact Nat.le_of_eq (Nat.zero_add _)
      · exact Nat.le_of_eq (Nat.zero_add _)
    · rw [hline]

/-- Every fault of a fragment is shown at a place in it. -/
theorem exists_shownAt {limits : Limits} {t : List Char} {e : ParseError}
    (h : read limits t = .ok (.broken e)) : ∃ n ≤ t.length, ShownAt t n e := by
  unfold read at h
  split at h
  · cases Except.ok.inj h
  · split at h
    · cases Except.ok.inj h
    · split at h
      · cases Except.ok.inj h
      · rw [← Outcome.broken.inj (Except.ok.inj h)]
        exact ⟨0, Nat.zero_le _, shownAt_firstLine t _⟩
  · next p m hfault =>
    rw [← Outcome.broken.inj (Except.ok.inj h)]
    obtain ⟨n, hn, hm⟩ := Marks.exists_le ((Yaml.Value.gives_ofText t).of_eq_error hfault)
    exact ⟨n, hn, shownAt_markRange t n _ hm⟩
  · rw [← Outcome.broken.inj (Except.ok.inj h)]
    exact ⟨0, Nat.zero_le _, shownAt_firstLine t _⟩
  · rw [← Outcome.broken.inj (Except.ok.inj h)]
    exact ⟨0, Nat.zero_le _, shownAt_firstLine t _⟩
  · cases h

end Fragment

/-! ## Blocks -/

/-- A text has as many lines as line feeds, and one more. -/
theorem Text.count_take_lt_length_lines (t : List Char) (n : Nat) :
    (t.take n).count '\n' < (Text.lines t).length := by
  rw [Text.lines, Text.length_splitAt]
  exact Nat.lt_succ_of_le ((List.take_sublist n t).count_le '\n')

namespace Document

variable {limits : Limits} {uri content seq : String} {version : Int} {d : Document} {b : Block}
  {e : ParseError}

/-- The lines of a block's text are lines of the deck, counted from the one below its fence. -/
theorem line_of_content {r : Block.Raw} (hcontent : r.content <+: d.lines.drop (r.first + 1)) {k : Nat}
    (hk : k < (Text.lines (Text.unlines r.content)).length) :
    r.first + 1 + k ≤ r.first + 1 + (r.content.length - 1) ∧
      ((Text.lines (Text.unlines r.content))[k]?.getD []).length ≤
        (d.line (r.first + 1 + k)).length := by
  by_cases hnil : r.content = []
  · rw [hnil] at hk ⊢
    obtain rfl : k = 0 := Nat.lt_one_iff.mp hk
    exact ⟨Nat.le_refl _, Nat.zero_le _⟩
  · rw [Text.lines_unlines hnil fun l hl => Block.newline_not_mem hcontent hl] at hk ⊢
    obtain ⟨rest, hrest⟩ := hcontent
    have hline : d.line (r.first + 1 + k) = r.content[k]?.getD [] := by
      rw [line, ← List.getElem?_drop, ← hrest, List.getElem?_append_left hk]
    rw [hline]
    exact ⟨by omega, Nat.le_refl _⟩

/-- **A fault is shown as many lines too low as stray line ends come before it.**  A fault of a block
shows at a place in the block's text, the one of its mark if it has a mark, and then from the column of
the mark.  The range starts and ends on one line and runs forward; that line lies below the line of the
place by the number of line ends before it that end no line of a deck.  Where there are none it is a
line of the content, and the range ends on it. -/
theorem create_marked (hd : create limits uri version content seq = .ok d) (hb : b ∈ d.blocks)
    (he : b.error? = some e) : ∃ n ≤ b.text.length,
      (∀ line column, e.mark = some (line, column) →
        ((Cursor.ofText b.text).skip n).mark.line = line ∧
          ((Cursor.ofText b.text).skip n).mark.column = column ∧
          e.range.start.character = column) ∧
      (∃ start stop, start ≤ stop ∧ e.range = Range.onLine
        (b.contentRange.start.line + (b.text.take n).count '\n' + strayBreaks n b.text) start stop) ∧
      (strayBreaks n b.text = 0 → e.range.start.line ≤ b.contentRange.stop.line ∧
        e.range.WithinLine e.range.start.line (d.line e.range.start.line).length) := by
  obtain ⟨r, hr, o, ho, rfl⟩ := exists_raw_of_mem_blocks hd hb
  cases o with
  | empty => cases he
  | mapping v => cases he
  | broken fault =>
    obtain rfl : fault.down (r.first + 1) = e := Option.some.inj he
    obtain ⟨n, hn, hshown⟩ := Fragment.exists_shownAt ho
    obtain ⟨start, stop, hle, hrange⟩ := hshown.range
    have hdown : (fault.down (r.first + 1)).range = Range.onLine
        (r.first + 1 + ((Text.unlines r.content).take n).count '\n' +
          strayBreaks n (Text.unlines r.content)) start stop := by
      rw [ParseError.down, hrange]
      show Range.onLine (((Text.unlines r.content).take n).count '\n' +
        strayBreaks n (Text.unlines r.content) + (r.first + 1)) start stop = _
      rw [Nat.add_comm _ (r.first + 1), ← Nat.add_assoc (r.first + 1)]
    refine ⟨n, hn, hshown.mark, ⟨start, stop, hle, hdown⟩, fun hstray => ?_⟩
    have hwidth := hshown.width hstray
    obtain ⟨hlast, hline⟩ := line_of_content (content_prefix_of_mem_raws hr)
      (Text.count_take_lt_length_lines (Text.unlines r.content) n)
    rw [hrange] at hwidth
    rw [hdown, show strayBreaks n (Text.unlines r.content) = 0 from hstray, Nat.add_zero]
    exact ⟨hlast, start, stop, rfl, hle, Nat.le_trans hwidth hline⟩

/-- A colon too many on the second line of a block, in a deck whose lines end in a carriage return and
a line feed. -/
def secondColonDeck : String := "\x60\x60\x60action\r\ntype: a\r\n  bad: b\r\n\x60\x60\x60"

theorem create_marked_secondColon : ∃ d b e, create .usual "a" 1 secondColonDeck "sequence" = .ok d ∧
    b ∈ d.blocks ∧ b.error? = some e ∧ e.range = Range.onLine 2 5 9 ∧
    2 ≤ b.contentRange.stop.line ∧ e.range.WithinLine 2 (d.line 2).length := by
  obtain ⟨d, hd, hcheck⟩ := exists_eq_ok_of_any (x := create .usual "a" 1 secondColonDeck "sequence")
    (p := fun d => d.blocks.any fun b => b.text == "type: a\r\n  bad: b\r".toList &&
      b.contentRange.start.line == 1 && b.error?.any fun e => e.range == Range.onLine 2 5 9)
    (by decide +kernel)
  obtain ⟨b, hb, hcheck⟩ := List.any_eq_true.mp hcheck
  obtain ⟨hcheck, herror⟩ := Bool.and_eq_true_iff.mp hcheck
  obtain ⟨htext, hstart⟩ := Bool.and_eq_true_iff.mp hcheck
  obtain ⟨e, he, hrange⟩ := (Option.any_eq_true _ _).mp herror
  obtain hrange := eq_of_beq hrange
  obtain ⟨n, hn, -, ⟨start, stop, -, hplace⟩, hwithin⟩ := create_marked hd hb he
  rw [hrange, eq_of_beq htext, eq_of_beq hstart] at hplace
  rw [eq_of_beq htext] at hn hwithin
  -- The one stray line end is the last carriage return, and past it the line would be the third.
  have hall : ∀ n < 19, 2 = 1 + ("type: a\r\n  bad: b\r".toList.take n).count '\n' +
      strayBreaks n "type: a\r\n  bad: b\r".toList →
      strayBreaks n "type: a\r\n  bad: b\r".toList = 0 := by decide
  obtain ⟨hlast, hline⟩ := hwithin (hall n (Nat.lt_succ_of_le hn)
    (congrArg (fun r : Range => r.start.line) hplace))
  rw [hrange] at hlast hline
  exact ⟨d, b, e, hd, hb, he, hrange, hlast, hrange ▸ hline⟩

/-- A bracket left open on the last line of a block, in such a deck. -/
def openBracketDeck : String := "\x60\x60\x60action\r\ntype: [\r\n\x60\x60\x60"

/-- The fault is shown on the line of the closing fence. -/
theorem not_inside_openBracket : ∃ d b e, create .usual "a" 1 openBracketDeck "sequence" = .ok d ∧
    b ∈ d.blocks ∧ b.error? = some e ∧ e.range = Range.onLine 2 0 0 ∧
    b.contentRange = ⟨⟨1, 0⟩, ⟨1, 8⟩⟩ ∧
    ¬∃ n, b.contentRange.start.line ≤ n ∧ n ≤ b.contentRange.stop.line ∧
      e.range.WithinLine n (d.line n).length := by
  obtain ⟨d, hd, hcheck⟩ := exists_eq_ok_of_any (x := create .usual "a" 1 openBracketDeck "sequence")
    (p := fun d => d.blocks.any fun b => b.contentRange == ⟨⟨1, 0⟩, ⟨1, 8⟩⟩ &&
      b.error?.any fun e => e.range == Range.onLine 2 0 0) (by decide +kernel)
  obtain ⟨b, hb, hcheck⟩ := List.any_eq_true.mp hcheck
  obtain ⟨hcontent, herror⟩ := Bool.and_eq_true_iff.mp hcheck
  obtain ⟨e, he, hrange⟩ := (Option.any_eq_true _ _).mp herror
  obtain hrange := eq_of_beq hrange
  obtain hcontent := eq_of_beq hcontent
  refine ⟨d, b, e, hd, hb, he, hrange, hcontent, ?_⟩
  rintro ⟨n, -, hlast, start, stop, hplace, -⟩
  rw [hcontent] at hlast
  rw [hrange] at hplace
  have hline : 2 = n := congrArg (fun r : Range => r.start.line) hplace
  rw [← hline] at hlast
  exact absurd hlast (by decide)

end Document
end TalkDeck
