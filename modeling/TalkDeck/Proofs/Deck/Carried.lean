import TalkDeck.Proofs.Deck.Laid
import TalkDeck.Proofs.Edit

/-
Edits of a block that holds a layout.

`Document.Carries` is a deck that was read with a block that holds a layout, and the lines around
the block's content.  An edit that turns the content into the lines of another layout gives a deck
in which the block holds that one (`Carries.becomes`), and the edits by which a line is put in, taken
out or changed are edits of the content.
-/

namespace TalkDeck

open Yaml Layout

/-- The deck after an edit is read, and has a block of these fields that opens at the same line. -/
def Document.Becomes (limits : Limits) (d : Document) (seq : String) (e : Edit) (first : Nat)
    (gs : List (Keyed Layout)) : Prop :=
  ∃ d' b' v', Document.create limits d.uri d.version
      (String.ofList (e.apply d.content.toList)) seq = .ok d' ∧
    b' ∈ d'.blocks ∧ b'.Lays seq first gs v'

/-- A deck that was read and a block of it that holds a layout, with the lines around it. -/
structure Document.Carries (limits : Limits) (d : Document) (seq : String) (b : Block)
    (fs : List (Keyed Layout)) (first : Nat) (before after : List Line) (v : Value) : Prop where
  read : create limits d.uri d.version d.content seq = .ok d
  mem_blocks : b ∈ d.blocks
  readable : Readable limits fs
  lays : b.Lays seq first fs v
  above : before.length = first + 1
  lines_eq : d.lines = before ++ (fieldLines 0 fs ++ after)
  becomes : ∀ (e : Edit) gs, Readable limits gs →
    e.apply d.content.toList = Text.unlines (before ++ (fieldLines 0 gs ++ after)) →
    d.Becomes limits seq e first gs

namespace Document

variable {limits : Limits} {uri content seq : String} {version : Int} {d : Document} {b : Block}
  {fs : List (Keyed Layout)} {first : Nat} {before after : List Line} {v : Value}

theorem exists_carries (hd : create limits uri version content seq = .ok d) (hb : b ∈ d.blocks)
    (hfs : Readable limits fs) (htext : b.text = text fs) :
    ∃ first before after v, d.Carries limits seq b fs first before after v := by
  obtain ⟨first, before, after, v, hlays, habove, hlines, hreplace⟩ := exists_lays hd hb hfs htext
  obtain ⟨rfl, rfl, rfl, -⟩ := create_eq_ok_iff.mp hd
  refine ⟨first, before, after, v, hd, hb, hfs, hlays, habove, hlines, fun e gs hgs happly => ?_⟩
  obtain ⟨d', b', v', hd', hb', hlays'⟩ := hreplace gs hgs
  exact ⟨d', b', v', by rw [happly]; exact hd', hb', hlays'⟩

namespace Carries

theorem content_prefix (h : d.Carries limits seq b fs first before after v) :
    fieldLines 0 fs <+: d.lines.drop (first + 1) := by
  rw [h.lines_eq, List.drop_left' h.above]
  exact List.prefix_append _ _

/-- The block is read from lines of the deck. -/
theorem exists_raw (h : d.Carries limits seq b fs first before after v) :
    ∃ r o, b = Block.ofOutcome seq r o ∧ r.content <+: d.lines.drop (r.first + 1) := by
  have hprefix := h.content_prefix
  obtain ⟨r, rfl, hcontent, -, rfl⟩ := h.lays
  rw [← hcontent] at hprefix
  exact ⟨r, _, rfl, hprefix⟩

theorem lineCount_eq (h : d.Carries limits seq b fs first before after v) :
    d.lineCount = first + 1 + (fieldLines 0 fs).length + after.length := by
  rw [lineCount, h.lines_eq, List.length_append, List.length_append, h.above, ← Nat.add_assoc]

/-- The deck goes on after the content of the block. -/
theorem after_ne_nil (h : d.Carries limits seq b fs first before after v)
    (hend : b.contentRange.stop.line + 1 < d.lineCount) : after ≠ [] := by
  rintro rfl
  have hpos := List.length_pos_of_ne_nil (fieldLines_ne_nil h.readable.ne_nil 0)
  rw [h.lays.contentRange_eq, h.lineCount_eq, List.length_nil] at hend
  simp only at hend
  omega

/-- A place on a line of the content is in the block. -/
theorem blockAt?_eq (h : d.Carries limits seq b fs first before after v) {n length : Nat} {r : Range}
    (hr : r.WithinLine n length) (hinside : r.Inside b.contentRange) :
    d.blockAt? r.start = some b :=
  blockAt?_start h.read h.mem_blocks hr hinside

theorem locates (h : d.Carries limits seq b fs first before after v) :
    d.Locates b b.contentRange b.value? b.parameters := by
  obtain ⟨r, o, rfl, hcontent⟩ := h.exists_raw
  exact Block.locates_parameters hcontent seq o

/-! ## Edits of the content -/

section Edits

variable {xs ys : List Line} {l m u old : Line} {new : String}

theorem lines_split (h : d.Carries limits seq b fs first before after v)
    (hsplit : fieldLines 0 fs = xs ++ ys) :
    Text.lines d.content.toList = (before ++ xs) ++ (ys ++ after) := by
  have hall := h.lines_eq
  rw [hsplit] at hall
  rw [show Text.lines d.content.toList = d.lines from rfl, hall]
  simp only [List.append_assoc]

theorem length_above (h : d.Carries limits seq b fs first before after v) (xs : List Line) :
    (before ++ xs).length = first + 1 + xs.length := by
  rw [List.length_append, h.above]

theorem apply_insert (h : d.Carries limits seq b fs first before after v) (hafter : after ≠ [])
    (hsplit : fieldLines 0 fs = xs ++ ys) (hnew : new.toList = m ++ ['\n']) :
    Edit.apply ⟨Range.point (first + 1 + xs.length) 0, new⟩ d.content.toList =
      Text.unlines (before ++ ((xs ++ m :: ys) ++ after)) := by
  have hlines := h.lines_split hsplit
  obtain ⟨l, ls, hl⟩ :=
    List.exists_cons_of_ne_nil (List.append_ne_nil_of_right_ne_nil ys hafter)
  rw [hl] at hlines
  rw [← h.length_above, Edit.apply_insert hlines hnew, ← hl]
  simp only [List.append_assoc, List.cons_append]

theorem apply_delete (h : d.Carries limits seq b fs first before after v) (hafter : after ≠ [])
    (hsplit : fieldLines 0 fs = xs ++ l :: ys) :
    Edit.apply ⟨⟨⟨first + 1 + xs.length, 0⟩, ⟨first + 1 + xs.length + 1, 0⟩⟩, ""⟩ d.content.toList =
      Text.unlines (before ++ ((xs ++ ys) ++ after)) := by
  have hlines := h.lines_split hsplit
  obtain ⟨m, ms, hm⟩ :=
    List.exists_cons_of_ne_nil (List.append_ne_nil_of_right_ne_nil ys hafter)
  rw [List.cons_append, hm] at hlines
  rw [← h.length_above, Edit.apply_delete hlines, ← hm]
  simp only [List.append_assoc]

theorem apply_within (h : d.Carries limits seq b fs first before after v)
    (hsplit : fieldLines 0 fs = xs ++ (u ++ old) :: ys) :
    Edit.apply ⟨Range.onLine (first + 1 + xs.length) u.length (u.length + old.length), new⟩
        d.content.toList =
      Text.unlines (before ++ ((xs ++ (u ++ new.toList) :: ys) ++ after)) := by
  have hlines : Text.lines d.content.toList =
      (before ++ xs) ++ (u ++ (old ++ [])) :: (ys ++ after) := by
    rw [h.lines_split hsplit, List.append_nil, List.cons_append]
  rw [← h.length_above, Edit.apply_within hlines, List.append_nil]
  simp only [List.append_assoc, List.cons_append]

/-- The lines of the content in the deck. -/
theorem getElem?_lines (h : d.Carries limits seq b fs first before after v)
    (hsplit : fieldLines 0 fs = xs ++ l :: ys) : d.lines[first + 1 + xs.length]? = some l := by
  rw [lines, h.lines_split hsplit, ← h.length_above, List.getElem?_append_right (Nat.le_refl _),
    Nat.sub_self]
  rfl

theorem lt_lineCount (h : d.Carries limits seq b fs first before after v)
    (hsplit : fieldLines 0 fs = xs ++ l :: ys) : first + 1 + xs.length < d.lineCount :=
  (List.getElem?_eq_some_iff.mp (h.getElem?_lines hsplit)).1

end Edits

end Carries
end Document
end TalkDeck
