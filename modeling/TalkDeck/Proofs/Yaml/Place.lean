import TalkDeck.Text.Split
import TalkDeck.Yaml.Cursor

/-
Places in a text, and where their marks say that they are.

A cursor is a place in a text if reading from its start leads there (`Within`), and the mark it has
there is one of the text's marks (`Marks`).  Marks count the line ends of the markup language, and of
these the line feed alone ends a line of a deck: `Cursor.line_skip` says how far the two counts are
apart, and `Cursor.column_skip_le` that where they are not a column is one of the line.
-/

namespace TalkDeck
namespace Yaml

/-! ## Cursors within a text -/

/-- Reading from the start of the text `t` leads to this cursor. -/
def Within (t : List Char) (c : Cursor) : Prop := ∃ n, (Cursor.ofText t).skip n = c

/-- A mark of a place in the text `t`. -/
def Marks (t : List Char) (m : Mark) : Prop := ∃ n, ((Cursor.ofText t).skip n).mark = m

theorem Cursor.skip_add (c : Cursor) (m n : Nat) : (c.skip m).skip n = c.skip (m + n) := by
  induction m generalizing c with
  | zero => rw [Nat.zero_add]; rfl
  | succ m ih => rw [Nat.succ_add]; exact ih c.next

theorem Cursor.rest_skip (c : Cursor) (n : Nat) : (c.skip n).rest = c.rest.drop n := by
  induction n generalizing c with
  | zero => rfl
  | succ n ih =>
    show (c.next.skip n).rest = c.rest.drop (n + 1)
    rw [ih c.next]
    obtain ⟨rest, m⟩ := c
    cases rest with
    | nil => exact List.drop_nil
    | cons ch rest => rfl

theorem Cursor.rest_eq_cons {c : Cursor} (h : c.peek ≠ nul) : c.rest = c.peek :: c.next.rest := by
  obtain ⟨rest, m⟩ := c
  cases rest with
  | nil => exact absurd rfl h
  | cons ch rest => rfl

/-- At the end nothing more is read. -/
theorem Cursor.skip_of_rest_eq_nil {c : Cursor} (h : c.rest = []) (n : Nat) : c.skip n = c := by
  obtain ⟨_, m⟩ := c
  subst h
  induction n with
  | zero => rfl
  | succ n ih => exact ih

theorem Marks.start (t : List Char) : Marks t ⟨0, 0, 0⟩ := ⟨0, rfl⟩

theorem Marks.exists_le {t : List Char} {m : Mark} (h : Marks t m) :
    ∃ n ≤ t.length, ((Cursor.ofText t).skip n).mark = m := by
  obtain ⟨n, rfl⟩ := h
  by_cases hle : n ≤ t.length
  · exact ⟨n, hle, rfl⟩
  · have hrest : ((Cursor.ofText t).skip t.length).rest = [] := by
      rw [Cursor.rest_skip]
      exact List.drop_length
    refine ⟨t.length, Nat.le_refl _, ?_⟩
    rw [← Nat.add_sub_cancel' (Nat.le_of_not_le hle), ← Cursor.skip_add,
      Cursor.skip_of_rest_eq_nil hrest]

namespace Within

variable {t : List Char} {c : Cursor}

theorem start (t : List Char) : Within t (Cursor.ofText t) := ⟨0, rfl⟩

theorem skip (h : Within t c) (n : Nat) : Within t (c.skip n) := by
  obtain ⟨m, rfl⟩ := h
  exact ⟨m + n, (Cursor.skip_add _ m n).symm⟩

theorem next (h : Within t c) : Within t c.next := h.skip 1

theorem span (h : Within t c) (p : Char → Bool) : Within t (c.span p).2 := h.skip _

theorem dropWhile (h : Within t c) (p : Char → Bool) : Within t (c.dropWhile p) := h.skip _

theorem dropSpaces (h : Within t c) : Within t c.dropSpaces := h.skip _

theorem dropComment (h : Within t c) : Within t c.dropComment := by
  unfold Cursor.dropComment
  split
  · exact h.dropWhile _
  · exact h

theorem lineBreak (h : Within t c) : Within t c.lineBreak.2 := by
  unfold Cursor.lineBreak
  simp only
  split
  · split
    · exact h.skip 2
    · exact h.next
  · split
    · exact h.next
    · exact h

/-- What is still to be read is an end of the text. -/
theorem suffix (h : Within t c) : c.rest <:+ t := by
  obtain ⟨n, rfl⟩ := h
  rw [Cursor.rest_skip]
  exact List.drop_suffix n t

theorem mark (h : Within t c) : Marks t c.mark := by
  obtain ⟨n, rfl⟩ := h
  exact ⟨n, rfl⟩

end Within

/-! ## Lines and columns -/

/-- Whether a character before `next` ends a line of markup and none of a deck. -/
def isStrayBreak (c next : Char) : Bool := isBreak c && c != '\n' && !(c == '\r' && next == '\n')

/-- How many of the first characters of a text are such line ends. -/
def strayBreaks : Nat → List Char → Nat
  | 0, _ => 0
  | _, [] => 0
  | n + 1, c :: cs => (if isStrayBreak c (cs.headD nul) then 1 else 0) + strayBreaks n cs

namespace Cursor

theorem line_moved (m : Mark) (c next : Char) :
    (moved m c next).line = m.line + [c].count '\n' + if isStrayBreak c next then 1 else 0 := by
  by_cases hfeed : c = '\n'
  · subst hfeed
    rfl
  · have hcount : [c].count '\n' = 0 :=
      List.count_eq_zero.mpr fun hmem => hfeed (List.mem_singleton.mp hmem).symm
    rw [hcount]
    unfold moved isStrayBreak
    by_cases hpair : (c == '\r' && next == '\n') = true
    · rw [if_pos hpair, hpair, Bool.not_true, Bool.and_false]
      rfl
    · rw [if_neg hpair, eq_false_of_ne_true hpair, Bool.not_false, Bool.and_true,
        bne_iff_ne.mpr hfeed, Bool.and_true]
      split
      · rfl
      · split
        · rfl
        · rfl

theorem column_moved_le (m : Mark) (c next : Char) : (moved m c next).column ≤ m.column + 1 := by
  unfold moved
  split
  · exact Nat.le_refl _
  · split
    · exact Nat.zero_le _
    · split
      · exact Nat.le_succ _
      · exact Nat.le_refl _

/-- A mark is as many lines further down as line feeds and stray line ends were read. -/
theorem line_skip (n : Nat) (c : Cursor) : (c.skip n).mark.line =
    c.mark.line + (c.rest.take n).count '\n' + strayBreaks n c.rest := by
  obtain ⟨rest, m⟩ := c
  induction n generalizing rest m with
  | zero => rfl
  | succ n ih =>
    cases rest with
    | nil =>
      have hnext := ih [] m
      rw [List.take_nil] at hnext ⊢
      cases n with
      | zero => exact hnext
      | succ n => exact hnext
    | cons ch rest =>
      show ((⟨rest, moved m ch (rest.headD nul)⟩ : Cursor).skip n).mark.line = _
      rw [ih, line_moved, List.take_succ_cons, strayBreaks]
      have hcount : ([ch] ++ rest.take n).count '\n' =
          [ch].count '\n' + (rest.take n).count '\n' := List.count_append
      rw [show ch :: rest.take n = [ch] ++ rest.take n from rfl, hcount]
      show _ + _ + (rest.take n).count '\n' + strayBreaks n rest = m.line + _ + _
      omega

/-- Where no stray line end was read, a column is one of the line that as many line feeds lead to. -/
theorem column_skip_le (n : Nat) (c : Cursor) (h : strayBreaks n c.rest = 0) :
    (c.skip n).mark.column ≤ (if (c.rest.take n).count '\n' = 0 then c.mark.column else 0) +
      ((Text.lines c.rest)[(c.rest.take n).count '\n']?.getD []).length := by
  obtain ⟨rest, m⟩ := c
  induction n generalizing rest m with
  | zero => exact Nat.le_add_right _ _
  | succ n ih =>
    cases rest with
    | nil =>
      have hnext := ih [] m (by cases n <;> rfl)
      rw [List.take_nil] at hnext ⊢
      exact hnext
    | cons ch rest =>
      rw [strayBreaks, Nat.add_eq_zero_iff] at h
      show ((⟨rest, moved m ch (rest.headD nul)⟩ : Cursor).skip n).mark.column ≤ _
      have hnext := ih rest (moved m ch (rest.headD nul)) h.2
      refine Nat.le_trans hnext ?_
      show _ ≤ (if (ch :: rest.take n).count '\n' = 0 then m.column else 0) +
        ((Text.lines (ch :: rest))[(ch :: rest.take n).count '\n']?.getD []).length
      by_cases hfeed : ch = '\n'
      · subst hfeed
        have hcolumn : (moved m '\n' (rest.headD nul)).column = 0 := rfl
        have hlines : Text.lines ('\n' :: rest) = [] :: Text.lines rest := rfl
        rw [List.count_cons_self, hlines, List.getElem?_cons_succ, hcolumn]
        split
        · exact Nat.le_refl _
        · exact Nat.le_refl _
      · have hcolumn := column_moved_le m ch (rest.headD nul)
        rw [List.count_cons_of_ne hfeed]
        simp only [Text.lines, Text.splitAt, if_neg hfeed]
        cases hlines : Text.splitAt '\n' rest with
        | nil => exact absurd hlines (Text.splitAt_ne_nil _ _)
        | cons piece pieces =>
          cases hcount : (rest.take n).count '\n' with
          | zero =>
            show (moved m ch (rest.headD nul)).column + piece.length ≤ m.column + (piece.length + 1)
            omega
          | succ k => exact Nat.le_refl _

end Cursor
end Yaml
end TalkDeck
