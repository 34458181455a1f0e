import TalkDeck.Proofs.Deck.Located

/-
Where blocks end.

A closed block ends on the fence that follows its content.  A block that is still open when its
slide ends stops at the start of the slide's last line, which is the last line of its content too
(`ends_of_mem_scan`).  So the range of a block lies inside that of its slide, but only the range of
a closed block is sure to hold all of the content.
-/

namespace TalkDeck

theorem Line.three_le_length_of_isFenceClose {l : Line} (h : l.isFenceClose = true) :
    3 ≤ l.length := by
  rw [isFenceClose, Option.any_eq_true] at h
  obtain ⟨rest, hrest, -⟩ := h
  rw [Text.strip?_eq_some_iff.mp hrest, List.length_append]
  exact Nat.le_add_right 3 rest.length

namespace Block

/-- The two ways in which a block among the lines before `beyond` can end. -/
inductive Raw.Ends (r : Raw) (all : List Line) (beyond : Nat) : Prop where
  | closed (flag : r.unclosed = false) (last : r.last = r.first + 1 + r.content.length)
    (before : r.last < beyond) (fence : ((all[r.last]?).getD []).isFenceClose = true)
  | unclosed (flag : r.unclosed = true) (last : r.last = r.first + r.content.length)
    (before : r.last + 1 = beyond)

theorem ends_of_mem_scan {all ls : List Line} {n : Nat} {r : Raw} (hls : ls <+: all.drop n)
    (h : r ∈ scan n none ls) : r.Ends all (n + ls.length) := by
  obtain ⟨before, tail, fence, hfound⟩ := found_of_mem_scan h
  have hlast := last_of_mem_scan (by simp) h
  have hlength := congrArg List.length hfound.lines
  simp only [List.length_append, List.length_cons] at hlength
  have hfirst := hfound.first
  have hlines := hfound.lines
  cases hfound.stops with
  | @closed close more flag hclose =>
    rw [flag, Bool.toNat_false, Nat.add_zero] at hlast
    rw [List.length_cons] at hlength
    refine .closed flag hlast (by omega) ?_
    obtain ⟨rest, hrest⟩ := hls
    have hplace : r.last = n + (before ++ fence :: r.content).length := by
      rw [List.length_append, List.length_cons]
      omega
    have hline : all[r.last]? = some close := by
      rw [hplace, ← List.getElem?_drop, ← hrest, hlines]
      simp
    rw [hline, Option.getD_some, hclose]
  | unclosed flag =>
    rw [flag, Bool.toNat_true] at hlast
    rw [List.length_nil] at hlength
    exact .unclosed flag (by omega) (by omega)

end Block

namespace Document

variable {limits : Limits} {d : Document} {first : Nat} {ls : List Line}

/-- A block of a slide is read from lines of the slide that follow its fence. -/
theorem ends_of_mem_blocks {sequenceType : String} {bs : List Block} (hls : ls <+: d.lines.drop first)
    (hblocks : List.Forall₂ (fun r b => Block.ofRaw limits sequenceType r = .ok b)
      (Block.scan first none ls) bs) {b : Block} (hb : b ∈ bs) :
    ∃ r o, b = Block.ofOutcome sequenceType r o ∧ r.content <+: d.lines.drop (r.first + 1) ∧
      first ≤ r.first ∧ r.Ends d.lines (first + ls.length) := by
  obtain ⟨r, o, hr, hbr⟩ := mem_scan_of_mem_blocks hblocks hb
  obtain ⟨hfirst, -, hcontent⟩ := Block.mem_scan hls hr
  exact ⟨r, o, hbr, hcontent, hfirst, Block.ends_of_mem_scan hls hr⟩

/-- The lines of a slide with their numbers. -/
theorem mem_zipIdx_line (hls : ls <+: d.lines.drop first) {n : Nat} (hfirst : first ≤ n)
    (hbeyond : n < first + ls.length) : (d.line n, n) ∈ ls.zipIdx first := by
  obtain ⟨k, rfl⟩ := Nat.exists_eq_add_of_le hfirst
  obtain ⟨rest, hrest⟩ := hls
  have hlt : k < ls.length := Nat.lt_of_add_lt_add_left hbeyond
  have hline : d.lines[first + k]? = some ls[k] := by
    rw [← List.getElem?_drop, ← hrest, List.getElem?_append_left hlt, List.getElem?_eq_getElem hlt]
  rw [List.mem_zipIdx_iff_le_and_getElem?_sub, line, hline]
  refine ⟨hfirst, ?_⟩
  show ls[first + k - first]? = some ls[k]
  rw [Nat.add_sub_cancel_left, List.getElem?_eq_getElem hlt]

/-- Either way a block stops on a line of the slide, and not beyond its end. -/
theorem exists_stop_of_ends {beyond : Nat} {r : Block.Raw} (h : r.Ends d.lines beyond)
    (sequenceType : String) (o : Fragment.Outcome) :
    ∃ n c, (Block.ofOutcome sequenceType r o).range.stop = ⟨n, c⟩ ∧ r.first ≤ n ∧
      n < beyond ∧ c ≤ (d.line n).length := by
  cases h with
  | closed flag last before fence =>
    refine ⟨r.last, 3, ?_, by omega, before, Line.three_le_length_of_isFenceClose fence⟩
    show (⟨r.last, if r.unclosed then 0 else 3⟩ : Position) = _
    rw [flag]
    rfl
  | unclosed flag last before =>
    refine ⟨r.last, 0, ?_, by omega, by omega, Nat.zero_le _⟩
    show (⟨r.last, if r.unclosed then 0 else 3⟩ : Position) = _
    rw [flag]
    rfl

/-- The range of a block lies inside the range of its slide. -/
theorem range_inside_of_ends (hls : ls <+: d.lines.drop first) (hne : ls.zipIdx first ≠ [])
    {r : Block.Raw} (hfirst : first ≤ r.first) (h : r.Ends d.lines (first + ls.length))
    (sequenceType : String) (o : Fragment.Outcome) :
    (Block.ofOutcome sequenceType r o).range.Inside (extent (ls.zipIdx first) hne) := by
  have hnumbers := numbers_zipIdx hls
  obtain ⟨n, c, hrange, hle, hlt, hc⟩ := exists_stop_of_ends h sequenceType o
  have hmem := mem_zipIdx_line hls (Nat.le_trans hfirst hle) hlt
  have hlast := hnumbers.inside hne hmem (r := Range.onLine n 0 c) ⟨0, c, rfl, Nat.zero_le c, hc⟩
  have hstart := hnumbers.inside hne
    (mem_zipIdx_line hls hfirst (Nat.lt_of_le_of_lt hle hlt))
    (r := Range.point r.first 0) ⟨0, 0, rfl, Nat.le_refl 0, Nat.zero_le _⟩
  refine ⟨hstart.1, ?_⟩
  rw [hrange]
  exact hlast.2

end Document
end TalkDeck
