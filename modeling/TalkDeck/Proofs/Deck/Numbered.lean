import TalkDeck.Proofs.Deck.Partition

/-
Numbered lines of a deck.

Slides, the contents of blocks and steps are all runs of lines that keep their numbers, and the
range of each is the extent of its lines: from the start of the first to the end of the last.  A
range on one of the lines lies inside the extent, and the extent of some of the lines inside that of
all.
-/

namespace TalkDeck

/-- From the start of the first line to the end of the last. -/
def extent (g : List (Line × Nat)) (h : g ≠ []) : Range :=
  ⟨⟨(g.head h).2, 0⟩, ⟨(g.getLast h).2, (g.getLast h).1.length⟩⟩

theorem extent_zipIdx (content : List Line) (start : Nat) (h : content.zipIdx start ≠ []) :
    extent (content.zipIdx start) h =
      ⟨⟨start, 0⟩, ⟨start + (content.length - 1), (content.getLast?.getD []).length⟩⟩ := by
  have hne : content ≠ [] := fun hnil => h (by rw [hnil]; rfl)
  have hfirst : (content.zipIdx start).head h = (content.head hne, start) := by
    apply Option.some.inj
    rw [← List.head?_eq_some_head, List.head?_zipIdx, List.head?_eq_some_head hne]
    rfl
  have hlast : (content.zipIdx start).getLast h =
      (content.getLast hne, start + content.length - 1) := by
    apply Option.some.inj
    rw [← List.getLast?_eq_some_getLast, List.getLast?_zipIdx,
      List.getLast?_eq_some_getLast hne]
    rfl
  have hpos : 0 < content.length := List.length_pos_of_ne_nil hne
  rw [extent, hfirst, hlast, List.getLast?_eq_some_getLast hne,
    Nat.add_sub_assoc (Nat.succ_le_of_lt hpos)]
  rfl

namespace Document

/-- Lines of a deck in the order of their numbers. -/
structure Numbers (d : Document) (g : List (Line × Nat)) : Prop where
  at_place : ∀ p ∈ g, d.lines[p.2]? = some p.1
  increasing : g.Pairwise fun p q => p.2 < q.2

/-- A range that runs forward and stays within its lines. -/
structure Bounds (d : Document) (r : Range) : Prop where
  forward : Position.le r.start r.stop
  start_le : r.start.character ≤ (d.line r.start.line).length
  stop_le : r.stop.character ≤ (d.line r.stop.line).length

/-- The same, on lines that the deck has. -/
structure Fits (d : Document) (r : Range) : Prop extends d.Bounds r where
  in_deck : r.stop.line < d.lineCount

/-- The text in a range of one line. -/
def textIn (d : Document) (r : Range) : List Char :=
  ((d.line r.start.line).take r.stop.character).drop r.start.character

theorem textIn_onLine (d : Document) (n start k : Nat) :
    d.textIn (Range.onLine n start (start + k)) = ((d.line n).drop start).take k := by
  show ((d.line n).take (start + k)).drop start = _
  rw [List.drop_take, Nat.add_sub_cancel_left]

variable {d : Document} {g g' : List (Line × Nat)}

/-- A part of a line is the text in its range. -/
theorem textIn_of_line {n : Nat} {before cs after : List Char} (h : d.line n = before ++ cs ++ after) :
    d.textIn (Range.onLine n before.length (before.length + cs.length)) = cs := by
  rw [textIn_onLine, h, List.append_assoc, List.drop_left, List.take_left]

theorem Numbers.sublist (h : d.Numbers g) (hsub : g'.Sublist g) : d.Numbers g' where
  at_place := fun p hp => h.at_place p (hsub.subset hp)
  increasing := h.increasing.sublist hsub

theorem numbers_zipIdx {content : List Line} {start : Nat} (h : content <+: d.lines.drop start) :
    d.Numbers (content.zipIdx start) := by
  constructor
  · intro p hp
    obtain ⟨hle, hget⟩ := List.mem_zipIdx_iff_le_and_getElem?_sub.mp hp
    obtain ⟨rest, hrest⟩ := h
    have hlt := (List.getElem?_eq_some_iff.mp hget).1
    have hall : (d.lines.drop start)[p.2 - start]? = some p.1 := by
      rw [← hrest, List.getElem?_append_left hlt, hget]
    rw [List.getElem?_drop, Nat.add_sub_cancel' hle] at hall
    exact hall
  · refine List.pairwise_iff_getElem.mpr fun i j hi hj hij => ?_
    rw [List.getElem_zipIdx, List.getElem_zipIdx]
    exact Nat.add_lt_add_left hij start

theorem Numbers.line_eq (h : d.Numbers g) {p : Line × Nat} (hp : p ∈ g) :
    p.2 < d.lineCount ∧ d.line p.2 = p.1 := by
  have hget := h.at_place p hp
  refine ⟨(List.getElem?_eq_some_iff.mp hget).1, ?_⟩
  rw [line, hget]
  rfl

theorem Numbers.fits (h : d.Numbers g) {p : Line × Nat} (hp : p ∈ g) {r : Range}
    (hr : r.WithinLine p.2 p.1.length) : d.Fits r := by
  obtain ⟨hlt, hline⟩ := h.line_eq hp
  obtain ⟨a, b, rfl, hab, hb⟩ := hr
  refine ⟨⟨Or.inr ⟨rfl, hab⟩, ?_, ?_⟩, hlt⟩
  · show a ≤ (d.line p.2).length
    rw [hline]
    exact Nat.le_trans hab hb
  · show b ≤ (d.line p.2).length
    rw [hline]
    exact hb

/-- The first line has the least number, and the last the greatest. -/
theorem Numbers.head_le_getLast (h : d.Numbers g) (hne : g ≠ []) {p : Line × Nat} (hp : p ∈ g) :
    (g.head hne).2 ≤ p.2 ∧ (p.2 < (g.getLast hne).2 ∨ p = g.getLast hne) := by
  constructor
  · obtain ⟨q, rest, rfl⟩ := List.exists_cons_of_ne_nil hne
    rcases List.mem_cons.mp hp with rfl | hp
    · exact Nat.le_refl _
    · exact Nat.le_of_lt ((List.pairwise_cons.mp h.increasing).1 p hp)
  · have hsplit := List.dropLast_append_getLast hne
    have hincreasing := h.increasing
    rw [← hsplit] at hp hincreasing
    rcases List.mem_append.mp hp with hp | hp
    · exact Or.inl ((List.pairwise_append.mp hincreasing).2.2 p hp _ (List.mem_singleton_self _))
    · exact Or.inr (List.mem_singleton.mp hp)

theorem Numbers.inside (h : d.Numbers g) (hne : g ≠ []) {p : Line × Nat} (hp : p ∈ g) {r : Range}
    (hr : r.WithinLine p.2 p.1.length) : r.Inside (extent g hne) := by
  obtain ⟨hfirst, hlast⟩ := h.head_le_getLast hne hp
  obtain ⟨a, b, rfl, -, hb⟩ := hr
  constructor
  · rcases Nat.lt_or_eq_of_le hfirst with hlt | heq
    · exact Or.inl hlt
    · exact Or.inr ⟨heq, Nat.zero_le a⟩
  · rcases hlast with hlt | heq
    · exact Or.inl hlt
    · right
      refine ⟨congrArg Prod.snd heq, ?_⟩
      show b ≤ (g.getLast hne).1.length
      rw [← heq]
      exact hb

theorem withinLine_whole (p : Line × Nat) :
    (Range.onLine p.2 0 p.1.length).WithinLine p.2 p.1.length :=
  ⟨0, p.1.length, rfl, Nat.zero_le _, Nat.le_refl _⟩

theorem Numbers.extent_inside (h : d.Numbers g) (hne : g ≠ []) (hsub : g'.Sublist g)
    (hne' : g' ≠ []) : (extent g' hne').Inside (extent g hne) :=
  ⟨(h.inside hne (hsub.subset (List.head_mem hne')) (withinLine_whole _)).1,
    (h.inside hne (hsub.subset (List.getLast_mem hne')) (withinLine_whole _)).2⟩

theorem Numbers.fits_extent (h : d.Numbers g) (hne : g ≠ []) : d.Fits (extent g hne) := by
  have hlast := withinLine_whole (g.getLast hne)
  have hfits := h.fits (List.getLast_mem hne) hlast
  have hstart := (h.inside hne (List.getLast_mem hne) hlast).1
  exact ⟨⟨Position.le_trans hstart hfits.forward, Nat.zero_le _, hfits.stop_le⟩, hfits.in_deck⟩

end Document

/-! ## Steps -/

namespace Step

/-- The groups one after the other are some of the lines, in their order. -/
theorem flatten_groups_sublist (ls : List (Line × Nat)) : (groups ls).flatten.Sublist ls := by
  -- Before the first group stand the lines that open no step.
  suffices h : (ls.takeWhile (fun p => !p.1.isStepStart) ++ (groups ls).flatten).Sublist ls from
    (List.sublist_append_right _ _).trans h
  induction ls with
  | nil => exact List.Sublist.slnil
  | cons p ls ih =>
    by_cases hp : p.1.isStepStart = true
    · rw [List.takeWhile_cons_of_neg (by simp [hp]), List.nil_append, groups, if_pos hp,
        List.flatten_cons, List.cons_append]
      exact ih.cons_cons p
    · rw [List.takeWhile_cons_of_pos (by simp [hp]), groups, if_neg hp, List.cons_append]
      exact ih.cons_cons p

theorem sublist_of_mem_groups {ls g : List (Line × Nat)} (h : g ∈ groups ls) : g.Sublist ls :=
  (List.sublist_flatten_of_mem h).trans (flatten_groups_sublist ls)

/-- Each step ends on an earlier line than the next begins on. -/
theorem pairwise_groups {d : Document} {ls : List (Line × Nat)} (h : d.Numbers ls) :
    (groups ls).Pairwise fun g g' => ∀ p ∈ g, ∀ q ∈ g', p.2 < q.2 :=
  (List.pairwise_flatten.mp (h.increasing.sublist (flatten_groups_sublist ls))).2

end Step

end TalkDeck
