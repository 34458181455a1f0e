import TalkDeck.Position

/-
The order of positions, and ranges inside ranges.
-/

namespace TalkDeck

namespace Position

variable {p q r : Position}

/-- Line first, then character, and not the same. -/
def lt (p q : Position) : Prop := p.line < q.line ∨ (p.line = q.line ∧ p.character < q.character)

instance (p q : Position) : Decidable (lt p q) := by unfold lt; infer_instance

theorem le_refl (p : Position) : le p p := Or.inr ⟨rfl, Nat.le_refl _⟩

theorem le_trans (h : le p q) (h' : le q r) : le p r := by
  unfold le at *
  omega

theorem lt_of_le_of_lt (h : le p q) (h' : lt q r) : lt p r := by
  unfold le lt at *
  omega

theorem lt_of_lt_of_le (h : lt p q) (h' : le q r) : lt p r := by
  unfold le lt at *
  omega

theorem lt_irrefl (p : Position) : ¬ lt p p := by
  unfold lt
  omega

end Position

namespace Range

/-- Whether a range lies inside another, ends included. -/
def Inside (r outer : Range) : Prop :=
  Position.le outer.start r.start ∧ Position.le r.stop outer.stop

/-- A range that runs forward within one line of the given length. -/
def WithinLine (r : Range) (n length : Nat) : Prop :=
  ∃ a b, r = onLine n a b ∧ a ≤ b ∧ b ≤ length

theorem Inside.trans {r t u : Range} (h : r.Inside t) (h' : t.Inside u) : r.Inside u :=
  ⟨Position.le_trans h'.1 h.1, Position.le_trans h.2 h'.2⟩

/-- A range from the left edge holds the beginning of its last line. -/
theorem holds_lastLine {r : Range} (hforward : Position.le r.start r.stop)
    (hleft : r.start.character = 0) : r.holds ⟨r.stop.line, 0⟩ = true := by
  rw [holds_iff]
  rcases hforward with hline | ⟨hline, -⟩
  · exact ⟨Or.inl hline, Or.inr ⟨rfl, Nat.zero_le _⟩⟩
  · exact ⟨Or.inr ⟨hline, Nat.le_of_eq hleft⟩, Or.inr ⟨rfl, Nat.zero_le _⟩⟩

/-- Ranges that follow each other have no position in common. -/
theorem not_holds_of_lt {r t : Range} {p : Position} (h : Position.lt r.stop t.start)
    (hr : r.holds p = true) : t.holds p = false := by
  rw [Bool.eq_false_iff]
  intro ht
  have hle := ((holds_iff r p).mp hr).2
  have hge := ((holds_iff t p).mp ht).1
  exact Position.lt_irrefl p
    (Position.lt_of_le_of_lt hle (Position.lt_of_lt_of_le h hge))

end Range
end TalkDeck
