import TalkDeck.Edit

/-
What an edit does to the lines of a text.

A position on a line that exists is the lines above it and the characters before it
(`offset_append`).  So an edit within a line changes that line (`apply_within`, and `apply_line` for all
of it), one that inserts a line with its end puts it above the line it starts at (`apply_insert`), and
one from the start of a line to the start of the next takes the line away (`apply_delete`).
-/

namespace TalkDeck
namespace Edit

open Text

/-- Lines that others follow, each with its end. -/
def above (ls : List (List Char)) : List Char := ls.flatMap (· ++ ['\n'])

theorem above_cons (x : List Char) (xs : List (List Char)) :
    above (x :: xs) = x ++ ['\n'] ++ above xs := rfl

theorem unlines_append (xs : List (List Char)) {ys : List (List Char)} (h : ys ≠ []) :
    unlines (xs ++ ys) = above xs ++ unlines ys := by
  induction xs with
  | nil => rfl
  | cons x xs ih =>
    have hne : xs ++ ys ≠ [] := List.append_ne_nil_of_right_ne_nil xs h
    have hstep : unlines (x :: (xs ++ ys)) = x ++ ['\n'] ++ unlines (xs ++ ys) :=
      joinWith.eq_3 _ _ _ hne
    rw [List.cons_append, hstep, ih, above_cons, List.append_assoc _ (above xs)]

/-- A position on a line comes after the lines above and what stands before it on the line. -/
theorem offset_append (xs : List (List Char)) (l : List Char) (ys : List (List Char)) (c : Nat) :
    offset (xs ++ l :: ys) ⟨xs.length, c⟩ = (above xs).length + min c l.length := by
  induction xs with
  | nil =>
    cases ys with
    | nil => simp [offset, above]
    | cons m ys => simp [offset, above]
  | cons x xs ih =>
    have hstep : offset (x :: (xs ++ l :: ys)) ⟨xs.length + 1, c⟩ =
        x.length + 1 + offset (xs ++ l :: ys) ⟨xs.length, c⟩ := by
      cases hrest : xs ++ l :: ys with
      | nil => simp at hrest
      | cons m ms => rfl
    rw [List.cons_append, List.length_cons, hstep, ih, above_cons, List.length_append,
      List.length_append, List.length_singleton]
    omega

section

variable {cs : List Char} {xs ys : List (List Char)}

theorem eq_above_append {l : List Char} (h : lines cs = xs ++ l :: ys) :
    cs = above xs ++ unlines (l :: ys) := by
  rw [← unlines_append xs (List.cons_ne_nil l ys), ← h, unlines_lines]

theorem apply_within {u old w : List Char} (h : lines cs = xs ++ (u ++ (old ++ w)) :: ys)
    (new : String) :
    apply ⟨Range.onLine xs.length u.length (u.length + old.length), new⟩ cs =
      unlines (xs ++ (u ++ (new.toList ++ w)) :: ys) := by
  have hrest : ∀ m : List Char, unlines ((u ++ (m ++ w)) :: ys) = u ++ (m ++ unlines (w :: ys)) := by
    intro m
    cases ys with
    | nil => simp [unlines, joinWith]
    | cons y ys => simp [unlines, joinWith]
  have hstart : offset (lines cs) ⟨xs.length, u.length⟩ = (above xs ++ u).length := by
    rw [h, offset_append]
    simp only [List.length_append]
    omega
  have hstop : offset (lines cs) ⟨xs.length, u.length + old.length⟩ =
      (above xs ++ u ++ old).length := by
    rw [h, offset_append]
    simp only [List.length_append]
    omega
  have hcs : cs = above xs ++ u ++ old ++ unlines (w :: ys) := by
    rw [eq_above_append h, hrest]
    simp only [List.append_assoc]
  have htake : cs.take (above xs ++ u).length = above xs ++ u := by
    rw [hcs, List.append_assoc _ old, List.take_left]
  have hdrop : cs.drop (above xs ++ u ++ old).length = unlines (w :: ys) := by
    rw [hcs, List.drop_left]
  simp only [apply, Range.onLine]
  rw [hstart, hstop, htake, hdrop, unlines_append xs (List.cons_ne_nil _ ys), hrest]
  simp only [List.append_assoc]

/-- The whole of a line is replaced. -/
theorem apply_line {n : Nat} {l : List Char} (h : (lines cs)[n]? = some l) (new : String) :
    apply ⟨Range.onLine n 0 l.length, new⟩ cs = unlines ((lines cs).set n new.toList) := by
  obtain ⟨hn, rfl⟩ := List.getElem?_eq_some_iff.mp h
  have hlength : ((lines cs).take n).length = n := List.length_take_of_le (Nat.le_of_lt hn)
  have hsplit : lines cs = (lines cs).take n ++ ([] ++ ((lines cs)[n] ++ [])) :: (lines cs).drop (n + 1) := by
    rw [List.append_nil, List.nil_append, List.getElem_cons_drop hn, List.take_append_drop]
  have hwithin := apply_within hsplit new
  rw [hlength, List.length_nil, Nat.zero_add, List.nil_append, List.append_nil] at hwithin
  rw [hwithin, List.set_eq_take_append_cons_drop, if_pos hn]

theorem apply_insert {l m : List Char} (h : lines cs = xs ++ l :: ys) {new : String}
    (hnew : new.toList = m ++ ['\n']) :
    apply ⟨Range.point xs.length 0, new⟩ cs = unlines (xs ++ m :: l :: ys) := by
  have hcs := eq_above_append h
  have hoffset : offset (lines cs) ⟨xs.length, 0⟩ = (above xs).length := by
    rw [h, offset_append, Nat.zero_min, Nat.add_zero]
  have htake : cs.take (above xs).length = above xs := by rw [hcs, List.take_left]
  have hdrop : cs.drop (above xs).length = unlines (l :: ys) := by rw [hcs, List.drop_left]
  simp only [apply, Range.point, Range.onLine]
  rw [hoffset, htake, hdrop, hnew, unlines_append xs (List.cons_ne_nil _ _)]
  simp [unlines, joinWith]

theorem apply_delete {l m : List Char} (h : lines cs = xs ++ l :: m :: ys) :
    apply ⟨⟨⟨xs.length, 0⟩, ⟨xs.length + 1, 0⟩⟩, ""⟩ cs = unlines (xs ++ m :: ys) := by
  have h' : lines cs = (xs ++ [l]) ++ m :: ys := by rw [h, List.append_assoc]; rfl
  have hcs := eq_above_append h
  have hcs' := eq_above_append h'
  have hstart : offset (lines cs) ⟨xs.length, 0⟩ = (above xs).length := by
    rw [h, offset_append, Nat.zero_min, Nat.add_zero]
  have hstop : offset (lines cs) ⟨xs.length + 1, 0⟩ = (above (xs ++ [l])).length := by
    have hlength : xs.length + 1 = (xs ++ [l]).length := by simp
    rw [h', hlength, offset_append, Nat.zero_min, Nat.add_zero]
  have htake : cs.take (above xs).length = above xs := by rw [hcs, List.take_left]
  have hdrop : cs.drop (above (xs ++ [l])).length = unlines (m :: ys) := by
    rw [hcs', List.drop_left]
  simp only [apply]
  rw [hstart, hstop, htake, hdrop, unlines_append xs (List.cons_ne_nil _ _)]
  simp

end

end Edit
end TalkDeck
