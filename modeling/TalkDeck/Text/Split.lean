/-
Splitting a text at a separator, and joining the pieces again.  Splitting always yields at least
one piece, and joining undoes it.
-/

namespace TalkDeck
namespace Text

/-- The pieces between the separators; a text without one is its own single piece. -/
def splitAt (sep : Char) : List Char → List (List Char)
  | [] => [[]]
  | c :: cs =>
    if c = sep then [] :: splitAt sep cs
    else
      match splitAt sep cs with
      | [] => [[c]]
      | piece :: pieces => (c :: piece) :: pieces

def joinWith (sep : List Char) : List (List Char) → List Char
  | [] => []
  | [piece] => piece
  | piece :: pieces => piece ++ sep ++ joinWith sep pieces

/-- The lines of a text.  Only the line feed ends a line. -/
def lines (cs : List Char) : List (List Char) := splitAt '\n' cs

def unlines (ls : List (List Char)) : List Char := joinWith ['\n'] ls

theorem splitAt_ne_nil (sep : Char) (cs : List Char) : splitAt sep cs ≠ [] := by
  cases cs with
  | nil => simp [splitAt]
  | cons c cs =>
    unfold splitAt
    split
    · simp
    · split <;> simp

theorem joinWith_splitAt (sep : Char) (cs : List Char) :
    joinWith [sep] (splitAt sep cs) = cs := by
  induction cs with
  | nil => rfl
  | cons c cs ih =>
    unfold splitAt
    have hne := splitAt_ne_nil sep cs
    split
    · next h =>
      cases hs : splitAt sep cs with
      | nil => exact absurd hs hne
      | cons p ps => rw [hs] at ih; simp [joinWith, ih, h]
    · cases hs : splitAt sep cs with
      | nil => exact absurd hs hne
      | cons p ps =>
        rw [hs] at ih
        cases ps with
        | nil => simpa [joinWith] using ih
        | cons q qs => simpa [joinWith] using ih

/-- There is one piece more than separators. -/
theorem length_splitAt (sep : Char) (cs : List Char) :
    (splitAt sep cs).length = cs.count sep + 1 := by
  induction cs with
  | nil => rfl
  | cons c cs ih =>
    unfold splitAt
    split
    · next h => rw [List.length_cons, ih, h, List.count_cons_self]
    · next h =>
      rw [List.count_cons_of_ne h]
      split
      · next hnil => exact absurd hnil (splitAt_ne_nil sep cs)
      · next piece pieces hcons => rw [← ih, hcons]; rfl

/-- Texts joined by a separator split into the pieces of both. -/
theorem splitAt_append (sep : Char) (xs ys : List Char) :
    splitAt sep (xs ++ sep :: ys) = splitAt sep xs ++ splitAt sep ys := by
  induction xs with
  | nil => simp [splitAt]
  | cons c cs ih =>
    rw [List.cons_append, splitAt, splitAt, ih]
    split
    · rfl
    · cases hs : splitAt sep cs with
      | nil => exact absurd hs (splitAt_ne_nil sep cs)
      | cons p ps => rfl

theorem not_mem_of_mem_splitAt {sep : Char} {cs piece : List Char} (h : piece ∈ splitAt sep cs) :
    sep ∉ piece := by
  induction cs generalizing piece with
  | nil =>
    obtain rfl := List.mem_singleton.mp h
    exact List.not_mem_nil
  | cons c cs ih =>
    rw [splitAt] at h
    split at h
    · rcases List.mem_cons.mp h with rfl | h
      · exact List.not_mem_nil
      · exact ih h
    · next hc =>
      cases hs : splitAt sep cs with
      | nil => exact absurd hs (splitAt_ne_nil sep cs)
      | cons p ps =>
        rw [hs] at h ih
        rcases List.mem_cons.mp h with rfl | h
        · intro hmem
          rcases List.mem_cons.mp hmem with heq | hmem
          · exact hc heq.symm
          · exact ih List.mem_cons_self hmem
        · exact ih (List.mem_cons_of_mem p h)

theorem splitAt_of_not_mem {sep : Char} {cs : List Char} (h : sep ∉ cs) : splitAt sep cs = [cs] := by
  induction cs with
  | nil => rfl
  | cons c cs ih =>
    obtain ⟨hc, hcs⟩ := not_or.mp (mt List.mem_cons.mpr h)
    rw [splitAt, if_neg (Ne.symm hc), ih hcs]

/-- Pieces without a separator are what their join splits into. -/
theorem splitAt_joinWith {sep : Char} {pieces : List (List Char)} (hne : pieces ≠ [])
    (h : ∀ piece ∈ pieces, sep ∉ piece) : splitAt sep (joinWith [sep] pieces) = pieces := by
  induction pieces with
  | nil => exact absurd rfl hne
  | cons p ps ih =>
    have hp := splitAt_of_not_mem (h p List.mem_cons_self)
    cases ps with
    | nil => exact hp
    | cons q qs =>
      rw [joinWith, List.append_assoc, List.singleton_append, splitAt_append, hp,
        ih (List.cons_ne_nil q qs) fun piece hmem => h piece (List.mem_cons_of_mem p hmem)]
      · rfl
      · exact List.cons_ne_nil q qs

theorem unlines_lines (cs : List Char) : unlines (lines cs) = cs := joinWith_splitAt '\n' cs

theorem lines_unlines {ls : List (List Char)} (hne : ls ≠ []) (h : ∀ l ∈ ls, '\n' ∉ l) :
    lines (unlines ls) = ls := splitAt_joinWith hne h

/-- The text without `lead`, if it opens with it. -/
def strip? : List Char → List Char → Option (List Char)
  | [], cs => some cs
  | _ :: _, [] => none
  | p :: ps, c :: cs => if p = c then strip? ps cs else none

theorem strip?_eq_some_iff {lead cs rest : List Char} :
    strip? lead cs = some rest ↔ cs = lead ++ rest := by
  induction lead generalizing cs with
  | nil => simp [strip?, eq_comm]
  | cons p ps ih =>
    cases cs with
    | nil => simp [strip?]
    | cons c cs =>
      unfold strip?
      split
      · next h => subst h; simp [ih]
      · next h => simp [Ne.symm h]

/-- A run and what follows it, read off a text in which a character outside the run ends it. -/
theorem takeWhile_append_stop {p : Char → Bool} {xs : List Char} {c : Char}
    (hxs : ∀ x ∈ xs, p x = true) (hc : p c = false) (ys : List Char) :
    (xs ++ c :: ys).takeWhile p = xs ∧ (xs ++ c :: ys).dropWhile p = c :: ys := by
  have hstop : ¬p c = true := Bool.eq_false_iff.mp hc
  rw [List.takeWhile_append_of_pos hxs, List.dropWhile_append_of_pos hxs,
    List.takeWhile_cons_of_neg hstop, List.dropWhile_cons_of_neg hstop, List.append_nil]
  exact ⟨rfl, rfl⟩

/-- Whether `part` occurs somewhere in the text. -/
def hasPart (part : List Char) : List Char → Bool
  | [] => part.isEmpty
  | c :: cs => (strip? part (c :: cs)).isSome || hasPart part cs

def replaceChar (a b : Char) (cs : List Char) : List Char :=
  cs.map fun c => if c = a then b else c

end Text
end TalkDeck
