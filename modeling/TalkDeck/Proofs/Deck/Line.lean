import Mathlib.Data.List.TakeWhile
import TalkDeck.Deck.Line

/-
Keys and values in a line.

A key span marks a key when blanks and a colon come after it (`KeySpan.Marks`); every reader of keys
finds such spans.  The value of a marked key is what follows the colon, trimmed, and the two ways in
which its end is computed agree.
-/

namespace TalkDeck

namespace Text

theorem trimRight_append_of_allBlank {ys : List Char} (xs : List Char) (h : allBlank ys = true) :
    trimRight (xs ++ ys) = trimRight xs := by
  have hall : ∀ c ∈ ys.reverse, isBlank c = true := by
    intro c hc
    exact List.all_eq_true.mp h c (List.mem_reverse.mp hc)
  rw [trimRight, List.reverse_append, List.dropWhile_append_of_pos hall, trimRight]

theorem trimRight_append_of_not_allBlank {ys : List Char} (xs : List Char)
    (h : ¬ allBlank ys = true) : trimRight (xs ++ ys) = xs ++ trimRight ys := by
  have hne : ys.reverse.dropWhile isBlank ≠ [] := by
    intro hnil
    refine h (List.all_eq_true.mpr fun c hc => ?_)
    exact List.dropWhile_eq_nil_iff.mp hnil c (List.mem_reverse.mpr hc)
  rw [trimRight, List.reverse_append, List.dropWhile_append, if_neg (by simpa using hne),
    List.reverse_append, List.reverse_reverse, trimRight]

theorem trimRight_eq_nil {xs : List Char} (h : allBlank xs = true) : trimRight xs = [] :=
  trimRight_append_of_allBlank [] h

/-- Trimming only takes blanks away at the end. -/
theorem trimRight_isPrefix (xs : List Char) : trimRight xs <+: xs := by
  have hsuffix := List.dropWhile_suffix isBlank (l := xs.reverse)
  have hprefix := List.reverse_prefix.mpr hsuffix
  rw [List.reverse_reverse] at hprefix
  exact hprefix

theorem blankLead_le (cs : List Char) : blankLead cs ≤ cs.length :=
  (List.takeWhile_prefix isBlank).length_le

end Text

namespace Line

open Text

/-- The first colon at or after a place, or the end of the line. -/
def colonFrom (l : Line) (start : Nat) : Nat :=
  start + ((l.drop start).takeWhile (· != ':')).length

theorem drop_valueStart (l : Line) (colon : Nat) :
    l.drop (l.valueStart colon) = trimLeft (l.drop (colon + 1)) := by
  rw [valueStart, trimLeft_eq_drop, List.drop_drop]

theorem valueStart_le {l : Line} {colon : Nat} (h : colon < l.length) :
    l.valueStart colon ≤ l.length := by
  have hle := blankLead_le (l.drop (colon + 1))
  rw [List.length_drop] at hle
  rw [valueStart]
  omega

theorem trimmedStop_le {l : Line} {start : Nat} (h : start ≤ l.length) :
    l.trimmedStop start ≤ l.length := by
  have hle := (trimRight_isPrefix (l.drop start)).length_le
  rw [List.length_drop] at hle
  rw [trimmedStop]
  omega

/-- Where the line ends without its blanks, but not before `start`, the text from `start` on ends
without its blanks. -/
theorem max_length_trimRight {l : Line} {start : Nat} (h : start ≤ l.length) :
    max start (trimRight l).length = l.trimmedStop start := by
  have hlength : (l.take start).length = start := List.length_take_of_le h
  have hsplit : l = l.take start ++ l.drop start := (List.take_append_drop start l).symm
  rw [trimmedStop]
  by_cases hblank : allBlank (l.drop start) = true
  · have hle := (trimRight_isPrefix (l.take start)).length_le
    rw [trimRight_eq_nil hblank]
    conv => lhs; rw [hsplit, trimRight_append_of_allBlank _ hblank]
    rw [List.length_nil]
    omega
  · conv => lhs; rw [hsplit, trimRight_append_of_not_allBlank _ hblank]
    rw [List.length_append]
    omega

namespace KeySpan

/-- A key with only blanks between it and its colon. -/
structure Marks (k : KeySpan) (l : Line) : Prop where
  start_le : k.start ≤ k.stop
  gap : ∃ gap tail, l.drop k.stop = gap ++ ':' :: tail ∧ allBlank gap = true ∧
    k.colon = k.stop + gap.length

variable {k : KeySpan} {l : Line}

theorem Marks.colon_lt (h : k.Marks l) : k.stop ≤ k.colon ∧ k.colon < l.length := by
  obtain ⟨gap, tail, hdrop, -, hcolon⟩ := h.gap
  have hlength := congrArg List.length hdrop
  rw [List.length_drop, List.length_append, List.length_cons] at hlength
  omega

theorem Marks.getElem?_colon (h : k.Marks l) : l[k.colon]? = some ':' := by
  obtain ⟨gap, tail, hdrop, -, hcolon⟩ := h.gap
  rw [hcolon, ← List.getElem?_drop, hdrop, List.getElem?_append_right (Nat.le_refl _),
    Nat.sub_self]
  rfl

/-- No blank is a colon, so the blanks are all there is before the first one. -/
theorem Marks.takeWhile_eq (h : k.Marks l) :
    ∃ gap, (l.drop k.stop).takeWhile (· != ':') = gap ∧ allBlank gap = true ∧
      k.colon = k.stop + gap.length := by
  obtain ⟨gap, tail, hdrop, hblank, hcolon⟩ := h.gap
  refine ⟨gap, ?_, hblank, hcolon⟩
  have hno : ∀ c ∈ gap, (c != ':') = true := by
    intro c hc
    have hc' := List.all_eq_true.mp hblank c hc
    rw [bne_iff_ne]
    rintro rfl
    exact absurd hc' (by decide)
  rw [hdrop]
  exact (takeWhile_append_stop hno (bne_self_eq_false ':') tail).1

theorem Marks.colonFrom_eq (h : k.Marks l) : l.colonFrom k.stop = k.colon := by
  obtain ⟨gap, hgap, -, hcolon⟩ := h.takeWhile_eq
  rw [colonFrom, hgap, hcolon]

end KeySpan

theorem eq_cons_of_head? {cs : List Char} {c : Char} (h : (cs.head? == some c) = true) :
    ∃ tail, cs = c :: tail := by
  cases cs with
  | nil => cases h
  | cons a tail =>
    have ha : a = c := by simpa using h
    exact ⟨tail, by rw [ha]⟩

theorem keyAt?_marks {start : Nat} {l : Line} {k : KeySpan} (h : keyAt? start l = some k) :
    k.Marks l := by
  unfold keyAt? at h
  dsimp only at h
  split at h
  · next hcond =>
    rw [Bool.and_eq_true] at hcond
    obtain rfl := Option.some.inj h
    obtain ⟨tail, htail⟩ := eq_cons_of_head? hcond.2
    refine ⟨Nat.le_add_right _ _, _, tail, ?_, List.all_takeWhile, rfl⟩
    -- After the name come blanks, and after those the colon.
    rw [← List.drop_drop, ← htail, ← trimLeft_eq_drop, trimLeft, List.takeWhile_append_dropWhile]
  · cases h

theorem topKey?_marks {l : Line} {k : KeySpan} (h : l.topKey? = some k) : k.Marks l := by
  unfold topKey? at h
  split at h
  · cases h
  · exact keyAt?_marks h

theorem stepKey?_marks {l : Line} {k : KeySpan} (h : l.stepKey? = some k) : k.Marks l := by
  unfold stepKey? at h
  dsimp only at h
  split at h
  · next hcond =>
    rw [Bool.and_eq_true] at hcond
    obtain rfl := Option.some.inj h
    obtain ⟨tail, htail⟩ := eq_cons_of_head? hcond.2
    exact ⟨Nat.le_add_right _ _, [], tail, htail, rfl, rfl⟩
  · cases h

theorem typeAfterBlank?_eq_some {offset n : Nat} {blankBefore : Bool} {cs : List Char}
    (h : typeAfterBlank? offset blankBefore cs = some n) : n + 5 ≤ offset + cs.length := by
  induction cs generalizing offset blankBefore with
  | nil => cases h
  | cons c cs ih =>
    rw [typeAfterBlank?] at h
    split at h
    · next hcond =>
      rw [Bool.and_eq_true] at hcond
      obtain rfl := Option.some.inj h
      obtain ⟨rest, hrest⟩ := Option.isSome_iff_exists.mp hcond.2
      have hlength := congrArg List.length (strip?_eq_some_iff.mp hrest)
      rw [List.length_append, show typeWord.length = 5 from rfl] at hlength
      omega
    · have hle := ih h
      rw [List.length_cons]
      omega

theorem stepTypeStart?_le {l : Line} {start : Nat} (h : l.stepTypeStart? = some start) :
    start ≤ l.length := by
  obtain ⟨n, hn, rfl⟩ := Option.map_eq_some_iff.mp h
  have hle := typeAfterBlank?_eq_some hn
  exact valueStart_le (by omega)

end Line
end TalkDeck
