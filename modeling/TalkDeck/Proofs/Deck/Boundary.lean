import TalkDeck.Proofs.Deck.Reading

/-
Front matter, boundaries and the spans between them.

Whether a delimiter is a boundary hangs on the number of fences before it, so the scan of a text
continues after any of its prefixes with the parity of the fences in that prefix
(`boundariesFrom_append`).  From this come both the description of the boundaries one by one
(`mem_boundariesFrom`) and what the scan does on two texts joined.
-/

namespace TalkDeck

namespace Line

/-- A fence opens with a backquote and a delimiter with a dash. -/
theorem isDelimiter_of_isFence {l : Line} (h : l.isFence = true) : l.isDelimiter = false := by
  obtain ⟨rest, hrest⟩ := Option.isSome_iff_exists.mp h
  rw [Text.strip?_eq_some_iff.mp hrest]
  rfl

theorem three_le_length_of_isDelimiter {l : Line} (h : l.isDelimiter = true) : 3 ≤ l.length := by
  rw [isDelimiter, Bool.and_eq_true] at h
  obtain ⟨rest, hrest⟩ := Option.isSome_iff_exists.mp h.1
  rw [Text.strip?_eq_some_iff.mp hrest, List.length_append]
  exact Nat.le_add_right 3 rest.length

end Line

namespace Document

/-! ## Front matter -/

theorem delimiterFrom_eq_some {n m length : Nat} {ls : List Line}
    (h : delimiterFrom n ls = some (m, length)) :
    ∃ i l, m = n + i ∧ ls[i]? = some l ∧ l.isDelimiter = true ∧ length = l.length := by
  induction ls generalizing n with
  | nil => cases h
  | cons l ls ih =>
    rw [delimiterFrom] at h
    split at h
    · next hl =>
      cases h
      exact ⟨0, l, rfl, rfl, hl, rfl⟩
    · obtain ⟨i, l', rfl, hi, hl', hlength⟩ := ih h
      exact ⟨i + 1, l', by omega, hi, hl', hlength⟩

theorem delimiterFrom_append {n : Nat} {ls : List Line} {p : Nat × Nat} (more : List Line)
    (h : delimiterFrom n ls = some p) : delimiterFrom n (ls ++ more) = some p := by
  induction ls generalizing n with
  | nil => cases h
  | cons l ls ih =>
    rw [delimiterFrom] at h
    rw [List.cons_append, delimiterFrom]
    split
    · next hl =>
      rw [if_pos hl] at h
      exact h
    · next hl =>
      rw [if_neg hl] at h
      exact ih h

/-- Front matter ends in a delimiter below the first line. -/
theorem frontmatterOf_eq_some {all : List Line} {r : Range} (h : frontmatterOf all = some r) :
    ∃ m l, 0 < m ∧ all[m]? = some l ∧ l.isDelimiter = true ∧ r = ⟨⟨0, 0⟩, ⟨m, l.length⟩⟩ := by
  cases all with
  | nil => cases h
  | cons first ls =>
    rw [frontmatterOf] at h
    split at h
    · obtain ⟨⟨m, length⟩, hm, rfl⟩ := Option.map_eq_some_iff.mp h
      obtain ⟨i, l, rfl, hi, hl, rfl⟩ := delimiterFrom_eq_some hm
      refine ⟨1 + i, l, by omega, ?_, hl, rfl⟩
      rw [Nat.add_comm 1 i, List.getElem?_cons_succ]
      exact hi
    · cases h

theorem bodyStart_le (all : List Line) : bodyStart (frontmatterOf all) ≤ all.length := by
  cases h : frontmatterOf all with
  | none => exact Nat.zero_le _
  | some r =>
    obtain ⟨m, l, -, hm, -, rfl⟩ := frontmatterOf_eq_some h
    obtain ⟨hlt, -⟩ := List.getElem?_eq_some_iff.mp hm
    exact hlt

/-- More lines at the end do not change the front matter, unless its opening line stood alone. -/
theorem frontmatterOf_append {all : List Line} (more : List Line) (hall : all ≠ [])
    (h : (all.headD []).isDelimiter = false ∨ frontmatterOf all ≠ none) :
    frontmatterOf (all ++ more) = frontmatterOf all := by
  obtain ⟨first, ls, rfl⟩ := List.exists_cons_of_ne_nil hall
  rw [List.cons_append, frontmatterOf, frontmatterOf]
  split
  · next hfirst =>
    cases hd : delimiterFrom 1 ls with
    | some p => rw [delimiterFrom_append more hd]
    | none =>
      rcases h with hno | hsome
      · rw [show (List.headD (first :: ls) []).isDelimiter = true from hfirst] at hno
        cases hno
      · rw [frontmatterOf, if_pos hfirst, hd] at hsome
        exact absurd rfl hsome
  · rfl

/-! ## Boundaries -/

/-- Whether a number of fences leaves the scan inside code. -/
def oddFences (ls : List Line) : Bool := ls.countP (·.isFence) % 2 == 1

theorem oddFences_cons (l : Line) (ls : List Line) :
    oddFences (l :: ls) = (l.isFence ^^ oddFences ls) := by
  unfold oddFences
  rw [List.countP_cons]
  cases l.isFence with
  | false => simp
  | true =>
    rcases Nat.mod_two_eq_zero_or_one (ls.countP (·.isFence)) with hmod | hmod
    · rw [if_pos rfl, hmod, Nat.add_mod, hmod]
      rfl
    · rw [if_pos rfl, hmod, Nat.add_mod, hmod]
      rfl

theorem boundariesFrom_append (n : Nat) (inCode : Bool) (xs ys : List Line) :
    boundariesFrom n inCode (xs ++ ys) =
      boundariesFrom n inCode xs ++
        boundariesFrom (n + xs.length) (inCode ^^ oddFences xs) ys := by
  induction xs generalizing n inCode with
  | nil => simp [boundariesFrom, oddFences]
  | cons l xs ih =>
    have hlength : n + (l :: xs).length = n + 1 + xs.length := by
      rw [List.length_cons]
      omega
    rw [List.cons_append, boundariesFrom, boundariesFrom, hlength, oddFences_cons]
    by_cases hl : l.isFence = true
    · rw [if_pos hl, if_pos hl, ih, hl, ← Bool.xor_assoc, Bool.xor_true]
    · rw [if_neg hl, if_neg hl, Bool.eq_false_iff.mpr hl, Bool.false_xor]
      split
      · rw [ih, List.cons_append]
      · rw [ih]

/-- One line of the scan: it may be a boundary itself, and a fence turns code into text or text into
code for the lines below it. -/
theorem mem_boundariesFrom_cons {m n : Nat} {inCode : Bool} {l : Line} {ls : List Line} :
    m ∈ boundariesFrom n inCode (l :: ls) ↔
      (m = n ∧ l.isDelimiter = true ∧ inCode = false) ∨
        m ∈ boundariesFrom (n + 1) (inCode ^^ l.isFence) ls := by
  rw [boundariesFrom]
  by_cases hfence : l.isFence = true
  · rw [if_pos hfence, hfence, Line.isDelimiter_of_isFence hfence, Bool.xor_true]
    simp
  · rw [if_neg hfence, Bool.eq_false_iff.mpr hfence, Bool.xor_false]
    split
    case isTrue h =>
      rw [Bool.and_eq_true, Bool.not_eq_true'] at h
      simp [h]
    case isFalse h =>
      refine ⟨Or.inr, fun hm => hm.resolve_left ?_⟩
      rintro ⟨-, hl, rfl⟩
      exact h hl

/-- The boundaries are the delimiters with an even number of fences before them, or with an odd one
when the text begins inside code. -/
theorem mem_boundariesFrom {m n : Nat} {inCode : Bool} {ls : List Line} :
    m ∈ boundariesFrom n inCode ls ↔
      ∃ i l, m = n + i ∧ ls[i]? = some l ∧ l.isDelimiter = true ∧
        oddFences (ls.take i) = inCode := by
  induction ls generalizing n inCode with
  | nil => simp [boundariesFrom]
  | cons first ls ih =>
    rw [mem_boundariesFrom_cons, ih]
    constructor
    · rintro (⟨rfl, hl, rfl⟩ | ⟨i, l, rfl, hi, hl, hodd⟩)
      · exact ⟨0, first, rfl, rfl, hl, rfl⟩
      · refine ⟨i + 1, l, by omega, hi, hl, ?_⟩
        rw [List.take_succ_cons, oddFences_cons, hodd, Bool.xor_comm, Bool.xor_assoc, Bool.xor_self,
          Bool.xor_false]
    · rintro ⟨i, l, rfl, hi, hl, hodd⟩
      cases i with
      | zero =>
        cases hi
        exact Or.inl ⟨rfl, hl, hodd.symm⟩
      | succ i =>
        rw [List.take_succ_cons, oddFences_cons] at hodd
        refine Or.inr ⟨i, l, by omega, hi, hl, ?_⟩
        rw [← hodd, Bool.xor_comm, ← Bool.xor_assoc, Bool.xor_self, Bool.false_xor]

theorem boundariesFrom_add (n k : Nat) (inCode : Bool) (ls : List Line) :
    boundariesFrom (n + k) inCode ls = (boundariesFrom n inCode ls).map (· + k) := by
  induction ls generalizing n inCode with
  | nil => rfl
  | cons l ls ih =>
    rw [boundariesFrom, boundariesFrom, Nat.add_right_comm n k 1]
    split
    · exact ih _ _
    · split
      · rw [List.map_cons, ih]
      · exact ih _ _

/-! ## Spans -/

theorem length_spans (start : Nat) (bs : List Nat) (size : Nat) :
    (spans start bs size).length = bs.length + 1 := by
  induction bs generalizing start with
  | nil => rfl
  | cons b bs ih => rw [spans, List.length_cons, ih, List.length_cons]

theorem spans_append (start m size : Nat) (bs cs : List Nat) :
    spans start (bs ++ m :: cs) size = spans start bs m ++ spans (m + 1) cs size := by
  induction bs generalizing start with
  | nil => rfl
  | cons b bs ih => rw [List.cons_append, spans, ih, spans, List.cons_append]

theorem spans_add (start k size : Nat) (bs : List Nat) :
    spans (start + k) (bs.map (· + k)) (size + k) =
      (spans start bs size).map fun p => (p.1 + k, p.2 + k) := by
  induction bs generalizing start with
  | nil => rfl
  | cons b bs ih =>
    rw [List.map_cons, spans, Nat.add_right_comm b k 1, ih, spans, List.map_cons]

/-- A span begins after a boundary and ends before one. -/
theorem mem_spans {start size : Nat} {bs : List Nat} {p : Nat × Nat}
    (h : p ∈ spans start bs size) :
    (p.1 = start ∨ ∃ b ∈ bs, p.1 = b + 1) ∧ (p.2 = size ∨ p.2 ∈ bs) := by
  induction bs generalizing start with
  | nil =>
    obtain rfl := List.mem_singleton.mp h
    exact ⟨Or.inl rfl, Or.inl rfl⟩
  | cons b bs ih =>
    rw [spans] at h
    rcases List.mem_cons.mp h with rfl | h
    · exact ⟨Or.inl rfl, Or.inr List.mem_cons_self⟩
    · obtain ⟨hfirst, hbeyond⟩ := ih h
      refine ⟨Or.inr ?_, hbeyond.imp_right (List.mem_cons_of_mem b)⟩
      rcases hfirst with hfirst | ⟨c, hc, hfirst⟩
      · exact ⟨b, List.mem_cons_self, hfirst⟩
      · exact ⟨c, List.mem_cons_of_mem b hc, hfirst⟩

/-! ## Boundaries and spans of a deck -/

variable {d : Document}

/-- The boundaries of a deck are the delimiters after its front matter that have an even number of
fences before them. -/
theorem mem_boundaries {n : Nat} :
    n ∈ d.boundaries ↔ bodyStart d.frontmatter ≤ n ∧ n < d.lineCount ∧
      (d.line n).isDelimiter = true ∧
      ((d.lines.take n).drop (bodyStart d.frontmatter)).countP (·.isFence) % 2 = 0 := by
  have hodd : ∀ ls, oddFences ls = false ↔ ls.countP (·.isFence) % 2 = 0 := by
    intro ls
    rw [oddFences, beq_eq_false_iff_ne]
    omega
  rw [boundaries, mem_boundariesFrom]
  constructor
  · rintro ⟨i, l, rfl, hi, hl, hfences⟩
    rw [List.getElem?_drop] at hi
    rw [List.take_drop, hodd] at hfences
    refine ⟨Nat.le_add_right _ i, (List.getElem?_eq_some_iff.mp hi).1, ?_, hfences⟩
    rw [line, hi]
    exact hl
  · rintro ⟨hstart, hsize, hl, hfences⟩
    obtain ⟨i, rfl⟩ := Nat.exists_eq_add_of_le hstart
    refine ⟨i, d.line (bodyStart d.frontmatter + i), rfl, ?_, hl, ?_⟩
    · rw [List.getElem?_drop, line, List.getElem?_eq_getElem hsize]
      rfl
    · rw [List.take_drop, hodd]
      exact hfences

theorem snd_le_of_mem_slideSpans {p : Nat × Nat} (h : p ∈ d.slideSpans) : p.2 ≤ d.lineCount := by
  rcases (mem_spans h).2 with heq | hb
  · exact Nat.le_of_eq heq
  · exact Nat.le_of_lt (mem_boundaries.mp hb).2.1

end Document
end TalkDeck
