import TalkDeck.Proofs.EditDistance
import TalkDeck.Proofs.QuickFix.Trace

/-
Corrections of a misspelled type.

A correction is pinned to the first place in the diagnostic's range at which the type stands on its
own.  The search sees nothing beyond the end of the range, so a word that goes on there would be taken
for a whole one; the ranges of unknown types end before a blank or at the end of their line
(`Document.clear_of_mem_findings`), and there the search finds what stands on its own in the deck
(`findInRange?_cases`).  The theorem this file exists for is `Document.corrections_pinned`.
-/

namespace TalkDeck

open Text

/-! ## Words on their own -/

/-- A blank is no part of an identifier. -/
theorem Text.isDotted_of_isBlank {c : Char} (h : isBlank c = true) : isDotted c = false := by
  have hblanks : ∀ n ∈ [9, 10, 11, 12, 13, 28, 29, 30, 31, 32, 0x85, 0xA0, 0x1680, 0x2000, 0x2001,
      0x2002, 0x2003, 0x2004, 0x2005, 0x2006, 0x2007, 0x2008, 0x2009, 0x200A, 0x2028, 0x2029, 0x202F,
      0x205F, 0x3000], isDotted (Char.ofNat n) = false := by decide +kernel
  rw [← Char.ofNat_toNat c]
  refine hblanks _ ?_
  simp only [isBlank, Bool.or_eq_true, decide_eq_true_eq, beq_iff_eq] at h
  simp only [List.mem_cons, List.not_mem_nil, or_false]
  omega

/-- What is trimmed off at the end is blank. -/
theorem Text.exists_trimRight_append (cs : List Char) :
    ∃ blanks, cs = trimRight cs ++ blanks ∧ allBlank blanks = true := by
  refine ⟨(cs.reverse.takeWhile isBlank).reverse, ?_, ?_⟩
  · rw [trimRight, ← List.reverse_append, List.takeWhile_append_dropWhile, List.reverse_reverse]
  · rw [allBlank, List.all_reverse]
    exact List.all_takeWhile

/-- The first number of a run that has a value. -/
theorem findSome?_range'_eq_some {α : Type} {f : Nat → Option α} {s k : Nat} {x : α}
    (h : (List.range' s k).findSome? f = some x) :
    ∃ n, s ≤ n ∧ n < s + k ∧ f n = some x ∧ ∀ m, s ≤ m → m < n → f m = none := by
  obtain ⟨before, n, after, hsplit, hn, hbefore⟩ := List.findSome?_eq_some_iff.mp h
  have hmem : ∀ m, m ∈ before ++ n :: after ↔ s ≤ m ∧ m < s + k := by
    intro m
    rw [← hsplit, List.mem_range'_1]
  have hincreasing : (before ++ n :: after).Pairwise (· < ·) := hsplit ▸ List.pairwise_lt_range' 1
  obtain ⟨hle, hlt⟩ := (hmem n).mp (List.mem_append_right _ List.mem_cons_self)
  refine ⟨n, hle, hlt, hn, fun m hm hmn => hbefore m ?_⟩
  rcases List.mem_append.mp ((hmem m).mpr ⟨hm, by omega⟩) with hm | hm
  · exact hm
  · have hafter := (List.pairwise_cons.mp (List.pairwise_append.mp hincreasing).2.1).1
    rcases List.mem_cons.mp hm with rfl | hm
    · omega
    · have hlater := hafter m hm
      omega

namespace Line

variable {l : Line} {word : List Char} {a start limit : Nat}

/-- A word at a place, with no word character or dot beside it. -/
def StandsAt (l : Line) (word : List Char) (a : Nat) : Prop :=
  ∃ before after, l = before ++ word ++ after ∧ before.length = a ∧
    before.getLast?.any isDotted = false ∧ after.head?.any isDotted = false

theorem StandsAt.stop_le (h : l.StandsAt word a) : a + word.length ≤ l.length := by
  obtain ⟨before, after, rfl, rfl, -, -⟩ := h
  simp only [List.length_append]
  omega

/-- What stands directly after a word is the first character of the text after it. -/
theorem getElem?_after (before word after : List Char) :
    (before ++ (word ++ after))[before.length + word.length]? = after.head? := by
  rw [← List.append_assoc, ← List.length_append, List.getElem?_append_right (Nat.le_refl _),
    Nat.sub_self, List.head?_eq_getElem?]

/-- A search up to a place where no word goes on finds what stands on its own. -/
theorem standsAt_iff (hlimit : limit ≤ l.length) (hclear : (l[limit]?).any isDotted = false)
    (ha : a + word.length ≤ limit) :
    ((strip? word (l.drop a)).isSome && standsAlone l limit a (a + word.length)) = true ↔
      l.StandsAt word a := by
  rw [Bool.and_eq_true, Option.isSome_iff_exists, standsAlone, Bool.and_eq_true]
  constructor
  · rintro ⟨⟨after, hafter⟩, hleft, hright⟩
    have hline : l = l.take a ++ (word ++ after) := by
      rw [← strip?_eq_some_iff.mp hafter, List.take_append_drop]
    have hlength : (l.take a).length = a := List.length_take_of_le (by omega)
    have hnext : l[a + word.length]? = after.head? := by
      have hafter' := getElem?_after (l.take a) word after
      rwa [← hline, hlength] at hafter'
    refine ⟨l.take a, after, by rw [List.append_assoc]; exact hline, hlength, ?_, ?_⟩
    · rw [← clear_before_iff _ (word ++ after), ← hline, hlength]
      exact hleft
    · rw [← hnext]
      by_cases hat : limit ≤ a + word.length
      · rw [show a + word.length = limit by omega]
        exact hclear
      · simpa [hat] using hright
  · rintro ⟨before, after, rfl, rfl, hleft, hright⟩
    rw [List.append_assoc]
    refine ⟨⟨after, ?_⟩, (clear_before_iff before _ isDotted).mpr hleft, ?_⟩
    · rw [strip?_eq_some_iff, List.drop_left]
    · rw [getElem?_after, hright]
      simp

/-- The window of a search ends with the line at the latest. -/
theorem clear_min (hclear : (l[limit]?).any isDotted = false) :
    (l[min limit l.length]?).any isDotted = false := by
  rcases Nat.le_total limit l.length with h | h
  · rwa [Nat.min_eq_left h]
  · rw [Nat.min_eq_right h, List.getElem?_eq_none (Nat.le_refl _)]
    rfl

theorem findWord?_eq_some (hclear : (l[limit]?).any isDotted = false)
    (h : l.findWord? word start limit = some a) :
    (start ≤ a ∧ a + word.length ≤ limit ∧ l.StandsAt word a) ∧
      ∀ b, start ≤ b → b + word.length ≤ limit → l.StandsAt word b → a ≤ b := by
  obtain ⟨hfound, hmem, hfirst⟩ := List.find?_range'_eq_some.mp h
  rw [Bool.and_assoc, Bool.and_eq_true, decide_eq_true_eq] at hfound
  have hstands := (standsAt_iff (Nat.min_le_right _ _) (clear_min hclear) hfound.1).mp hfound.2
  rw [List.mem_range'_1] at hmem
  refine ⟨⟨hmem.1, by omega, hstands⟩, fun b hb hstop hword => ?_⟩
  by_contra hlt
  have hwithin : b + word.length ≤ min limit l.length := Nat.le_min.mpr ⟨hstop, hword.stop_le⟩
  have hnot := hfirst b hb (by omega)
  rw [Bool.and_assoc, (standsAt_iff (Nat.min_le_right _ _) (clear_min hclear) hwithin).mpr hword,
    decide_eq_true hwithin] at hnot
  cases hnot

theorem findWord?_eq_none (hclear : (l[limit]?).any isDotted = false)
    (h : l.findWord? word start limit = none) (ha : start ≤ a) (hstop : a + word.length ≤ limit) :
    ¬ l.StandsAt word a := by
  intro hword
  have hwithin : a + word.length ≤ min limit l.length := Nat.le_min.mpr ⟨hstop, hword.stop_le⟩
  have hnot := List.find?_range'_eq_none.mp h a ha (by omega)
  rw [Bool.and_assoc, (standsAt_iff (Nat.min_le_right _ _) (clear_min hclear) hwithin).mpr hword,
    decide_eq_true hwithin] at hnot
  cases hnot

/-- No word goes on where a text ends without its blanks. -/
theorem clear_trimmedStop (l : Line) (start : Nat) :
    (l[l.trimmedStop start]?).any isDotted = false := by
  obtain ⟨blanks, hdrop, hblank⟩ := exists_trimRight_append (l.drop start)
  have hnext : l[l.trimmedStop start]? = blanks.head? := by
    have hend : (trimRight (l.drop start) ++ blanks)[(trimRight (l.drop start)).length]? =
        blanks[0]? := by
      rw [List.getElem?_append_right (Nat.le_refl _), Nat.sub_self]
    rw [← hdrop, List.getElem?_drop] at hend
    rw [trimmedStop, hend, List.head?_eq_getElem?]
  rw [hnext]
  cases blanks with
  | nil => rfl
  | cons c cs => exact isDotted_of_isBlank (List.all_eq_true.mp hblank c List.mem_cons_self)

end Line

namespace Document

variable {d : Document} {r : Range} {word : List Char} {n a : Nat}

/-- A word on its own inside a range, on one line. -/
structure Occurs (d : Document) (r : Range) (word : List Char) (n a : Nat) : Prop where
  inside : (Range.onLine n a (a + word.length)).Inside r
  alone : (d.line n).StandsAt word a

theorem Occurs.textIn (h : d.Occurs r word n a) :
    d.textIn (Range.onLine n a (a + word.length)) = word := by
  obtain ⟨before, after, hline, rfl, -, -⟩ := h.alone
  exact textIn_of_line hline

/-- A word stands on a line of the deck. -/
theorem Occurs.line_lt (h : d.Occurs r word n a) (hword : word ≠ []) : n < d.lineCount := by
  by_contra hge
  have hnone : d.line n = [] := by
    rw [line, List.getElem?_eq_none (Nat.le_of_not_lt hge)]
    rfl
  have hle := h.alone.stop_le
  rw [hnone, List.length_nil] at hle
  exact hword (List.eq_nil_of_length_eq_zero (by omega))

/-- Where a range begins and ends on one of its lines. -/
def windowOn (d : Document) (r : Range) (n : Nat) : Nat × Nat :=
  (if n = r.start.line then r.start.character else 0,
    if n = r.stop.line then r.stop.character else (d.line n).length)

theorem occurs_iff : d.Occurs r word n a ↔ (r.start.line ≤ n ∧ n ≤ r.stop.line) ∧
    (d.windowOn r n).1 ≤ a ∧ a + word.length ≤ (d.windowOn r n).2 ∧ (d.line n).StandsAt word a := by
  unfold windowOn
  constructor
  · rintro ⟨⟨hstart, hstop⟩, halone⟩
    have hle := halone.stop_le
    unfold Position.le Range.onLine at *
    dsimp only at *
    refine ⟨by omega, ?_, ?_, halone⟩
    · split <;> omega
    · split <;> omega
  · rintro ⟨hlines, hstart, hstop, halone⟩
    refine ⟨⟨?_, ?_⟩, halone⟩
    · unfold Position.le Range.onLine
      dsimp only at *
      split at hstart <;> omega
    · unfold Position.le Range.onLine
      dsimp only at *
      split at hstop <;> omega

/-- A place at which no word goes on. -/
def ClearAt (d : Document) (p : Position) : Prop :=
  ((d.line p.line)[p.character]?).any isDotted = false

theorem ClearAt.window (h : d.ClearAt r.stop) (n : Nat) :
    ((d.line n)[(d.windowOn r n).2]?).any isDotted = false := by
  unfold windowOn
  dsimp only
  split
  · next hn =>
    rw [hn]
    exact h
  · rw [List.getElem?_eq_none (Nat.le_refl _)]
    rfl

/-- The search finds the topmost place of a word in a range, and there the leftmost. -/
theorem findInRange?_cases (hword : word ≠ []) (hclear : d.ClearAt r.stop) :
    (QuickFix.findInRange? d r word = none ∧ ∀ n a, ¬ d.Occurs r word n a) ∨
      ∃ n a, QuickFix.findInRange? d r word = some (Range.onLine n a (a + word.length)) ∧
        d.Occurs r word n a ∧ ∀ m b, d.Occurs r word m b → Position.le ⟨n, a⟩ ⟨m, b⟩ := by
  have hsearch : QuickFix.findInRange? d r word =
      (List.range' r.start.line (min r.stop.line d.lineCount + 1 - r.start.line)).findSome? fun n =>
        ((d.line n).findWord? word (d.windowOn r n).1 (d.windowOn r n).2).map fun a =>
          Range.onLine n a (a + word.length) := rfl
  have hnone : ∀ {m b : Nat}, (((d.line m).findWord? word (d.windowOn r m).1 (d.windowOn r m).2).map
      fun a => Range.onLine m a (a + word.length)) = none → ¬ d.Occurs r word m b := by
    intro m b h hoccurs
    obtain ⟨-, hstart, hstop, halone⟩ := occurs_iff.mp hoccurs
    exact Line.findWord?_eq_none (hclear.window m) (Option.map_eq_none_iff.mp h) hstart hstop halone
  cases hfound : QuickFix.findInRange? d r word with
  | none =>
    left
    refine ⟨rfl, fun n a hoccurs => ?_⟩
    obtain ⟨hlines, -⟩ := occurs_iff.mp hoccurs
    have hlt := hoccurs.line_lt hword
    rw [hsearch, List.findSome?_eq_none_iff] at hfound
    exact hnone (hfound n (List.mem_range'_1.mpr (by omega))) hoccurs
  | some range =>
    right
    rw [hsearch] at hfound
    obtain ⟨n, hfirst, hlast, hn, hbefore⟩ := findSome?_range'_eq_some hfound
    obtain ⟨a, ha, rfl⟩ := Option.map_eq_some_iff.mp hn
    obtain ⟨⟨hstart, hstop, halone⟩, hleft⟩ := Line.findWord?_eq_some (hclear.window n) ha
    refine ⟨n, a, rfl, occurs_iff.mpr ⟨by omega, hstart, hstop, halone⟩, fun m b hoccurs => ?_⟩
    obtain ⟨hlines, hstart', hstop', halone'⟩ := occurs_iff.mp hoccurs
    rcases Nat.lt_trichotomy n m with hlt | rfl | hgt
    · exact Or.inl hlt
    · exact Or.inr ⟨rfl, hleft b hstart' hstop' halone'⟩
    · exact absurd hoccurs (hnone (hbefore m hlines.1 hgt))

/-! ## Ranges of unknown types -/

/-- No word goes on after the last of some lines. -/
theorem Numbers.clear_extent {g : List (Line × Nat)} (h : d.Numbers g) (hne : g ≠ []) :
    d.ClearAt (extent g hne).stop := by
  have hline := (h.line_eq (List.getLast_mem hne)).2
  show ((d.line (g.getLast hne).2)[(g.getLast hne).1.length]?).any isDotted = false
  rw [hline, List.getElem?_eq_none (Nat.le_refl _)]
  rfl

/-- No word goes on after a value that was found in its line. -/
theorem Numbers.clear_value {g : List (Line × Nat)} (h : d.Numbers g) {start? : Line → Option Nat}
    (hr : g.findSome? (fun (l, n) => (start? l).map fun start =>
      Range.onLine n start (l.trimmedStop start)) = some r) : d.ClearAt r.stop := by
  obtain ⟨⟨l, n⟩, hmem, hfound⟩ := List.exists_of_findSome?_eq_some hr
  obtain ⟨start, -, rfl⟩ := Option.map_eq_some_iff.mp hfound
  have hline : d.line n = l := (h.line_eq hmem).2
  show ((d.line n)[l.trimmedStop start]?).any isDotted = false
  rw [hline]
  exact Line.clear_trimmedStop l start

variable {limits : Limits} {uri content seq t : String} {version : Int} {b : Block} {c : Catalog}
  {s : Settings} {f : Finding}

/-- A block without lines has no type. -/
theorem content_ne_nil {raw : Block.Raw} {o : Fragment.Outcome}
    (hread : Fragment.read limits (Text.unlines raw.content) = .ok o)
    (htype : (Block.ofOutcome seq raw o).actionType = some t) : raw.content ≠ [] := by
  intro hnil
  have hempty := Block.isEmpty_ofOutcome hread htype
  rw [Block.isEmpty, Bool.or_eq_false_iff] at hempty
  have hblank : Text.allBlank (Text.unlines raw.content) = false := hempty.2
  rw [hnil] at hblank
  cases hblank

theorem clear_of_mem_stepFindings {raw : Block.Raw} {o : Fragment.Outcome} {u : Step}
    (hcontent : raw.content <+: d.lines.drop (raw.first + 1))
    (hu : u ∈ (Block.ofOutcome seq raw o).steps) : d.ClearAt (u.typeRange.getD u.range).stop := by
  obtain ⟨i, hi⟩ := List.getElem?_of_mem hu
  obtain ⟨members, -, hi⟩ := Block.getElem?_steps_ofOutcome hi
  obtain ⟨g, member, hg, -, rfl⟩ := Step.getElem?_ofBlock hi
  have hmem := List.mem_of_getElem? hg
  have hnumbers := (numbers_zipIdx hcontent).sublist (Step.sublist_of_mem_groups hmem)
  rw [Step.ofLines_eq i (Step.groups_ne_nil hmem)]
  cases htype : (member.filter (·.isMap)).bind fun _ => Step.typeRange? g with
  | none => exact hnumbers.clear_extent (Step.groups_ne_nil hmem)
  | some range =>
    obtain ⟨-, -, hrange⟩ := Option.bind_eq_some_iff.mp htype
    exact hnumbers.clear_value hrange

/-- The type that a finding does not know has a name, and no word goes on after the range of the
finding. -/
theorem clear_of_mem_findings (hd : create limits uri version content seq = .ok d) (hb : b ∈ d.blocks)
    (hf : f ∈ b.findings c seq)
    (hissue : f.issue = .unknownType t ∨ f.issue = .stepUnknownType t) :
    t ≠ "" ∧ d.ClearAt f.range.stop := by
  obtain ⟨raw, hraw, o, hread, rfl⟩ := exists_raw_of_mem_blocks hd hb
  have hcontent := content_prefix_of_mem_raws hraw
  rcases hissue with hissue | hissue
  · obtain ⟨htype, hne, rfl⟩ := Block.mem_findings_unknownType hf hissue
    have hlines : raw.content.zipIdx (raw.first + 1) ≠ [] := fun hnil =>
      content_ne_nil hread htype (List.zipIdx_eq_nil_iff.mp hnil)
    refine ⟨hne, ?_⟩
    cases hrange : (Block.ofOutcome seq raw o).typeRange with
    | none =>
      rw [Option.getD_none, Block.contentRange_ofOutcome hlines]
      exact (numbers_zipIdx hcontent).clear_extent hlines
    | some range =>
      have hfound : (if (Block.ofOutcome seq raw o).actionType.isSome then
          Block.typeRange? (raw.content.zipIdx (raw.first + 1)) else none) = some range := hrange
      rw [htype, Option.isSome_some, if_pos rfl] at hfound
      exact (numbers_zipIdx hcontent).clear_value hfound
  · obtain ⟨u, hu, hf⟩ := exists_step_of_mem_findings hf (Or.inl ⟨t, hissue⟩)
    obtain ⟨-, hne, rfl⟩ := Step.mem_findings_unknownType hf hissue
    exact ⟨hne, clear_of_mem_stepFindings hcontent hu⟩

/-! ## Corrections -/

/-- The actions that put one of some types each in place of what stands in a range. -/
def replacements (d : Document) (g : Diagnostic) (range : Range) (types : List String) :
    List CodeAction :=
  types.map fun k => ⟨"Change to '" ++ k ++ "'", g, d.uri, ⟨range, k⟩, some (types.length == 1)⟩

theorem candidates_eq (c : Catalog) (s : Settings) (t : String) : QuickFix.candidates c s t =
    c.types.filter fun k => decide (EditDistance.Near s.typoDistance t.toList k.toList) := by
  rw [QuickFix.candidates]
  refine List.filter_congr fun k _ => ?_
  rw [decide_eq_decide]
  exact EditDistance.near_iff.symm

theorem actions_of_unknownType (hissue : f.issue = .unknownType t ∨ f.issue = .stepUnknownType t)
    (hname : QuickFix.Quotable t) :
    (QuickFix.all c s d [f.diagnostic s.diagnosticSource]).outcome.1 =
      .ok (match QuickFix.findInRange? d f.range t.toList with
        | none => []
        | some range => d.replacements (f.diagnostic s.diagnosticSource) range
          (QuickFix.candidates c s t)) := by
  obtain ⟨issue, range⟩ := f
  have hread : QuickFix.unknownTypeIn? issue.message = some t ∧
      (issue.code = "ET003" ∨ issue.code = "ET007") := by
    rcases hissue with rfl | rfl
    · exact ⟨QuickFix.unknownTypeIn?_message hname, Or.inl rfl⟩
    · exact ⟨QuickFix.unknownTypeIn?_stepMessage hname, Or.inr rfl⟩
  rw [all_singleton, QuickFix.fixes_correction rfl hread.2, QuickFix.corrections]
  simp only [Finding.diagnostic, hread.1]
  cases QuickFix.findInRange? d range t.toList <;> rfl

/-- **Corrections are pinned to the misspelled type.**  For a type that is not known, the known types
to which few enough changes lead are offered in the order of the catalog.  All stand in place of the
topmost and then leftmost word in the range of the diagnostic that is the type, and an action is
preferred if it is the only one.  Without such a word there is no action. -/
theorem corrections_pinned (hd : create limits uri version content s.sequenceType = .ok d)
    (hf : f ∈ d.findings c s.sequenceType)
    (hissue : f.issue = .unknownType t ∨ f.issue = .stepUnknownType t)
    (hquote : '\x27' ∉ t.toList) :
    ((∃ n a, d.Occurs f.range t.toList n a) → ∃ n a, d.Occurs f.range t.toList n a ∧
      (∀ m b, d.Occurs f.range t.toList m b → Position.le ⟨n, a⟩ ⟨m, b⟩) ∧
      d.textIn (Range.onLine n a (a + t.length)) = t.toList ∧
      (QuickFix.all c s d [f.diagnostic s.diagnosticSource]).outcome.1 =
        .ok (d.replacements (f.diagnostic s.diagnosticSource) (Range.onLine n a (a + t.length))
          (c.types.filter fun k => decide (EditDistance.Near s.typoDistance t.toList k.toList)))) ∧
    ((¬ ∃ n a, d.Occurs f.range t.toList n a) →
      (QuickFix.all c s d [f.diagnostic s.diagnosticSource]).outcome.1 = .ok []) := by
  have hother : f.issue.code ∉ ["ET011", "ET012", "ET013", "ET014"] := by
    rcases hissue with h | h
    · simp [h, Issue.code]
    · simp [h, Issue.code]
  obtain ⟨b, hb, hblock⟩ := exists_block_of_mem_findings hf hother
  obtain ⟨hne, hclear⟩ := clear_of_mem_findings hd hb hblock hissue
  have hword : t.toList ≠ [] := fun hnil => hne (String.toList_eq_nil_iff.mp hnil)
  rw [actions_of_unknownType hissue ⟨hne, hquote⟩, ← candidates_eq, ← String.length_toList]
  rcases findInRange?_cases hword hclear with ⟨hnone, hnowhere⟩ | ⟨n, a, hfound, hoccurs, hfirst⟩
  · rw [hnone]
    refine ⟨fun hsome => ?_, fun _ => rfl⟩
    obtain ⟨n, a, hoccurs⟩ := hsome
    exact absurd hoccurs (hnowhere n a)
  · rw [hfound]
    exact ⟨fun _ => ⟨n, a, hoccurs, hfirst, hoccurs.textIn, rfl⟩,
      fun hnowhere => absurd ⟨n, a, hoccurs⟩ hnowhere⟩

/-- A block in braces, which has no line of its type, and the type in it a second time as a part of
another word. -/
def bracesDeck : String :=
  "\x60\x60\x60action\n\x7blabel: xfile.opn, type: file.opn\x7d\n\x60\x60\x60"

theorem corrections_pinned_braces : ∃ d f, create .usual "a" 1 bracesDeck "sequence" = .ok d ∧
    f ∈ d.findings (.standard "sequence") "sequence" ∧ f.issue = .unknownType "file.opn" ∧
    d.Occurs f.range "file.opn".toList 1 25 ∧ ∃ n a, d.Occurs f.range "file.opn".toList n a ∧
      (∀ m b, d.Occurs f.range "file.opn".toList m b → Position.le ⟨n, a⟩ ⟨m, b⟩) ∧
      d.textIn (Range.onLine n a (a + "file.opn".length)) = "file.opn".toList ∧
      (QuickFix.all (.standard "sequence") {} d
          [f.diagnostic (Settings.diagnosticSource {})]).outcome.1 =
        .ok (d.replacements (f.diagnostic (Settings.diagnosticSource {}))
          (Range.onLine n a (a + "file.opn".length))
          ((Catalog.standard "sequence").types.filter fun k =>
            decide (EditDistance.Near (Settings.typoDistance {}) "file.opn".toList k.toList))) := by
  obtain ⟨d, hd, hcheck⟩ := exists_eq_ok_of_any (x := create .usual "a" 1 bracesDeck "sequence")
    (p := fun d => d.line 1 == "\x7blabel: xfile.opn, type: file.opn\x7d".toList &&
      (d.findings (.standard "sequence") "sequence").any fun f =>
        f.issue == .unknownType "file.opn" && f.range == Range.onLine 1 0 34) (by decide +kernel)
  obtain ⟨hline, hcheck⟩ := Bool.and_eq_true_iff.mp hcheck
  obtain ⟨f, hf, hcheck⟩ := List.any_eq_true.mp hcheck
  obtain ⟨hissue, hrange⟩ := Bool.and_eq_true_iff.mp hcheck
  have hoccurs : d.Occurs f.range "file.opn".toList 1 25 := by
    constructor
    · rw [eq_of_beq hrange]
      exact ⟨Or.inr ⟨rfl, by decide⟩, Or.inr ⟨rfl, by decide⟩⟩
    · rw [eq_of_beq hline]
      exact ⟨"\x7blabel: xfile.opn, type: ".toList, "\x7d".toList, by decide, by decide,
        by decide +kernel, by decide +kernel⟩
  have hpinned := corrections_pinned (c := .standard "sequence") (s := {}) hd hf
    (Or.inl (eq_of_beq hissue)) (by decide)
  refine ⟨d, f, hd, hf, eq_of_beq hissue, hoccurs, ?_⟩
  exact hpinned.1 ⟨1, 25, hoccurs⟩

end Document
end TalkDeck
