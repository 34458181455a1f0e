import TalkDeck.Proofs.Deck.Reading
import TalkDeck.QuickFix

/-
The edits that are offered for a finding.

A fix starts from the message of a diagnostic, in which the name stands between quotes; a name
without a quote is read back as it was written (`nameAfter?_lead`).  With the name known, and the
block, step or parameter that the diagnostic lies in, each kind of finding has its edit.
-/

namespace TalkDeck

theorem Position.of_eq_ok_iff {n c : Nat} {p : Position} :
    Position.of n c = .ok p ↔ n ≤ limit ∧ c ≤ limit ∧ p = ⟨n, c⟩ := by
  rw [Position.of]
  split
  · have hn : ¬n ≤ limit := by omega
    simp [hn]
  · split
    · have hc : ¬c ≤ limit := by omega
      simp [hc]
    · have hn : n ≤ limit := by omega
      have hc : c ≤ limit := by omega
      simp [hn, hc, eq_comm]

theorem Range.of_eq_ok_iff {n c n' c' : Nat} {r : Range} :
    Range.of n c n' c' = .ok r ↔ (n ≤ Position.limit ∧ c ≤ Position.limit) ∧
      (n' ≤ Position.limit ∧ c' ≤ Position.limit) ∧ r = ⟨⟨n, c⟩, ⟨n', c'⟩⟩ := by
  rw [Range.of, bind_eq_ok_iff]
  constructor
  · rintro ⟨start, hstart, h⟩
    obtain ⟨stop, hstop, h⟩ := bind_eq_ok_iff.mp h
    obtain ⟨hn, hc, rfl⟩ := Position.of_eq_ok_iff.mp hstart
    obtain ⟨hn', hc', rfl⟩ := Position.of_eq_ok_iff.mp hstop
    exact ⟨⟨hn, hc⟩, ⟨hn', hc'⟩, (Except.ok.inj h).symm⟩
  · rintro ⟨⟨hn, hc⟩, ⟨hn', hc'⟩, rfl⟩
    exact ⟨_, Position.of_eq_ok_iff.mpr ⟨hn, hc, rfl⟩,
      bind_eq_ok_iff.mpr ⟨_, Position.of_eq_ok_iff.mpr ⟨hn', hc', rfl⟩, rfl⟩⟩

/-- A line together with its end. -/
theorem Range.of_wholeLine {n : Nat} (h : n + 1 ≤ Position.limit) :
    Range.of n 0 (n + 1) 0 = .ok ⟨⟨n, 0⟩, ⟨n + 1, 0⟩⟩ :=
  Range.of_eq_ok_iff.mpr ⟨⟨by omega, Nat.zero_le _⟩, ⟨h, Nat.zero_le _⟩, rfl⟩

/-- What stands directly before a place is the last character of the text before it. -/
theorem Line.clear_before_iff (before rest : List Char) (p : Char → Bool) :
    (before.length == 0 || !((before ++ rest)[before.length - 1]?).any p) = true ↔
      before.getLast?.any p = false := by
  rcases List.eq_nil_or_concat before with rfl | ⟨cs, c, rfl⟩
  · simp
  · simp

namespace QuickFix

open Text

/-! ## Names in messages -/

/-- A name that can stand between quotes. -/
def Quotable (name : String) : Prop := name ≠ "" ∧ '\x27' ∉ name.toList

theorem quotedName?_append {name : String} (h : Quotable name) (rest : List Char) :
    quotedName? (name.toList ++ '\x27' :: rest) = some name := by
  have hchars : ∀ c ∈ name.toList, (c != '\x27') = true := by
    intro c hc
    rw [bne_iff_ne]
    rintro rfl
    exact h.2 hc
  obtain ⟨hrun, hrest⟩ := takeWhile_append_stop hchars (bne_self_eq_false '\x27') rest
  have hne : name.toList.isEmpty = false := by
    rw [List.isEmpty_eq_false_iff]
    intro hnil
    exact h.1 (String.toList_eq_nil_iff.mp hnil)
  rw [quotedName?, hrun, hrest, hne, String.ofList_toList]
  rfl

/-- Whether two texts have different characters at some place. -/
def differ (u v : List Char) : Bool := (u.zip v).any fun p => p.1 != p.2

theorem strip?_of_differ {u v : List Char} (h : differ u v = true) (w : List Char) :
    strip? u (v ++ w) = none := by
  induction u generalizing v with
  | nil => cases h
  | cons a u ih =>
    cases v with
    | nil => cases h
    | cons c v =>
      rw [List.cons_append, strip?]
      by_cases hac : a = c
      · rw [differ, List.zip_cons_cons, List.any_cons, hac, bne_self_eq_false, Bool.false_or] at h
        rw [if_pos hac, ih h]
      · rw [if_neg hac]

/-- The name after a lead-in, if those before it differ from it. -/
theorem nameAfter?_lead {name : String} (h : Quotable name) (before after : List String)
    {lead : String} (rest : List Char) (hlead : lead.toList ≠ [])
    (hbefore : ∀ l ∈ before, differ l.toList lead.toList = true) :
    nameAfter? (before ++ lead :: after) (lead.toList ++ (name.toList ++ '\x27' :: rest)) =
      some name := by
  obtain ⟨c, cs, hcs⟩ := List.exists_cons_of_ne_nil hlead
  have hfound : (before ++ lead :: after).findSome? (fun l =>
      (strip? l.toList (lead.toList ++ (name.toList ++ '\x27' :: rest))).bind quotedName?) =
        some name := by
    rw [List.findSome?_append, List.findSome?_eq_none_iff.mpr fun l hl => ?_, Option.none_or,
      List.findSome?_cons, strip?_eq_some_iff.mpr rfl, Option.bind_some, quotedName?_append h]
    rw [strip?_of_differ (hbefore l hl)]
    rfl
  rw [hcs, List.cons_append] at hfound ⊢
  rw [nameAfter?, hfound]

/-- A character at which no lead-in begins is passed over. -/
theorem nameAfter?_cons {leads : List String} {c : Char} {cs : List Char}
    (h : ∀ lead ∈ leads, lead.toList.head?.any (· != c) = true) :
    nameAfter? leads (c :: cs) = nameAfter? leads cs := by
  rw [nameAfter?, List.findSome?_eq_none_iff.mpr fun lead hlead => ?_]
  have hhead := h lead hlead
  cases hl : lead.toList with
  | nil =>
    rw [hl] at hhead
    cases hhead
  | cons a as =>
    rw [hl] at hhead
    have hne : a ≠ c := by simpa using hhead
    rw [strip?, if_neg hne]
    rfl

section Names

variable {name type : String} (h : Quotable name)
include h

theorem unknownTypeIn?_message : unknownTypeIn? (Issue.unknownType name).message = some name := by
  have hmessage : (Issue.unknownType name).message.toList =
      "Unknown action type: '".toList ++ (name.toList ++ '\x27' :: []) := by
    show ("Unknown action type: '" ++ name ++ "'").toList = _
    simp
  rw [unknownTypeIn?, hmessage]
  exact nameAfter?_lead h ["Unknown action type in step: '"] [] [] (by simp) (by decide +kernel)

theorem unknownTypeIn?_stepMessage :
    unknownTypeIn? (Issue.stepUnknownType name).message = some name := by
  have hmessage : (Issue.stepUnknownType name).message.toList =
      "Unknown action type in step: '".toList ++ (name.toList ++ '\x27' :: []) := by
    show ("Unknown action type in step: '" ++ name ++ "'").toList = _
    simp
  rw [unknownTypeIn?, hmessage]
  exact nameAfter?_lead h [] ["Unknown action type: '"] [] (by simp) (by simp)

theorem missingParamIn?_message : missingParamIn? (Issue.missingParam name).message = some name := by
  have hmessage : (Issue.missingParam name).message.toList =
      "Missing required parameter: '".toList ++ (name.toList ++ '\x27' :: []) := by
    show ("Missing required parameter: '" ++ name ++ "'").toList = _
    simp
  rw [missingParamIn?, hmessage]
  exact nameAfter?_lead h [] ["missing required parameter: '"] [] (by simp) (by simp)

theorem missingParamIn?_stepMessage :
    missingParamIn? (Issue.stepMissingParam name).message = some name := by
  have hmessage : (Issue.stepMissingParam name).message.toList = 'S' :: 't' :: 'e' :: 'p' :: ' ' ::
      ("missing required parameter: '".toList ++ (name.toList ++ '\x27' :: [])) := by
    show ("Step missing required parameter: '" ++ name ++ "'").toList = _
    simp
  rw [missingParamIn?, hmessage, nameAfter?_cons (by simp), nameAfter?_cons (by simp),
    nameAfter?_cons (by simp), nameAfter?_cons (by simp), nameAfter?_cons (by simp)]
  exact nameAfter?_lead h ["Missing required parameter: '"] [] [] (by simp) (by decide +kernel)

theorem unknownParamIn?_message (type : String) :
    unknownParamIn? (Issue.unknownParam name type).message = some name := by
  have hmessage : (Issue.unknownParam name type).message.toList =
      "Unknown parameter '".toList ++
        (name.toList ++ '\x27' :: (" for action type '".toList ++ type.toList ++ ['\x27'])) := by
    show ("Unknown parameter '" ++ name ++ "' for action type '" ++ type ++ "'").toList = _
    simp
  rw [unknownParamIn?, hmessage]
  exact nameAfter?_lead h [] [] _ (by simp) (by simp)

theorem unknownParamIn?_stepMessage (type : String) :
    unknownParamIn? (Issue.stepUnknownParam name type).message = some name := by
  have hmessage : (Issue.stepUnknownParam name type).message.toList =
      "Unknown parameter '".toList ++
        (name.toList ++ '\x27' :: (" for step type '".toList ++ type.toList ++ ['\x27'])) := by
    show ("Unknown parameter '" ++ name ++ "' for step type '" ++ type ++ "'").toList = _
    simp
  rw [unknownParamIn?, hmessage]
  exact nameAfter?_lead h [] [] _ (by simp) (by simp)

end Names

/-! ## Edits -/

/-- An action is offered for a finding. -/
def Offers (c : Catalog) (s : Settings) (d : Document) (f : Finding) (a : CodeAction) : Prop :=
  ∃ as, (fixes c s d (f.diagnostic s.diagnosticSource)).outcome.1 = .ok as ∧ a ∈ as

section Edits

variable {c : Catalog} {s : Settings} {d : Document} {f : Finding} {a : CodeAction} {b : Block}
  {name type : String}

theorem offers_of_eq {as : List CodeAction}
    (h : (fixes c s d (f.diagnostic s.diagnosticSource)).outcome.1 = .ok as) :
    Offers c s d f a ↔ a ∈ as := by
  constructor
  · rintro ⟨as', has', ha⟩
    rw [h] at has'
    rwa [Except.ok.inj has']
  · intro ha
    exact ⟨as, h, ha⟩

theorem fixes_correction {g : Diagnostic} {code : String} (hcode : g.code = some (.text code))
    (h : code = "ET003" ∨ code = "ET007") : fixes c s d g = corrections c s d g := by
  simp only [fixes, hcode]
  rw [if_pos h]

theorem fixes_insertion {g : Diagnostic} {code : String} (hcode : g.code = some (.text code))
    (h : code = "ET004" ∨ code = "ET008") : fixes c s d g = pure (insertion d g) := by
  have hother : ¬(code = "ET003" ∨ code = "ET007") := by
    rcases h with rfl | rfl <;> simp
  simp only [fixes, hcode]
  rw [if_neg hother, if_pos h]

theorem fixes_removal {g : Diagnostic} {code : String} (hcode : g.code = some (.text code))
    (h : code = "ET005" ∨ code = "ET009") : fixes c s d g = removal d g := by
  have hother : ¬(code = "ET003" ∨ code = "ET007") := by
    rcases h with rfl | rfl <;> simp
  have hother' : ¬(code = "ET004" ∨ code = "ET008") := by
    rcases h with rfl | rfl <;> simp
  simp only [fixes, hcode]
  rw [if_neg hother, if_neg hother', if_pos h]

theorem fixes_missingParam (hissue : f.issue = .missingParam name) (hname : Quotable name)
    (hblock : d.blockAt? f.range.start = some b) :
    (fixes c s d (f.diagnostic s.diagnosticSource)).outcome.1 =
      .ok [⟨"Add missing parameter '" ++ name ++ "'", f.diagnostic s.diagnosticSource, d.uri,
        ⟨Range.point (lineAfter b.parameters b.typeRange b.contentRange.start.line) 0,
          name ++ ": \n"⟩, none⟩] := by
  obtain ⟨issue, range⟩ := f
  obtain rfl : issue = .missingParam name := hissue
  have hfixes : insertion d (Finding.diagnostic s.diagnosticSource ⟨.missingParam name, range⟩) =
      [⟨"Add missing parameter '" ++ name ++ "'",
        Finding.diagnostic s.diagnosticSource ⟨.missingParam name, range⟩, d.uri,
        ⟨Range.point (lineAfter b.parameters b.typeRange b.contentRange.start.line) 0,
          name ++ ": \n"⟩, none⟩] := by
    rw [insertion]
    simp only [Finding.diagnostic, missingParamIn?_message hname, hblock]
    rfl
  rw [fixes_insertion rfl (Or.inl rfl), hfixes]
  rfl

/-- A missing parameter of a block goes below the last one. -/
theorem offers_missingParam (hissue : f.issue = .missingParam name) (hname : Quotable name)
    (hblock : d.blockAt? f.range.start = some b) :
    Offers c s d f a ↔ a = ⟨"Add missing parameter '" ++ name ++ "'", f.diagnostic s.diagnosticSource,
      d.uri, ⟨Range.point (lineAfter b.parameters b.typeRange b.contentRange.start.line) 0,
        name ++ ": \n"⟩, none⟩ := by
  rw [← List.mem_singleton]
  exact offers_of_eq (fixes_missingParam hissue hname hblock)

theorem fixes_stepMissingParam {t : Step} (hissue : f.issue = .stepMissingParam name)
    (hname : Quotable name) (hblock : d.blockAt? f.range.start = some b)
    (hstep : stepAt? b f.range.start = some t) :
    (fixes c s d (f.diagnostic s.diagnosticSource)).outcome.1 =
      .ok [⟨"Add missing parameter '" ++ name ++ "'", f.diagnostic s.diagnosticSource, d.uri,
        ⟨Range.point (lineAfter t.parameters t.typeRange (t.range.start.line + 1)) 0,
          stepIndent d t ++ name ++ ": \n"⟩, none⟩] := by
  obtain ⟨issue, range⟩ := f
  obtain rfl : issue = .stepMissingParam name := hissue
  have hcode : (Finding.diagnostic s.diagnosticSource ⟨.stepMissingParam name, range⟩).code =
      some (.text "ET008") := rfl
  have hfixes : insertion d (Finding.diagnostic s.diagnosticSource ⟨.stepMissingParam name, range⟩) =
      [⟨"Add missing parameter '" ++ name ++ "'",
        Finding.diagnostic s.diagnosticSource ⟨.stepMissingParam name, range⟩, d.uri,
        ⟨Range.point (lineAfter t.parameters t.typeRange (t.range.start.line + 1)) 0,
          stepIndent d t ++ name ++ ": \n"⟩, none⟩] := by
    rw [insertion]
    simp only [hcode, if_true]
    simp only [Finding.diagnostic, missingParamIn?_stepMessage hname, hblock, hstep]
  rw [fixes_insertion rfl (Or.inr rfl), hfixes]
  rfl

/-- A missing parameter of a step goes below its last one, as far in as the type of the step. -/
theorem offers_stepMissingParam {t : Step} (hissue : f.issue = .stepMissingParam name)
    (hname : Quotable name) (hblock : d.blockAt? f.range.start = some b)
    (hstep : stepAt? b f.range.start = some t) :
    Offers c s d f a ↔ a = ⟨"Add missing parameter '" ++ name ++ "'", f.diagnostic s.diagnosticSource,
      d.uri, ⟨Range.point (lineAfter t.parameters t.typeRange (t.range.start.line + 1)) 0,
        stepIndent d t ++ name ++ ": \n"⟩, none⟩ := by
  rw [← List.mem_singleton]
  exact offers_of_eq (fixes_stepMissingParam hissue hname hblock hstep)

/-- An unknown parameter that is found again on line `n` is removed with the line, as far as there
is a number for the line below. -/
theorem outcome_removal {g : Diagnostic} {p : Parameter} {n length : Nat}
    (hname : unknownParamIn? g.message = some name)
    (hparameter : (d.blockAt? g.range.start).bind (parameterAt? · g.range.start) = some p)
    (hline : p.lineRange = Range.onLine n 0 length) :
    (removal d g).outcome.1 = (Range.of n 0 (n + 1) 0).map fun range =>
      [⟨"Remove unknown parameter '" ++ name ++ "'", g, d.uri, ⟨range, ""⟩, none⟩] := by
  rw [removal, hname]
  simp only [hparameter, hline, Range.onLine, pure_bind]
  cases Range.of n 0 (n + 1) 0 with
  | error e => rfl
  | ok r => rfl

theorem mem_removal {g : Diagnostic} {p : Parameter} {n length : Nat}
    (hname : unknownParamIn? g.message = some name)
    (hparameter : (d.blockAt? g.range.start).bind (parameterAt? · g.range.start) = some p)
    (hline : p.lineRange = Range.onLine n 0 length) :
    (∃ as, (removal d g).outcome.1 = .ok as ∧ a ∈ as) ↔ n + 1 ≤ Position.limit ∧
      a = ⟨"Remove unknown parameter '" ++ name ++ "'", g, d.uri, ⟨⟨⟨n, 0⟩, ⟨n + 1, 0⟩⟩, ""⟩, none⟩ := by
  rw [outcome_removal hname hparameter hline]
  constructor
  · rintro ⟨as, has, ha⟩
    cases hrange : Range.of n 0 (n + 1) 0 with
    | error e =>
      rw [hrange] at has
      cases has
    | ok r =>
      rw [hrange] at has
      obtain rfl := Except.ok.inj has
      obtain ⟨-, ⟨hlimit, -⟩, rfl⟩ := Range.of_eq_ok_iff.mp hrange
      exact ⟨hlimit, List.mem_singleton.mp ha⟩
  · rintro ⟨hlimit, rfl⟩
    rw [Range.of_wholeLine hlimit]
    exact ⟨_, rfl, List.mem_singleton.mpr rfl⟩

/-- The codes and the messages of the two unknown parameters send them to `removal`. -/
theorem fixes_of_unknownParam
    (hissue : f.issue = .unknownParam name type ∨ f.issue = .stepUnknownParam name type)
    (hname : Quotable name) :
    fixes c s d (f.diagnostic s.diagnosticSource) = removal d (f.diagnostic s.diagnosticSource) ∧
      unknownParamIn? (f.diagnostic s.diagnosticSource).message = some name := by
  obtain ⟨issue, range⟩ := f
  rcases hissue with rfl | rfl
  · exact ⟨fixes_removal rfl (Or.inl rfl), unknownParamIn?_message hname type⟩
  · exact ⟨fixes_removal rfl (Or.inr rfl), unknownParamIn?_stepMessage hname type⟩

theorem fixes_unknownParam {p : Parameter} {n length : Nat}
    (hissue : f.issue = .unknownParam name type ∨ f.issue = .stepUnknownParam name type)
    (hname : Quotable name)
    (hparameter : (d.blockAt? f.range.start).bind (parameterAt? · f.range.start) = some p)
    (hline : p.lineRange = Range.onLine n 0 length) (hlimit : n + 1 ≤ Position.limit) :
    (fixes c s d (f.diagnostic s.diagnosticSource)).outcome.1 =
      .ok [⟨"Remove unknown parameter '" ++ name ++ "'", f.diagnostic s.diagnosticSource, d.uri,
        ⟨⟨⟨n, 0⟩, ⟨n + 1, 0⟩⟩, ""⟩, none⟩] := by
  obtain ⟨hfixes, hread⟩ := fixes_of_unknownParam (c := c) (s := s) (d := d) hissue hname
  rw [hfixes, outcome_removal hread hparameter hline, Range.of_wholeLine hlimit]
  rfl

/-- An unknown parameter of a block or a step is removed with its line. -/
theorem offers_unknownParam {p : Parameter} {n length : Nat}
    (hissue : f.issue = .unknownParam name type ∨ f.issue = .stepUnknownParam name type)
    (hname : Quotable name)
    (hparameter : (d.blockAt? f.range.start).bind (parameterAt? · f.range.start) = some p)
    (hline : p.lineRange = Range.onLine n 0 length) :
    Offers c s d f a ↔ n + 1 ≤ Position.limit ∧
      a = ⟨"Remove unknown parameter '" ++ name ++ "'", f.diagnostic s.diagnosticSource, d.uri,
        ⟨⟨⟨n, 0⟩, ⟨n + 1, 0⟩⟩, ""⟩, none⟩ := by
  obtain ⟨hfixes, hread⟩ := fixes_of_unknownParam (c := c) (s := s) (d := d) hissue hname
  rw [Offers, hfixes]
  exact mem_removal hread hparameter hline

theorem edit_of_corrections {g : Diagnostic} {range : Range} {as : List CodeAction}
    (has : (corrections c s d g).outcome.1 = .ok as) (ha : a ∈ as)
    (hname : unknownTypeIn? g.message = some name)
    (hrange : findInRange? d g.range name.toList = some range) :
    ∃ t ∈ c.types, a.title = "Change to '" ++ t ++ "'" ∧ a.edit = ⟨range, t⟩ := by
  have hall : (corrections c s d g).outcome.1 = .ok ((candidates c s name).map fun t =>
      ⟨"Change to '" ++ t ++ "'", g, d.uri, ⟨range, t⟩,
        some ((candidates c s name).length == 1)⟩) := by
    rw [corrections, hname]
    simp only [hrange]
    rfl
  rw [hall] at has
  obtain rfl := Except.ok.inj has
  obtain ⟨t, ht, rfl⟩ := List.mem_map.mp ha
  exact ⟨t, (List.mem_filter.mp ht).1, rfl, rfl⟩

/-- An unknown type that is found again is replaced by a known one. -/
theorem edit_of_unknownType {range : Range} (h : Offers c s d f a)
    (hissue : f.issue = .unknownType name ∨ f.issue = .stepUnknownType name) (hname : Quotable name)
    (hrange : findInRange? d f.range name.toList = some range) :
    ∃ t ∈ c.types, a.title = "Change to '" ++ t ++ "'" ∧ a.edit = ⟨range, t⟩ := by
  obtain ⟨issue, place⟩ := f
  obtain ⟨as, has, ha⟩ := h
  rcases hissue with rfl | rfl
  · rw [fixes_correction rfl (Or.inl rfl)] at has
    exact edit_of_corrections has ha (unknownTypeIn?_message hname) hrange
  · rw [fixes_correction rfl (Or.inr rfl)] at has
    exact edit_of_corrections has ha (unknownTypeIn?_stepMessage hname) hrange

/-- A word is found in the range of its own place, unless it goes on to the left. -/
theorem findInRange?_eq {n : Nat} {u word w : List Char} (hn : n < d.lineCount)
    (hline : d.line n = u ++ (word ++ w)) (hleft : u.getLast?.any isDotted = false) :
    findInRange? d (Range.onLine n u.length (u.length + word.length)) word =
      some (Range.onLine n u.length (u.length + word.length)) := by
  have hcount : min n d.lineCount + 1 - n = 1 := by omega
  have hlimit : min (u.length + word.length) (d.line n).length = u.length + word.length := by
    rw [hline]
    simp only [List.length_append]
    omega
  have halone : Line.standsAlone (d.line n) (u.length + word.length) u.length
      (u.length + word.length) = true := by
    have hbefore : (u.length == 0 || !((d.line n)[u.length - 1]?).any isDotted) = true := by
      rw [hline]
      exact (Line.clear_before_iff u _ isDotted).mpr hleft
    rw [Line.standsAlone, hbefore]
    simp
  have hword : (d.line n).findWord? word u.length (u.length + word.length) = some u.length := by
    rw [Line.findWord?]
    simp only [hlimit]
    rw [show u.length + word.length + 1 - u.length = word.length + 1 by omega, List.range'_succ,
      List.find?_cons_of_pos]
    rw [halone, hline, List.drop_left, strip?_eq_some_iff.mpr rfl]
    simp
  rw [findInRange?]
  simp only [Range.onLine, hcount, List.range'_one, List.findSome?_cons, if_true, hword,
    Option.map_some]

end Edits

end QuickFix
end TalkDeck
