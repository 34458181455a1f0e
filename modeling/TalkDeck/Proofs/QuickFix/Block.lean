import TalkDeck.Proofs.Deck.Carried
import TalkDeck.Proofs.QuickFix.Place

/-
What the fixes of a block do to a deck.

For a block that holds a layout each edit is a change of the layout: a missing parameter becomes a
field below the last one that has a name, an unknown one loses its field, and an unknown type is
replaced in its field.  The deck after the edit is read with the changed layout in the same place.
-/

namespace TalkDeck

open Yaml Layout QuickFix

theorem QuickFix.title_injective {t u : String}
    (h : "Change to '" ++ t ++ "'" = "Change to '" ++ u ++ "'") : t = u := by
  have hlist := congrArg String.toList h
  simp only [String.toList_append] at hlist
  exact String.toList_injective (List.append_cancel_left (List.append_cancel_right hlist))

namespace Yaml.Layout

theorem isName_type : isName "type".toList = true := by decide +kernel

theorem quotable_of_isName {name : String} (h : isName name.toList = true) : Quotable name := by
  rw [isName, Bool.and_eq_true] at h
  constructor
  · rintro rfl
    cases h.1
  · intro hquote
    have hdotted := List.all_eq_true.mp h.2 _ hquote
    exact absurd hdotted (by decide +kernel)

/-- The last field with a name is one line. -/
def EndsFlat (fs : List (Keyed Layout)) : Prop :=
  (fs.reverse.find? fun g => isName g.key).all (·.isFlat) = true

instance (fs : List (Keyed Layout)) : Decidable (EndsFlat fs) :=
  inferInstanceAs (Decidable (_ = true))

theorem exists_last_name {fs : List (Keyed Layout)} (h : ∃ g ∈ fs, isName g.key = true) :
    ∃ fs₁ g fs₂, fs = fs₁ ++ g :: fs₂ ∧ (fs.reverse.find? fun g => isName g.key) = some g ∧
      isName g.key = true ∧ ∀ e ∈ fs₂, isName e.key = false := by
  obtain ⟨e, he, hename⟩ := h
  obtain ⟨g, hg⟩ := Option.isSome_iff_exists.mp
    (List.find?_isSome (p := fun g : Keyed Layout => isName g.key).mpr
      ⟨e, List.mem_reverse.mpr he, hename⟩)
  obtain ⟨hname, gs₁, gs₂, hsplit, hno⟩ := List.find?_eq_some_iff_append.mp hg
  refine ⟨gs₂.reverse, g, gs₁.reverse, ?_, hg, hname, fun e he => ?_⟩
  · rw [← List.reverse_reverse fs, hsplit]
    simp
  · simpa using hno e (List.mem_reverse.mp he)

theorem getLast?_blanks {n : Nat} (h : 0 < n) (cs : List Char) :
    (cs ++ blanks n).getLast? = some ' ' := by
  obtain ⟨m, rfl⟩ := Nat.exists_eq_succ_of_ne_zero (Nat.ne_of_gt h)
  rw [Nat.succ_eq_add_one, blanks_add, ← List.append_assoc]
  exact List.getLast?_concat

/-- The line of a key without a value. -/
theorem head_bare (c : Nat) (k : List Char) :
    Keyed.head c ⟨k, 1, .scalar []⟩ = blanks c ++ (k ++ [':', ' ']) := rfl

theorem wellFormed_bare {k : List Char} (h : isKey k = true) :
    Keyed.WellFormed ⟨k, 1, .scalar []⟩ := ⟨Or.inl Nat.one_pos, h, by rw [wellFormed]; rfl⟩

end Yaml.Layout

namespace Document.Carries

variable {limits : Limits} {seq : String} {d : Document} {b : Block} {fs : List (Keyed Layout)}
  {first : Nat} {before after : List Line} {v : Value}

/-- A word at the end of a line of the content is found in its own range. -/
theorem findInRange?_eq (h : d.Carries limits seq b fs first before after v) {xs ys : List Line}
    {u old : Line} (hsplit : fieldLines 0 fs = xs ++ (u ++ old) :: ys)
    (hleft : u.getLast?.any Text.isDotted = false) :
    findInRange? d (Range.onLine (first + 1 + xs.length) u.length (u.length + old.length)) old =
      some (Range.onLine (first + 1 + xs.length) u.length (u.length + old.length)) := by
  refine QuickFix.findInRange?_eq (w := []) (h.lt_lineCount hsplit) ?_ hleft
  rw [line, h.getElem?_lines hsplit, List.append_nil]
  rfl

theorem parameterAt?_eq (h : d.Carries limits seq b fs first before after v) {p : Parameter}
    (hp : p ∈ b.parameters) : parameterAt? b p.keyRange.start = some p := by
  obtain ⟨r, o, rfl, hcontent⟩ := h.exists_raw
  exact Block.parameterAt?_block hcontent hp

/-- A parameter of the block is found again from its key. -/
theorem found_again (h : d.Carries limits seq b fs first before after v) {p : Parameter}
    (hp : p ∈ b.parameters) :
    (d.blockAt? p.keyRange.start).bind (parameterAt? · p.keyRange.start) = some p := by
  obtain ⟨n, -, hn⟩ := h.locates.points p hp
  have hinside := (h.locates.inside p hp p.keyRange (by simp [Parameter.ranges])).2
  rw [h.blockAt?_eq hn.key_line hinside, Option.bind_some, h.parameterAt?_eq hp]

section Fixes

variable {c : Catalog} {s : Settings} {f : Finding} {a : CodeAction} {p k : String}

/-- The place at which missing parameters are found. -/
theorem blockAt?_last (h : d.Carries limits seq b fs first before after v) :
    d.blockAt? (Range.point b.contentRange.stop.line 0).start = some b := by
  refine h.blockAt?_eq ⟨0, 0, rfl, Nat.le_refl 0, Nat.le_refl 0⟩ ⟨?_, ?_⟩
  · rw [h.lays.contentRange_eq, Position.le]
    simp only [Range.point, Range.onLine]
    omega
  · exact Or.inr ⟨rfl, Nat.zero_le _⟩

/-- A parameter that is missing is no key of the block, if it is a name. -/
theorem not_mem_keys_of_missingOf (h : d.Carries limits seq b fs first before after v) {type : String}
    (hp : p ∈ missingOf c type b.parameters) (hname : isName p.toList = true) :
    p.toList ∉ fs.map (·.key) := by
  intro hmem
  obtain ⟨g, hg, hkey⟩ := List.mem_map.mp hmem
  obtain ⟨w, hw⟩ := h.lays.holds.exists_get? hg
  obtain ⟨fs₁, fs₂, rfl⟩ := List.append_of_mem hg
  have hparameter : g.parameter (first + 1 + (fieldLines 0 fs₁).length) w ∈ b.parameters := by
    rw [h.lays.parameters_eq h.readable, Fragment.mem_parametersFrom h.readable.field]
    exact ⟨fs₁, g, fs₂, w, rfl, by rw [hkey]; exact hname, hw, rfl⟩
  refine (mem_missingOf.mp hp).2 ⟨_, hparameter, ?_⟩
  rw [Keyed.key_parameter, hkey, String.ofList_toList]

/-- The type stands in the first field of that key. -/
theorem exists_typeField (h : d.Carries limits seq b fs first before after v) {type : String}
    (htype : b.actionType = some type) :
    ∃ fs₁ gap fs₂, fs = fs₁ ++ ⟨"type".toList, gap, .scalar type.toList⟩ :: fs₂ ∧
      ∀ g ∈ fs₁, g.key ≠ "type".toList := by
  rw [h.lays.actionType_eq, h.lays.holds.str_get?] at htype
  obtain ⟨⟨key, gap, value⟩, hfind, hstr⟩ := Option.bind_eq_some_iff.mp htype
  obtain ⟨hkey, fs₁, fs₂, rfl, hbefore⟩ := exists_append_of_find? hfind
  obtain rfl : key = "type".toList := hkey
  obtain rfl : value = .scalar type.toList := str?_eq_some hstr
  exact ⟨fs₁, gap, fs₂, rfl, hbefore⟩

/-- New fields go below the last one with a name.  There is one, as the type is a field. -/
theorem exists_lineAfter_last (h : d.Carries limits seq b fs first before after v) {type : String}
    (htype : b.actionType = some type) (hlast : EndsFlat fs) :
    ∃ fs₁ g fs₂, fs = fs₁ ++ g :: fs₂ ∧ g.isFlat = true ∧
      lineAfter b.parameters b.typeRange b.contentRange.start.line =
        first + 1 + (fieldLines 0 fs₁ ++ [g.head 0]).length := by
  have hnamed : ∃ g ∈ fs, isName g.key = true := by
    obtain ⟨fs₁, gap, fs₂, rfl, -⟩ := h.exists_typeField htype
    exact ⟨_, List.mem_append_right fs₁ List.mem_cons_self, isName_type⟩
  obtain ⟨fs₁, g, fs₂, rfl, hfind, hgname, hrest⟩ := exists_last_name hnamed
  rw [EndsFlat, hfind] at hlast
  refine ⟨fs₁, g, fs₂, rfl, hlast, ?_⟩
  obtain ⟨w, hw⟩ := h.lays.holds.exists_get? (List.mem_append_right fs₁ List.mem_cons_self)
  have hparameter : b.parameters.getLast? =
      some (g.parameter (first + 1 + (fieldLines 0 fs₁).length) w) := by
    rw [h.lays.parameters_eq h.readable]
    exact Fragment.getLast?_parametersFrom h.readable.field hgname hw hrest (first + 1)
  simp only [lineAfter, hparameter, Keyed.parameter, Parameter.ofSpan, Range.onLine,
    List.length_append, List.length_singleton, Nat.add_assoc]

/-- A missing parameter is offered a fix, and becomes a field. -/
theorem becomes_of_missingParam (h : d.Carries limits s.sequenceType b fs first before after v)
    (hend : b.contentRange.stop.line + 1 < d.lineCount)
    (hlast : EndsFlat fs)
    (hf : f ∈ b.findings c s.sequenceType) (hissue : f.issue = .missingParam p)
    (hkey : isKey p.toList = true) (hname : isName p.toList = true) :
    ∃ fs₁ fs₂, fs = fs₁ ++ fs₂ ∧ p.toList ∉ fs.map (·.key) ∧ (∃ a, Offers c s d f a) ∧
      ∀ a, Offers c s d f a →
        d.Becomes limits s.sequenceType a.edit first (fs₁ ++ ⟨p.toList, 1, .scalar []⟩ :: fs₂) := by
  obtain ⟨type, htype, hmissing, rfl⟩ := Block.mem_findings_missingParam hf hissue
  have hnew := h.not_mem_keys_of_missingOf hmissing hname
  obtain ⟨fs₁, g, fs₂, rfl, hflat, hline⟩ := h.exists_lineAfter_last htype hlast
  have hoffers (a : CodeAction) := offers_missingParam (c := c) (s := s) (a := a)
    (f := ⟨.missingParam p, Range.point b.contentRange.stop.line 0⟩) rfl
    (quotable_of_isName hname) h.blockAt?_last
  rw [hline] at hoffers
  refine ⟨fs₁ ++ [g], fs₂, by simp, hnew, ⟨_, (hoffers _).mpr rfl⟩, fun a ha => h.becomes _ _ ?_ ?_⟩
  · refine Readable.insert (by simpa using h.readable) (wellFormed_bare hkey) ?_ (by simpa using hnew)
    rw [depth]
    exact Nat.zero_lt_of_lt h.readable.depth_lt
  · have hsplit : fieldLines 0 (fs₁ ++ g :: fs₂) =
        (fieldLines 0 fs₁ ++ [g.head 0]) ++ fieldLines 0 fs₂ := by
      rw [fieldLines_append, fieldLines_cons_of_isFlat hflat]
      simp
    rw [(hoffers a).mp ha, h.apply_insert (h.after_ne_nil hend) hsplit
      (m := Keyed.head 0 ⟨p.toList, 1, .scalar []⟩) (by rw [head_bare]; simp [blanks])]
    rw [fieldLines_append, fieldLines_append, fieldLines_cons_of_isFlat hflat,
      fieldLines_cons_of_isFlat rfl, fieldLines]

/-- An unknown parameter is offered a fix, unless the deck is too long, and loses its field. -/
theorem becomes_of_unknownParam (h : d.Carries limits s.sequenceType b fs first before after v)
    (hend : b.contentRange.stop.line + 1 < d.lineCount) {type : String}
    (hflat : ∀ g ∈ fs, g.key = k.toList → g.isFlat = true)
    (hf : f ∈ b.findings c s.sequenceType) (hissue : f.issue = .unknownParam k type) :
    ∃ fs₁ g fs₂, fs = fs₁ ++ g :: fs₂ ∧ g.key = k.toList ∧
      (d.lineCount ≤ Position.limit → ∃ a, Offers c s d f a) ∧
      ∀ a, Offers c s d f a → d.Becomes limits s.sequenceType a.edit first (fs₁ ++ fs₂) := by
  obtain ⟨htype, q, hq, rfl, rfl⟩ := Block.mem_findings_unknownParam hf hissue
  obtain ⟨hmem, -, hmeta⟩ := mem_unknownOf.mp hq
  have hagain := h.found_again hmem
  obtain ⟨fs₁, g, fs₂, w, rfl, hname, hw, hqg⟩ : ∃ fs₁ g fs₂ w, fs = fs₁ ++ g :: fs₂ ∧
      isName g.key = true ∧ v.get? (String.ofList g.key) = some w ∧
      q = g.parameter (first + 1 + (fieldLines 0 fs₁).length) w := by
    rw [h.lays.parameters_eq h.readable] at hmem
    exact (Fragment.mem_parametersFrom h.readable.field).mp hmem
  have hkey : g.key = q.key.toList := by rw [hqg, Keyed.key_parameter, String.toList_ofList]
  have hline : q.lineRange =
      Range.onLine (first + 1 + (fieldLines 0 fs₁).length) 0 (g.head 0).length := by
    rw [hqg]
    rfl
  have hoffers (a : CodeAction) := offers_unknownParam (c := c) (s := s) (a := a)
    (f := ⟨.unknownParam q.key type, q.keyRange⟩) (Or.inl rfl)
    (quotable_of_isName (by rw [← hkey]; exact hname)) hagain hline
  have hsplit : fieldLines 0 (fs₁ ++ g :: fs₂) =
      fieldLines 0 fs₁ ++ g.head 0 :: fieldLines 0 fs₂ := by
    rw [fieldLines_append,
      fieldLines_cons_of_isFlat (hflat g (List.mem_append_right fs₁ List.mem_cons_self) hkey)]
  refine ⟨fs₁, g, fs₂, rfl, hkey, fun hcount => ?_, fun a ha => h.becomes _ _ ?_ ?_⟩
  · have hlimit : first + 1 + (fieldLines 0 fs₁).length + 1 ≤ Position.limit :=
      Nat.le_trans (h.lt_lineCount hsplit) hcount
    exact ⟨_, (hoffers _).mpr ⟨hlimit, rfl⟩⟩
  · -- The type is a field of its own, so one is left.
    have hne : g.key ≠ "type".toList := by
      rw [hkey]
      intro heq
      rw [String.toList_injective heq] at hmeta
      simp [isMetaField] at hmeta
    obtain ⟨gs₁, gap, gs₂, hfields, -⟩ := h.exists_typeField htype
    refine h.readable.of_sublist (by simp) fun hnil => ?_
    obtain ⟨rfl, rfl⟩ := List.append_eq_nil_iff.mp hnil
    have hfield := List.mem_singleton.mp
      (hfields ▸ List.mem_append_right gs₁ List.mem_cons_self : _ ∈ [g])
    exact hne (congrArg Keyed.key hfield.symm)
  · rw [((hoffers a).mp ha).2, h.apply_delete (h.after_ne_nil hend) hsplit, fieldLines_append]

theorem becomes_of_unknownType (h : d.Carries limits s.sequenceType b fs first before after v)
    (hf : f ∈ b.findings c s.sequenceType) (hissue : f.issue = .unknownType k)
    (hquote : '\x27' ∉ k.toList) (ha : Offers c s d f a)
    (htitle : a.title = "Change to '" ++ p ++ "'") (htext : isText p.toList = true) :
    ∃ fs₁ gap fs₂, fs = fs₁ ++ ⟨"type".toList, gap, .scalar k.toList⟩ :: fs₂ ∧
      d.Becomes limits s.sequenceType a.edit first
        (fs₁ ++ ⟨"type".toList, gap, .scalar p.toList⟩ :: fs₂) := by
  obtain ⟨htype, hne, rfl⟩ := Block.mem_findings_unknownType hf hissue
  have hsome : b.actionType.isSome = true := by rw [htype]; rfl
  have hrange := h.lays.typeRange_eq hsome
  obtain ⟨fs₁, gap, fs₂, rfl, hbefore⟩ := h.exists_typeField htype
  obtain ⟨hspaced, hkey, hvalue⟩ :=
    h.readable.field _ (List.mem_append_right fs₁ List.mem_cons_self)
  have hk : isText k.toList = true := (wellFormed_scalar_iff.mp hvalue).resolve_left fun hnil =>
    hne (String.toList_eq_nil_iff.mp hnil)
  have hgap := hspaced.pos_of_isText hk
  -- The line of the type, up to the type itself.
  have hsplit : ∀ t : List Char, fieldLines 0 (fs₁ ++ ⟨"type".toList, gap, .scalar t⟩ :: fs₂) =
      fieldLines 0 fs₁ ++ ((Line.typeWord ++ blanks gap) ++ t) :: fieldLines 0 fs₂ := by
    intro t
    rw [fieldLines_append, fieldLines_cons_of_isFlat rfl]
    rfl
  have hleft : (Line.typeWord ++ blanks gap).getLast?.any Text.isDotted = false := by
    rw [getLast?_blanks hgap]
    decide +kernel
  have hlength : (Line.typeWord ++ blanks gap).length = 5 + gap := by
    rw [List.length_append, length_blanks]
    rfl
  rw [Block.typeRange?_fieldLines
    (fun g hg => h.readable.field g (List.mem_append_left _ hg)) hbefore hk, ← hlength] at hrange
  rw [hrange, Option.getD_some] at ha
  have hfound := h.findInRange?_eq (hsplit k.toList) hleft
  obtain ⟨t, -, htitle', hedit⟩ := edit_of_unknownType ha (Or.inl rfl) ⟨hne, hquote⟩ hfound
  obtain rfl : t = p := title_injective (htitle'.symm.trans htitle)
  refine ⟨fs₁, gap, fs₂, rfl, h.becomes _ _ ?_ ?_⟩
  · refine h.readable.replace (f := ⟨"type".toList, gap, .scalar k.toList⟩)
      ⟨Or.inl hgap, hkey, wellFormed_scalar_iff.mpr (Or.inr htext)⟩ ?_ rfl
    rw [depth]
    exact Nat.zero_lt_of_lt h.readable.depth_lt
  · rw [hedit, h.apply_within (hsplit k.toList), hsplit]

end Fixes
end Document.Carries
end TalkDeck
