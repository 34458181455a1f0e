import TalkDeck.Proofs.Deck.Aligned
import TalkDeck.Proofs.QuickFix.Block

/-
What the fixes of a step do to a deck.

For a step of a block that holds an aligned form each edit is a change of the form in that step: a
missing parameter becomes a field of it, an unknown one loses its field, and an unknown type is
replaced.  The deck after the edit is read with the changed form in the same place.
-/

namespace TalkDeck

open Yaml Layout QuickFix

namespace Yaml.Layout

variable {limits : Limits} {fs gs : List (Keyed Layout)} {q : SequenceForm}
  {ms₁ ms₂ : List StepForm} {m m' : StepForm}

/-! ## Another step in a form -/

theorem fieldLines_withStep (q : SequenceForm) (ms₁ : List StepForm) (m : StepForm)
    (ms₂ : List StepForm) :
    fieldLines 0 (q.withStep ms₁ m ms₂).fields =
      q.above ms₁ ++ (m.lines q.gap ++ (ms₂.flatMap (·.lines q.gap) ++ fieldLines 0 q.after)) :=
  fieldLines_form (q := q.withStep ms₁ m ms₂) rfl

/-- The lines around a place between the fields of a step. -/
theorem fieldLines_stepForm {fs₁ fs₂ : List (Keyed Layout)} (hsteps : q.steps = ms₁ ++ m :: ms₂)
    (hrest : m.rest = fs₁ ++ fs₂) :
    fieldLines 0 q.fields =
      (q.above ms₁ ++ (m.lead q.gap ++ m.type) :: fieldLines (m.column q.gap) fs₁) ++
        (fieldLines (m.column q.gap) fs₂ ++ (ms₂.flatMap (·.lines q.gap) ++ fieldLines 0 q.after)) := by
  rw [fieldLines_form hsteps, StepForm.lines, hrest, fieldLines_append]
  simp

/-- A step with other fields, around a place between them. -/
theorem fieldLines_withRest (q : SequenceForm) (ms₁ : List StepForm) (m : StepForm)
    (ms₂ : List StepForm) (fs₁ fs₂ : List (Keyed Layout)) :
    fieldLines 0 (q.withStep ms₁ { m with rest := fs₁ ++ fs₂ } ms₂).fields =
      (q.above ms₁ ++ (m.lead q.gap ++ m.type) :: fieldLines (m.column q.gap) fs₁) ++
        (fieldLines (m.column q.gap) fs₂ ++ (ms₂.flatMap (·.lines q.gap) ++ fieldLines 0 q.after)) :=
  fieldLines_stepForm (q := q.withStep ms₁ { m with rest := fs₁ ++ fs₂ } ms₂)
    (m := { m with rest := fs₁ ++ fs₂ }) rfl rfl

theorem length_stepForm (q : SequenceForm) (ms₁ : List StepForm) (m : StepForm)
    {fs₁ : List (Keyed Layout)} (hflat : ∀ f ∈ fs₁, f.isFlat = true) (n : Nat) :
    n + (q.above ms₁).length + 1 + fs₁.length =
      n + (q.above ms₁ ++ (m.lead q.gap ++ m.type) :: fieldLines (m.column q.gap) fs₁).length := by
  rw [fieldLines_of_isFlat hflat]
  simp only [List.length_append, List.length_cons, List.length_map]
  omega

theorem isName_of_word {k : List Char} (hkey : isKey k = true) (hword : k.all Text.isWord = true) :
    isName k = true := by
  obtain ⟨c, r, rfl, -⟩ := exists_cons_of_key hkey
  rw [List.all_eq_true] at hword
  rw [isName, Bool.and_eq_true, List.all_eq_true]
  refine ⟨hword c List.mem_cons_self, fun e he => ?_⟩
  rw [Text.isDotted, hword e he, Bool.true_or]

theorem SequenceForm.Aligned.withStep (h : q.Aligned) (hsteps : q.steps = ms₁ ++ m :: ms₂)
    (hgap : m'.gap = m.gap) (hrest : m'.rest = m.rest) : (q.withStep ms₁ m' ms₂).Aligned where
  before := h.before
  after := h.after
  rest := by
    intro e he
    rcases mem_withStep hsteps he with rfl | he
    · have hm := h.rest m (by rw [hsteps]; simp)
      rw [hrest, StepForm.column, hgap]
      exact hm
    · exact h.rest e he

/-- A step with another type can be read. -/
theorem Readable.retype (h : Readable limits q.fields) (hsteps : q.steps = ms₁ ++ m :: ms₂)
    {t : List Char} (hgap : 0 < m.typeGap) (ht : isText t = true) :
    Readable limits (q.withStep ms₁ { m with type := t } ms₂).fields := by
  have hm := SequenceForm.mem_steps hsteps
  have hnodup := h.stepNodup hm
  refine h.withFields hsteps rfl hnodup fun e he => ?_
  rcases List.mem_cons.mp he with rfl | he
  · have hkey := (h.stepField hm _ List.mem_cons_self).2.1
    exact ⟨⟨Or.inl hgap, hkey, wellFormed_scalar_iff.mpr (Or.inr ht)⟩, Or.inl rfl⟩
  · exact ⟨h.stepField hm e (List.mem_cons_of_mem _ he), Or.inr (List.mem_cons_of_mem _ he)⟩

/-- A step that has lost a field can be read. -/
theorem Readable.deleteRest (h : Readable limits q.fields) (hsteps : q.steps = ms₁ ++ m :: ms₂)
    {g : Keyed Layout} (hrest : m.rest = fs ++ g :: gs) :
    Readable limits (q.withStep ms₁ { m with rest := fs ++ gs } ms₂).fields := by
  refine h.withRest hsteps ?_
  rw [hrest]
  simp

/-- A step with a new key can be read. -/
theorem Readable.insertRest (h : Readable limits q.fields) (hsteps : q.steps = ms₁ ++ m :: ms₂)
    (hrest : m.rest = fs ++ gs) {k : List Char} (hkey : isKey k = true)
    (hnew : k ∉ m.fields.map (·.key)) :
    Readable limits (q.withStep ms₁ { m with rest := fs ++ ⟨k, 1, .scalar []⟩ :: gs } ms₂).fields := by
  have hm := SequenceForm.mem_steps hsteps
  have hperm : (StepForm.fields { m with rest := fs ++ ⟨k, 1, .scalar []⟩ :: gs }).Perm
      (⟨k, 1, .scalar []⟩ :: m.fields) := by
    rw [StepForm.fields, StepForm.fields, hrest]
    exact (List.perm_middle.cons _).trans (List.Perm.swap _ _ _)
  refine h.withFields hsteps rfl ?_ fun e he => ?_
  · rw [(hperm.map _).nodup_iff, List.map_cons, List.nodup_cons]
    exact ⟨hnew, h.stepNodup hm⟩
  · rcases List.mem_cons.mp (hperm.mem_iff.mp he) with rfl | he
    · exact ⟨wellFormed_bare hkey, Or.inl rfl⟩
    · exact ⟨h.stepField hm e he, Or.inr he⟩

/-- The fields of a step and those after the steps are one line each. -/
structure SequenceForm.FlatAt (q : SequenceForm) (i : Nat) : Prop where
  step : ∀ m ∈ q.steps[i]?, ∀ f ∈ m.rest, f.isFlat = true
  after : ∀ f ∈ q.after, f.isFlat = true

theorem SequenceForm.FlatAt.flat_rest {q : SequenceForm} {i : Nat} (h : q.FlatAt i)
    {ms₁ ms₂ : List StepForm} {m : StepForm} (hsteps : q.steps = ms₁ ++ m :: ms₂)
    (hi : ms₁.length = i) : ∀ f ∈ m.rest, f.isFlat = true := by
  refine h.step m ?_
  rw [hsteps, ← hi, List.getElem?_append_right (Nat.le_refl _), Nat.sub_self]
  rfl

end Yaml.Layout

namespace Document.Carries

variable {limits : Limits} {d : Document} {b : Block} {q : SequenceForm} {first : Nat}
  {before after : List Line} {v : Value} {seq : String} {t : Step}

/-! ## Steps found again -/

theorem locatesStep (h : d.Carries limits seq b q.fields first before after v) {i : Nat}
    (ht : b.steps[i]? = some t) : d.LocatesStep b i t := by
  obtain ⟨r, o, rfl, hcontent⟩ := h.exists_raw
  exact Block.locatesStep hcontent ht

theorem stepAt?_eq (h : d.Carries limits seq b q.fields first before after v) (ht : t ∈ b.steps)
    {p : Position} (hp : t.range.holds p = true) : stepAt? b p = some t := by
  obtain ⟨r, o, rfl, hcontent⟩ := h.exists_raw
  exact Block.stepAt?_eq_some hcontent ht hp

/-- A parameter of a step is found again from its key. -/
theorem found_again_step (h : d.Carries limits seq b q.fields first before after v) {i : Nat}
    (ht : b.steps[i]? = some t) {p : Parameter} (hp : p ∈ t.parameters) :
    (d.blockAt? p.keyRange.start).bind (parameterAt? · p.keyRange.start) = some p := by
  have hlocates := h.locatesStep ht
  obtain ⟨n, -, hn⟩ := hlocates.parameters.points p hp
  have hinside := (hlocates.parameters.inside p hp p.keyRange (by simp [Parameter.ranges])).2
  have hblock := h.blockAt?_eq hn.key_line
    ⟨Position.le_trans hlocates.inside.1 hinside.1, Position.le_trans hinside.2 hlocates.inside.2⟩
  rw [hblock, Option.bind_some]
  obtain ⟨r, o, rfl, hcontent⟩ := h.exists_raw
  exact Block.parameterAt?_step hcontent (List.mem_of_getElem? ht) hp

section Fixes

variable {c : Catalog} {s : Settings} {f : Finding} {a : CodeAction} {p k : String} {i : Nat}

/-- An unknown type of a step is replaced in the step. -/
theorem becomes_of_stepUnknownType (h : d.Carries limits s.sequenceType b q.fields first before after v)
    (haligned : q.Aligned) (ht : b.steps[i]? = some t) (hf : f ∈ t.findings c)
    (hissue : f.issue = .stepUnknownType k) (hquote : '\x27' ∉ k.toList) (ha : Offers c s d f a)
    (htitle : a.title = "Change to '" ++ p ++ "'") (htext : isText p.toList = true) :
    ∃ ms₁ m ms₂, q.steps = ms₁ ++ m :: ms₂ ∧ ms₁.length = i ∧
      Readable limits (q.withStep ms₁ { m with type := p.toList } ms₂).fields ∧
      d.Becomes limits s.sequenceType a.edit first
        (q.withStep ms₁ { m with type := p.toList } ms₂).fields := by
  obtain ⟨ms₁, m, ms₂, w, hsteps, hi, hw, -, rfl⟩ := h.exists_stepForm haligned ht
  have hm := SequenceForm.mem_steps hsteps
  obtain ⟨hspaced, -, hwell⟩ := h.readable.stepField hm _ List.mem_cons_self
  obtain ⟨htype, hne, rfl⟩ := Step.mem_findings_unknownType hf hissue
  obtain ⟨hname, hisText⟩ := Step.isText_of_actionType hw hwell htype
  have htypeGap := hspaced.pos_of_isText hisText
  -- The line of the dash, up to the type itself.
  have hsplit := fieldLines_form hsteps
  rw [StepForm.lines, List.cons_append, hname] at hsplit
  have hleft : (m.lead q.gap).getLast?.any Text.isDotted = false := by
    have hlead : m.lead q.gap =
        (blanks q.gap ++ '-' :: (blanks m.gap ++ Line.typeWord)) ++ blanks m.typeGap := by
      simp [StepForm.lead]
    rw [hlead, getLast?_blanks htypeGap]
    decide +kernel
  rw [Step.typeRange_ofForm hw (h.readable.step hm).1 hisText, hname, Option.getD_some] at ha
  have hfound := h.findInRange?_eq hsplit hleft
  obtain ⟨t, -, htitle', hedit⟩ := edit_of_unknownType ha (Or.inr rfl) ⟨hne, hquote⟩ hfound
  obtain rfl : t = p := title_injective (htitle'.symm.trans htitle)
  have hread := h.readable.retype hsteps htypeGap htext
  refine ⟨ms₁, m, ms₂, hsteps, hi, hread, h.becomes _ _ hread ?_⟩
  rw [hedit, h.apply_within hsplit, fieldLines_withStep]
  rfl

/-- The parameters of a step with flat fields. -/
theorem mem_stepParameters (h : d.Carries limits seq b q.fields first before after v)
    (hflat : q.FlatAt i) {ms₁ ms₂ : List StepForm} {m : StepForm}
    (hsteps : q.steps = ms₁ ++ m :: ms₂)
    (hi : ms₁.length = i) {n : Nat} {w : Value} (hw : w.Holds (.fields m.fields)) {e : Parameter} :
    e ∈ (Step.ofForm i m q.gap n (q.belowLast ms₂) w).parameters ↔
      ∃ fs₁ g fs₂ w', m.rest = fs₁ ++ g :: fs₂ ∧ g.key.all Text.isWord = true ∧
        w.get? (String.ofList g.key) = some w' ∧
        e = g.stepParameter (m.column q.gap) (n + 1 + fs₁.length) w' := by
  have hm := SequenceForm.mem_steps hsteps
  have hgap : 0 < q.gap := h.readable.stepsField.1.resolve_right fun heq => by cases heq
  have hextra : ∀ l ∈ q.belowLast ms₂, l.stepKey? = none := by
    intro l hl
    rw [SequenceForm.belowLast] at hl
    split at hl
    · rw [fieldLines_of_isFlat hflat.after] at hl
      obtain ⟨g, hg, rfl⟩ := List.mem_map.mp hl
      exact Line.stepKey?_head_zero (h.readable.field g (by simp [SequenceForm.fields, hg])).2.1
    · cases hl
  exact Step.mem_parameters_ofForm hw hgap (h.readable.step hm).1 (h.readable.stepField hm)
    (h.readable.stepNodup hm) (hflat.flat_rest hsteps hi) hextra

/-- An unknown parameter of a step with flat fields is offered a fix, unless the deck is too long,
and loses its field. -/
theorem becomes_of_stepUnknownParam
    (h : d.Carries limits s.sequenceType b q.fields first before after v)
    (haligned : q.Aligned) (hflat : q.FlatAt i) (hend : b.contentRange.stop.line + 1 < d.lineCount)
    (ht : b.steps[i]? = some t) {type : String} (hf : f ∈ t.findings c)
    (hissue : f.issue = .stepUnknownParam k type) :
    ∃ ms₁ m ms₂ fs₁ g fs₂, q.steps = ms₁ ++ m :: ms₂ ∧ ms₁.length = i ∧
      m.rest = fs₁ ++ g :: fs₂ ∧ g.key = k.toList ∧
      (d.lineCount ≤ Position.limit → ∃ a, Offers c s d f a) ∧
      Readable limits (q.withStep ms₁ { m with rest := fs₁ ++ fs₂ } ms₂).fields ∧
      ∀ a, Offers c s d f a → d.Becomes limits s.sequenceType a.edit first
        (q.withStep ms₁ { m with rest := fs₁ ++ fs₂ } ms₂).fields := by
  obtain ⟨ms₁, m, ms₂, w, hsteps, hi, hw, -, rfl⟩ := h.exists_stepForm haligned ht
  have hm := SequenceForm.mem_steps hsteps
  obtain ⟨-, e, he, rfl, rfl⟩ := Step.mem_findings_unknownParam hf hissue
  have hmem := (mem_unknownOf.mp he).1
  have hagain := h.found_again_step ht hmem
  obtain ⟨fs₁, g, fs₂, w', hrest, hword, -, heg⟩ :=
    (h.mem_stepParameters hflat hsteps hi hw).mp hmem
  have hkey : g.key = e.key.toList := by rw [heg, Keyed.key_stepParameter, String.toList_ofList]
  have hflatRest := hflat.flat_rest hsteps hi
  rw [hrest] at hflatRest
  have hline : e.lineRange = Range.onLine (first + 1 +
      (q.above ms₁ ++ (m.lead q.gap ++ m.type) :: fieldLines (m.column q.gap) fs₁).length) 0
      (g.head (m.column q.gap)).length := by
    rw [← length_stepForm q ms₁ m fun e he => hflatRest e (List.mem_append_left _ he), heg]
    rfl
  have hgkey : isKey g.key = true :=
    (h.readable.stepField hm g (List.mem_cons_of_mem _ (by rw [hrest]; simp))).2.1
  have hoffers (a : CodeAction) := offers_unknownParam (c := c) (s := s) (a := a)
    (f := ⟨.stepUnknownParam e.key type, e.keyRange⟩) (Or.inr rfl)
    (quotable_of_isName (by rw [← hkey]; exact isName_of_word hgkey hword)) hagain hline
  have hsplit := fieldLines_stepForm hsteps hrest
  rw [fieldLines_cons_of_isFlat (hflatRest g (by simp)), List.cons_append] at hsplit
  have hread := h.readable.deleteRest hsteps hrest
  refine ⟨ms₁, m, ms₂, fs₁, g, fs₂, hsteps, hi, hrest, hkey, fun hcount => ?_, hread, fun a ha =>
    h.becomes _ _ hread ?_⟩
  · exact ⟨_, (hoffers _).mpr ⟨Nat.le_trans (h.lt_lineCount hsplit) hcount, rfl⟩⟩
  · rw [((hoffers a).mp ha).2, h.apply_delete (h.after_ne_nil hend) hsplit, fieldLines_withRest]

/-- A parameter that is missing is no key of the step, if it is a word. -/
theorem not_mem_keys_of_stepMissing (h : d.Carries limits seq b q.fields first before after v)
    (hflat : q.FlatAt i) {ms₁ ms₂ : List StepForm} {m : StepForm}
    (hsteps : q.steps = ms₁ ++ m :: ms₂) (hi : ms₁.length = i) {n : Nat} {w : Value}
    (hw : w.Holds (.fields m.fields)) {type : String}
    (hp : p ∈ missingOf c type (Step.ofForm i m q.gap n (q.belowLast ms₂) w).parameters)
    (hword : p.toList.all Text.isWord = true) (hne : p ≠ "type") :
    p.toList ∉ m.fields.map (·.key) := by
  intro hmem
  rcases List.mem_cons.mp hmem with htype | hmem
  · exact hne (String.toList_injective htype)
  · obtain ⟨g, hg, hkey⟩ := List.mem_map.mp hmem
    obtain ⟨w', hw'⟩ := hw.exists_get? (List.mem_cons_of_mem _ hg)
    obtain ⟨fs₁, fs₂, hrest⟩ := List.append_of_mem hg
    have hparameter := (h.mem_stepParameters hflat hsteps hi hw (n := n)).mpr
      ⟨fs₁, g, fs₂, w', hrest, by rw [hkey]; exact hword, hw', rfl⟩
    refine (mem_missingOf.mp hp).2 ⟨_, hparameter, ?_⟩
    rw [Keyed.key_stepParameter, hkey, String.ofList_toList]

/-- A missing parameter goes below one of the fields, or below the type. -/
theorem exists_lineAfter (h : d.Carries limits seq b q.fields first before after v) (hflat : q.FlatAt i)
    {ms₁ ms₂ : List StepForm} {m : StepForm} (hsteps : q.steps = ms₁ ++ m :: ms₂)
    (hi : ms₁.length = i) {n : Nat} {w : Value} (hw : w.Holds (.fields m.fields))
    (htype : isText m.type = true) (otherwise : Nat) :
    ∃ fs₁ fs₂, m.rest = fs₁ ++ fs₂ ∧
      lineAfter (Step.ofForm i m q.gap n (q.belowLast ms₂) w).parameters
        (Step.ofForm i m q.gap n (q.belowLast ms₂) w).typeRange otherwise = n + 1 + fs₁.length := by
  have hm := SequenceForm.mem_steps hsteps
  cases hlast : (Step.ofForm i m q.gap n (q.belowLast ms₂) w).parameters.getLast? with
  | none =>
    refine ⟨[], m.rest, rfl, ?_⟩
    rw [Step.typeRange_ofForm hw (h.readable.step hm).1 htype]
    simp only [lineAfter, hlast, Range.onLine, List.length_nil, Nat.add_zero]
  | some e =>
    obtain ⟨fs₁, g, fs₂, w', hrest, -, -, rfl⟩ :=
      (h.mem_stepParameters hflat hsteps hi hw).mp (List.mem_of_getLast? hlast)
    refine ⟨fs₁ ++ [g], fs₂, by rw [hrest]; simp, ?_⟩
    simp only [lineAfter, hlast, Keyed.stepParameter, Parameter.ofSpan, Range.onLine,
      List.length_append, List.length_singleton, Nat.add_assoc]

/-- The place at which missing parameters of a step are found. -/
theorem found_again_last (h : d.Carries limits seq b q.fields first before after v)
    (ht : b.steps[i]? = some t) (hstart : t.range.start.character = 0) :
    d.blockAt? (Range.point t.range.stop.line 0).start = some b ∧
      stepAt? b (Range.point t.range.stop.line 0).start = some t := by
  have hlocates := h.locatesStep ht
  have hle : Position.le t.range.start ⟨t.range.stop.line, 0⟩ := by
    have hforward := hlocates.fits.forward
    simp only [Position.le] at hforward ⊢
    omega
  have hle' : Position.le ⟨t.range.stop.line, 0⟩ t.range.stop := Or.inr ⟨rfl, Nat.zero_le _⟩
  constructor
  · exact h.blockAt?_eq ⟨0, 0, rfl, Nat.le_refl 0, Nat.le_refl 0⟩
      ⟨Position.le_trans hlocates.inside.1 hle, Position.le_trans hle' hlocates.inside.2⟩
  · exact h.stepAt?_eq (List.mem_of_getElem? ht) ((Range.holds_iff _ _).mpr ⟨hle, hle'⟩)

/-- New fields of a step stand in the column of its type. -/
theorem stepIndent_eq (h : d.Carries limits seq b q.fields first before after v)
    {ms₁ ms₂ : List StepForm} {m : StepForm} (hsteps : q.steps = ms₁ ++ m :: ms₂)
    (hstart : t.range.start = ⟨first + 1 + (q.above ms₁).length, 0⟩) :
    stepIndent d t = String.ofList (blanks (m.column q.gap)) := by
  have hgap := (h.readable.step (SequenceForm.mem_steps hsteps)).1
  have hline := h.getElem?_lines (fieldLines_form hsteps)
  rw [stepIndent, hstart]
  simp only [line, hline, Option.getD_some, Line.dashBlanks?_lead q.gap hgap]
  rfl

/-- A missing parameter of a step with flat fields is offered a fix, and becomes a field of it. -/
theorem becomes_of_stepMissingParam
    (h : d.Carries limits s.sequenceType b q.fields first before after v)
    (haligned : q.Aligned) (hflat : q.FlatAt i) (hend : b.contentRange.stop.line + 1 < d.lineCount)
    (ht : b.steps[i]? = some t) (hf : f ∈ t.findings c) (hissue : f.issue = .stepMissingParam p)
    (hkey : isKey p.toList = true) (hword : p.toList.all Text.isWord = true) (hne : p ≠ "type") :
    ∃ ms₁ m ms₂ fs₁ fs₂, q.steps = ms₁ ++ m :: ms₂ ∧ ms₁.length = i ∧ m.rest = fs₁ ++ fs₂ ∧
      p.toList ∉ m.fields.map (·.key) ∧ (∃ a, Offers c s d f a) ∧
      Readable limits
        (q.withStep ms₁ { m with rest := fs₁ ++ ⟨p.toList, 1, .scalar []⟩ :: fs₂ } ms₂).fields ∧
      ∀ a, Offers c s d f a → d.Becomes limits s.sequenceType a.edit first
        (q.withStep ms₁ { m with rest := fs₁ ++ ⟨p.toList, 1, .scalar []⟩ :: fs₂ } ms₂).fields := by
  obtain ⟨ms₁, m, ms₂, w, hsteps, hi, hw, -, ht'⟩ := h.exists_stepForm haligned ht
  have hm := SequenceForm.mem_steps hsteps
  obtain ⟨type, htype, hname, rfl⟩ := Step.mem_findings_missingParam hf hissue
  rw [ht'] at htype hname
  have hwell := (h.readable.stepField hm _ List.mem_cons_self).2.2
  have hisText := (Step.isText_of_actionType hw hwell htype).2
  have hnew := h.not_mem_keys_of_stepMissing hflat hsteps hi hw hname hword hne
  have hstart : t.range.start = ⟨first + 1 + (q.above ms₁).length, 0⟩ := by
    rw [ht', Step.ofForm_eq hw]
  have hindent := h.stepIndent_eq hsteps hstart
  obtain ⟨fs₁, fs₂, hrest, hafter⟩ := h.exists_lineAfter hflat hsteps hi
    (n := first + 1 + (q.above ms₁).length) hw hisText (t.range.start.line + 1)
  rw [← ht'] at hafter
  obtain ⟨hblock, hstep⟩ := h.found_again_last ht (by rw [hstart])
  have hoffers (a : CodeAction) := offers_stepMissingParam (c := c) (s := s) (a := a)
    (f := ⟨.stepMissingParam p, Range.point t.range.stop.line 0⟩) rfl
    (quotable_of_isName (isName_of_word hkey hword)) hblock hstep
  have hflatRest := hflat.flat_rest hsteps hi
  rw [hrest] at hflatRest
  have hnumber := length_stepForm q ms₁ m
    (fun e he => hflatRest e (List.mem_append_left _ he)) (first + 1)
  rw [hafter, hindent, hnumber] at hoffers
  have hread := h.readable.insertRest hsteps hrest hkey hnew
  refine ⟨ms₁, m, ms₂, fs₁, fs₂, hsteps, hi, hrest, hnew, ⟨_, (hoffers _).mpr rfl⟩, hread,
    fun a ha => h.becomes _ _ hread ?_⟩
  rw [(hoffers a).mp ha, h.apply_insert (h.after_ne_nil hend) (fieldLines_stepForm hsteps hrest)
    (m := Keyed.head (m.column q.gap) ⟨p.toList, 1, .scalar []⟩) (by rw [head_bare]; simp),
    fieldLines_withRest, fieldLines_cons_of_isFlat rfl, List.cons_append]

end Fixes
end Document.Carries
end TalkDeck
