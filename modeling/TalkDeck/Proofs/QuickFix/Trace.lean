import TalkDeck.Proofs.Diagnostic.Verdict

/-
From a diagnostic back to the parameter it is about.

A fix has only the message and the range of a diagnostic to go by.  The range begins in the content of
the block that it was found in and of no other (`Document.blockAt?_start`, `Document.blockAt?_last`),
and inside the block it leads to one step and to one parameter.  The name in the message is read back
as it was written: keys are names by the way they are read (`Fragment.quotable_of_parameter?`,
`Step.quotable_of_parameter?`), and the names of a catalog are taken to be quotable.

The theorem this file exists for is `diagnostics_traced`.
-/

namespace TalkDeck

open QuickFix

/-! ## Names -/

instance : DecidablePred Quotable := fun name =>
  inferInstanceAs (Decidable (name ≠ "" ∧ '\x27' ∉ name.toList))

namespace Line

variable {l : Line} {k : KeySpan}

theorem quotable_of_span {p : Char → Bool} (hp : p '\x27' = false) {start : Nat}
    (hstart : k.start = start) (hstop : k.stop = start + ((l.drop start).takeWhile p).length)
    (hne : (l.drop start).takeWhile p ≠ []) : Quotable (k.key l) := by
  have hkey : k.key l = String.ofList ((l.drop start).takeWhile p) := by
    rw [KeySpan.key, hstart, hstop, Nat.add_sub_cancel_left]
    exact congrArg _ (List.prefix_iff_eq_take.mp (List.takeWhile_prefix p)).symm
  rw [hkey]
  constructor
  · intro hempty
    exact hne (String.ofList_eq_empty_iff.mp hempty)
  · rw [String.toList_ofList]
    intro hmem
    have hquote := List.all_eq_true.mp List.all_takeWhile _ hmem
    rw [hp] at hquote
    cases hquote

theorem quotable_of_topKey? (h : l.topKey? = some k) : Quotable (k.key l) := by
  rw [topKey?] at h
  split at h
  · cases h
  · unfold keyAt? at h
    dsimp only at h
    split at h
    · next hcond =>
      obtain rfl := Option.some.inj h
      refine quotable_of_span (p := Text.isDotted) (by decide) rfl rfl ?_
      intro hnil
      rw [hnil] at hcond
      cases hcond
    · cases h

theorem quotable_of_stepKey? (h : l.stepKey? = some k) : Quotable (k.key l) := by
  unfold stepKey? at h
  dsimp only at h
  split at h
  · next hcond =>
    obtain rfl := Option.some.inj h
    refine quotable_of_span (p := Text.isWord) (by decide) rfl rfl ?_
    intro hnil
    rw [hnil, Bool.and_eq_true, Bool.and_eq_true] at hcond
    cases hcond.1.2
  · cases h

end Line

theorem Fragment.quotable_of_parameter? {v : Yaml.Value} {n : Nat} {l : Line} {p : Parameter}
    (h : parameter? v n l = some p) : Quotable p.key := by
  obtain ⟨k, hk, h⟩ := Option.bind_eq_some_iff.mp h
  obtain ⟨value, -, h⟩ := Option.bind_eq_some_iff.mp h
  rw [← Option.some.inj h]
  exact Line.quotable_of_topKey? hk

theorem Step.quotable_of_parameter? {v : Yaml.Value} {n : Nat} {l : Line} {p : Parameter}
    (h : parameter? v n l = some p) : Quotable p.key := by
  obtain ⟨k, hk, h⟩ := Option.bind_eq_some_iff.mp h
  dsimp only at h
  split at h
  · cases h
  · obtain ⟨value, -, h⟩ := Option.bind_eq_some_iff.mp h
    rw [← Option.some.inj h]
    exact Line.quotable_of_stepKey? hk

/-- The parameters of a catalog can all be named in a message. -/
def Catalog.Quotable (c : Catalog) : Prop :=
  ∀ spec ∈ c.specs, ∀ p ∈ spec.parameters, QuickFix.Quotable p.name

theorem Catalog.Quotable.of_mem_required {c : Catalog} {type name : String} (h : c.Quotable)
    (hname : name ∈ c.required type) : QuickFix.Quotable name := by
  rw [required] at hname
  cases hspec : c.spec? type with
  | none =>
    rw [hspec] at hname
    cases hname
  | some spec =>
    rw [hspec, Option.map_some, Option.getD_some] at hname
    obtain ⟨p, hp, rfl⟩ := List.mem_map.mp hname
    exact h spec (List.mem_of_find?_eq_some hspec) p (List.mem_filter.mp hp).1

theorem Block.start_of_mem_steps {seq : String} {r : Block.Raw} {o : Fragment.Outcome} {t : Step}
    (h : t ∈ (ofOutcome seq r o).steps) : t.range.start.character = 0 := by
  obtain ⟨i, hi⟩ := List.getElem?_of_mem h
  obtain ⟨members, -, hi⟩ := getElem?_steps_ofOutcome hi
  obtain ⟨g, member, hg, -, rfl⟩ := Step.getElem?_ofBlock hi
  rw [Step.ofLines_eq i (Step.groups_ne_nil (List.mem_of_getElem? hg))]

/-! ## Findings of parameters -/

namespace Document

variable {limits : Limits} {uri content : String} {version : Int} {d : Document} {b : Block}
  {c : Catalog} {s : Settings} {t : Step} {f : Finding} {name key type : String}

/-- Exactly one action is offered for the diagnostic of a finding, and this is its title. -/
def OffersOne (d : Document) (c : Catalog) (s : Settings) (f : Finding) (title : String) : Prop :=
  ∃ a, (all c s d [f.diagnostic s.diagnosticSource]).outcome.1 = .ok [a] ∧ a.title = title

/-- A finding leads back to its block, and to the missing parameter that it names. -/
def TracesMissing (d : Document) (c : Catalog) (s : Settings) (b : Block) (f : Finding)
    (name : String) : Prop :=
  d.blockAt? f.range.start = some b ∧ missingParamIn? f.issue.message = some name ∧
    d.OffersOne c s f ("Add missing parameter '" ++ name ++ "'")

/-- A finding leads back to its block, and to the one of some parameters that it names.  The line of
the parameter can be removed if there is a number for the line below it. -/
def TracesUnknown (d : Document) (c : Catalog) (s : Settings) (b : Block) (ps : List Parameter)
    (f : Finding) (key : String) : Prop :=
  d.blockAt? f.range.start = some b ∧ unknownParamIn? f.issue.message = some key ∧
    ∃ p ∈ ps, p.key = key ∧ p.keyRange = f.range ∧ parameterAt? b f.range.start = some p ∧
      (p.lineRange.stop.line + 1 ≤ Position.limit →
        d.OffersOne c s f ("Remove unknown parameter '" ++ key ++ "'"))

/-- The actions for one diagnostic are its fixes. -/
theorem all_singleton (g : Diagnostic) : all c s d [g] = fixes c s d g := by
  simp only [all, pure_bind, List.append_nil, bind_pure]

theorem offersOne_of_fixes {a : CodeAction}
    (h : (fixes c s d (f.diagnostic s.diagnosticSource)).outcome.1 = .ok [a]) :
    d.OffersOne c s f a.title := by
  refine ⟨a, ?_, rfl⟩
  rw [all_singleton, h]

theorem tracesMissing (hd : create limits uri version content s.sequenceType = .ok d)
    (hb : b ∈ d.blocks) (hnames : c.Quotable) (hf : f ∈ b.findings c s.sequenceType)
    (hissue : f.issue = .missingParam name) : d.TracesMissing c s b f name := by
  obtain ⟨type, -, hname, rfl⟩ := Block.mem_findings_missingParam hf hissue
  have hquotable := hnames.of_mem_required (mem_missingOf.mp hname).1
  obtain ⟨r, hr, o, -, rfl⟩ := exists_raw_of_mem_blocks hd hb
  have hbounds := Block.bounds_contentRange (content_prefix_of_mem_raws hr) s.sequenceType o
  have hblock := blockAt?_last hd hb hbounds.forward ⟨Position.le_refl _, Position.le_refl _⟩
  exact ⟨hblock, missingParamIn?_message hquotable,
    offersOne_of_fixes (fixes_missingParam rfl hquotable hblock)⟩

theorem tracesUnknown (hd : create limits uri version content s.sequenceType = .ok d)
    (hb : b ∈ d.blocks) (hf : f ∈ b.findings c s.sequenceType)
    (hissue : f.issue = .unknownParam key type) :
    d.TracesUnknown c s b b.parameters f key := by
  obtain ⟨-, p, hp, rfl, rfl⟩ := Block.mem_findings_unknownParam hf hissue
  have hp := (mem_unknownOf.mp hp).1
  obtain ⟨r, hr, o, -, rfl⟩ := exists_raw_of_mem_blocks hd hb
  have hcontent := content_prefix_of_mem_raws hr
  obtain ⟨v, n, hfound⟩ := Block.exists_parameter? hcontent hp
  have hquotable := Fragment.quotable_of_parameter? hfound
  have hpoints := (Fragment.parameter?_eq_some hfound).1
  have hinside := ((Block.locates_parameters hcontent s.sequenceType o).inside p hp p.keyRange
    (by simp [Parameter.ranges])).2
  have hblock := blockAt?_start hd hb hpoints.key_line hinside
  have hparameter := Block.parameterAt?_block hcontent hp
  refine ⟨hblock, unknownParamIn?_message hquotable _, p, hp, rfl, rfl, hparameter, fun hlimit => ?_⟩
  rw [hpoints.whole_line] at hlimit
  refine offersOne_of_fixes (fixes_unknownParam (Or.inl rfl) hquotable ?_ hpoints.whole_line hlimit)
  rw [hblock]
  exact hparameter

theorem tracesMissing_step (hd : create limits uri version content s.sequenceType = .ok d)
    (hb : b ∈ d.blocks) (hnames : c.Quotable) (ht : t ∈ b.steps) (hf : f ∈ t.findings c)
    (hissue : f.issue = .stepMissingParam name) :
    stepAt? b f.range.start = some t ∧ d.TracesMissing c s b f name := by
  obtain ⟨type, -, hname, rfl⟩ := Step.mem_findings_missingParam hf hissue
  have hquotable := hnames.of_mem_required (mem_missingOf.mp hname).1
  obtain ⟨r, hr, o, -, rfl⟩ := exists_raw_of_mem_blocks hd hb
  have hcontent := content_prefix_of_mem_raws hr
  obtain ⟨i, hi⟩ := List.getElem?_of_mem ht
  have hlocates := Block.locatesStep hcontent hi
  have hblock := blockAt?_last hd hb hlocates.fits.forward hlocates.inside
  have hstep := Block.stepAt?_eq_some hcontent ht
    (Range.holds_lastLine hlocates.fits.forward (Block.start_of_mem_steps ht))
  exact ⟨hstep, hblock, missingParamIn?_stepMessage hquotable,
    offersOne_of_fixes (fixes_stepMissingParam rfl hquotable hblock hstep)⟩

theorem tracesUnknown_step (hd : create limits uri version content s.sequenceType = .ok d)
    (hb : b ∈ d.blocks) (ht : t ∈ b.steps) (hf : f ∈ t.findings c)
    (hissue : f.issue = .stepUnknownParam key type) : d.TracesUnknown c s b t.parameters f key := by
  obtain ⟨-, p, hp, rfl, rfl⟩ := Step.mem_findings_unknownParam hf hissue
  have hp := (mem_unknownOf.mp hp).1
  obtain ⟨r, hr, o, -, rfl⟩ := exists_raw_of_mem_blocks hd hb
  have hcontent := content_prefix_of_mem_raws hr
  obtain ⟨v, n, hfound⟩ := Block.exists_stepParameter? hcontent ht hp
  have hquotable := Step.quotable_of_parameter? hfound
  have hpoints := (Step.parameter?_eq_some hfound).1
  obtain ⟨i, hi⟩ := List.getElem?_of_mem ht
  have hlocates := Block.locatesStep hcontent hi
  have hinside := (hlocates.parameters.inside p hp p.keyRange (by simp [Parameter.ranges])).2
  have hblock := blockAt?_start hd hb hpoints.key_line (hinside.trans hlocates.inside)
  have hparameter := Block.parameterAt?_step hcontent ht hp
  refine ⟨hblock, unknownParamIn?_stepMessage hquotable _, p, hp, rfl, rfl, hparameter,
    fun hlimit => ?_⟩
  rw [hpoints.whole_line] at hlimit
  refine offersOne_of_fixes (fixes_unknownParam (Or.inr rfl) hquotable ?_ hpoints.whole_line hlimit)
  rw [hblock]
  exact hparameter

/-! ## Diagnostics -/

theorem issue_of_code {i : Issue} (h : i.code ∈ ["ET004", "ET005", "ET008", "ET009"]) :
    (∃ name, i = .missingParam name) ∨ (∃ key type, i = .unknownParam key type) ∨
      (∃ name, i = .stepMissingParam name) ∨ ∃ key type, i = .stepUnknownParam key type := by
  cases i <;> simp [Issue.code] at h ⊢

theorem code_of_mem_linkFindings {l : Inline} (h : f ∈ l.linkFindings c) :
    f.issue.code ∈ ["ET011", "ET012"] := by
  rw [Inline.linkFindings] at h
  split at h
  · obtain ⟨p, -, rfl⟩ := List.mem_map.mp h
    exact List.mem_cons_of_mem _ List.mem_cons_self
  · rw [List.mem_singleton.mp h]
    exact List.mem_cons_self

theorem code_of_mem_renderFindings {l : Inline} (h : f ∈ l.renderFindings) :
    f.issue.code ∈ ["ET013", "ET014"] := by
  rw [Inline.renderFindings] at h
  split at h
  · rw [List.mem_singleton.mp h]
    exact List.mem_cons_self
  · obtain ⟨p, -, rfl⟩ := List.mem_map.mp h
    exact List.mem_cons_of_mem _ List.mem_cons_self

/-- What is found neither in a link nor in a directive is found in a block. -/
theorem exists_block_of_mem_findings {seq : String} (hf : f ∈ d.findings c seq)
    (hcode : f.issue.code ∉ ["ET011", "ET012", "ET013", "ET014"]) :
    ∃ b ∈ d.blocks, f ∈ b.findings c seq := by
  obtain ⟨slide, hslide, hf⟩ := List.mem_flatMap.mp hf
  rw [Slide.findings, List.mem_append, List.mem_append] at hf
  rcases hf with (hf | hf) | hf
  · obtain ⟨b, hb, hf⟩ := List.mem_flatMap.mp hf
    exact ⟨b, List.mem_flatMap.mpr ⟨slide, hslide, hb⟩, hf⟩
  · obtain ⟨l, -, hf⟩ := List.mem_flatMap.mp hf
    exact absurd (List.mem_append_left ["ET013", "ET014"] (code_of_mem_linkFindings hf)) hcode
  · obtain ⟨l, -, hf⟩ := List.mem_flatMap.mp hf
    exact absurd (List.mem_append_right ["ET011", "ET012"] (code_of_mem_renderFindings hf)) hcode

/-- A finding of a block about the type or a parameter of a step is one of that step. -/
theorem exists_step_of_mem_findings {seq : String} (hf : f ∈ b.findings c seq)
    (hissue : (∃ type, f.issue = .stepUnknownType type) ∨ (∃ name, f.issue = .stepMissingParam name) ∨
      ∃ key type, f.issue = .stepUnknownParam key type) : ∃ t ∈ b.steps, f ∈ t.findings c := by
  rcases Block.mem_findings_cases hf with h | ⟨m, h⟩ | h | h |
    ⟨type, -, -, rfl | ⟨name, -, rfl⟩ | ⟨p, -, rfl⟩ | hstep⟩
  · simp [h] at hissue
  · simp [h] at hissue
  · simp [h] at hissue
  · simp [h] at hissue
  · simp at hissue
  · simp at hissue
  · simp at hissue
  · exact hstep

/-- A diagnostic about a parameter is that of a finding in a block or in one of its steps. -/
theorem exists_finding {g : Diagnostic} (hg : g ∈ d.diagnostics c s)
    (hcode : ∃ code ∈ ["ET004", "ET005", "ET008", "ET009"], g.code = some (.text code)) :
    ∃ b ∈ d.blocks, ∃ f ∈ b.findings c s.sequenceType, g = f.diagnostic s.diagnosticSource ∧
      ((∃ name, f.issue = .missingParam name) ∨ (∃ key type, f.issue = .unknownParam key type) ∨
        ∃ t ∈ b.steps, f ∈ t.findings c ∧ ((∃ name, f.issue = .stepMissingParam name) ∨
          ∃ key type, f.issue = .stepUnknownParam key type)) := by
  obtain ⟨f, hf, rfl⟩ := List.mem_map.mp hg
  obtain ⟨code, hcode, heq⟩ := hcode
  obtain rfl : f.issue.code = code := DiagnosticCode.text.inj (Option.some.inj heq)
  have hother : f.issue.code ∉ ["ET011", "ET012", "ET013", "ET014"] := by
    generalize f.issue.code = code at hcode
    revert code
    decide
  obtain ⟨b, hb, hf⟩ := exists_block_of_mem_findings hf hother
  refine ⟨b, hb, f, hf, rfl, ?_⟩
  rcases issue_of_code hcode with hissue | hissue | hissue
  · exact Or.inl hissue
  · exact Or.inr (Or.inl hissue)
  · obtain ⟨t, ht, hft⟩ := exists_step_of_mem_findings hf (Or.inr hissue)
    exact Or.inr (Or.inr ⟨t, ht, hft, hissue⟩)

/-- **Every diagnostic about a parameter leads back to where it comes from.**  It is that of a finding
in a block or in a step.  A finding in a block leads back to the block, and one in a step to the step
as well; a parameter that is not known is found again.  The name in the message is read back, and
exactly one action is offered, which names it. -/
theorem diagnostics_traced (hd : create limits uri version content s.sequenceType = .ok d)
    (hnames : ∀ spec ∈ c.specs, ∀ p ∈ spec.parameters, Quotable p.name) :
    (∀ g ∈ d.diagnostics c s,
      (∃ code ∈ ["ET004", "ET005", "ET008", "ET009"], g.code = some (.text code)) →
      ∃ b ∈ d.blocks, ∃ f ∈ b.findings c s.sequenceType, g = f.diagnostic s.diagnosticSource ∧
        ((∃ name, f.issue = .missingParam name) ∨ (∃ key type, f.issue = .unknownParam key type) ∨
          ∃ t ∈ b.steps, f ∈ t.findings c ∧ ((∃ name, f.issue = .stepMissingParam name) ∨
            ∃ key type, f.issue = .stepUnknownParam key type))) ∧
    ∀ b ∈ d.blocks,
      (∀ f ∈ b.findings c s.sequenceType,
        (∀ name, f.issue = .missingParam name → d.TracesMissing c s b f name) ∧
        ∀ key type, f.issue = .unknownParam key type → d.TracesUnknown c s b b.parameters f key) ∧
      ∀ t ∈ b.steps, ∀ f ∈ t.findings c,
        (∀ name, f.issue = .stepMissingParam name →
          stepAt? b f.range.start = some t ∧ d.TracesMissing c s b f name) ∧
        ∀ key type, f.issue = .stepUnknownParam key type →
          d.TracesUnknown c s b t.parameters f key := by
  refine ⟨fun g hg hcode => exists_finding hg hcode, fun b hb => ⟨?_, ?_⟩⟩
  · intro f hf
    constructor
    · intro name hissue
      exact tracesMissing hd hb hnames hf hissue
    · intro key type hissue
      exact tracesUnknown hd hb hf hissue
  · intro t ht f hf
    constructor
    · intro name hissue
      exact tracesMissing_step hd hb hnames ht hf hissue
    · intro key type hissue
      exact tracesUnknown_step hd hb ht hf hissue

theorem diagnostics_traced_extra :
    ∃ d, create .usual "a" 1 extraStepDeck "sequence" = .ok d ∧
      (∃ b ∈ d.blocks, ∃ f ∈ b.findings (.standard "sequence") "sequence",
        f.issue = .missingParam "path" ∧ d.TracesMissing (.standard "sequence") {} b f "path") ∧
      (∃ b ∈ d.blocks, ∃ f ∈ b.findings (.standard "sequence") "sequence",
        f.issue = .unknownParam "extra" "file.open" ∧
          d.TracesUnknown (.standard "sequence") {} b b.parameters f "extra") ∧
      ∃ b ∈ d.blocks, ∃ t ∈ b.steps,
        (∃ f ∈ t.findings (.standard "sequence"), f.issue = .stepMissingParam "path" ∧
          stepAt? b f.range.start = some t ∧
          d.TracesMissing (.standard "sequence") {} b f "path") ∧
        ∃ f ∈ t.findings (.standard "sequence"), f.issue = .stepUnknownParam "extra" "file.open" ∧
          d.TracesUnknown (.standard "sequence") {} b t.parameters f "extra" := by
  obtain ⟨d, hd, hcheck⟩ := exists_eq_ok_of_any (x := create .usual "a" 1 extraStepDeck "sequence")
    (p := fun d => decide (
      (∃ b ∈ d.blocks, ∃ f ∈ b.findings (.standard "sequence") "sequence",
        f.issue = .missingParam "path") ∧
      (∃ b ∈ d.blocks, ∃ f ∈ b.findings (.standard "sequence") "sequence",
        f.issue = .unknownParam "extra" "file.open") ∧
      ∃ b ∈ d.blocks, ∃ t ∈ b.steps,
        (∃ f ∈ t.findings (.standard "sequence"), f.issue = .stepMissingParam "path") ∧
        ∃ f ∈ t.findings (.standard "sequence"), f.issue = .stepUnknownParam "extra" "file.open"))
    (by decide +kernel)
  obtain ⟨⟨b, hb, f, hf, hissue⟩, ⟨b', hb', f', hf', hissue'⟩, b'', hb'', t, ht, ⟨u, hu, huissue⟩,
    v, hv, hvissue⟩ := of_decide_eq_true hcheck
  obtain ⟨-, htraced⟩ := diagnostics_traced (c := .standard "sequence") (s := {}) hd
    (by decide +kernel)
  refine ⟨d, hd, ⟨b, hb, f, hf, hissue, ?_⟩, ⟨b', hb', f', hf', hissue', ?_⟩, b'', hb'', t, ht,
    ⟨u, hu, huissue, ?_⟩, v, hv, hvissue, ?_⟩
  · exact ((htraced b hb).1 f hf).1 "path" hissue
  · exact ((htraced b' hb').1 f' hf').2 "extra" "file.open" hissue'
  · exact ((htraced b'' hb'').2 t ht u hu).1 "path" huissue
  · exact ((htraced b'' hb'').2 t ht v hv).2 "extra" "file.open" hvissue

end Document
end TalkDeck
