import TalkDeck.Proofs.Deck.Laid
import TalkDeck.Proofs.QuickFix.Offer

/-
From a finding back to what it is about.

A finding of a block or of a step is one of a few (`Block.mem_findings_cases`,
`Step.mem_findings_cases`).  Parameters stand on lines of their own and steps follow each other, so
the key of a parameter and the lines of a step lead back to that parameter and that step
(`parameterAt?_block`, `parameterAt?_step`, `stepAt?_eq_some`).
-/

namespace TalkDeck

/-! ## Findings -/

section Findings

variable {c : Catalog} {seq : String} {b : Block} {t : Step} {f : Finding}

theorem namedType_eq_some {o : Option String} {type : String} (h : namedType o = some type) :
    o = some type ∧ type ≠ "" := by
  obtain ⟨ho, hne⟩ := Option.filter_eq_some_iff.mp h
  refine ⟨ho, ?_⟩
  rintro rfl
  cases hne

theorem mem_missingOf {type : String} {present : List Parameter} {name : String} :
    name ∈ missingOf c type present ↔ name ∈ c.required type ∧ ¬∃ p ∈ present, p.key = name := by
  rw [missingOf, List.mem_filter, Bool.not_eq_true', ← Bool.not_eq_true, List.any_eq_true]
  simp only [beq_iff_eq]

theorem mem_unknownOf {type : String} {present : List Parameter} {p : Parameter} :
    p ∈ unknownOf c type present ↔
      p ∈ present ∧ p.key ∉ c.names type ∧ isMetaField p.key = false := by
  rw [unknownOf, List.mem_filter, Bool.and_eq_true, Bool.not_eq_true', Bool.not_eq_true',
    ← Bool.not_eq_true, List.contains_iff_mem]

/-- What can be found in a step. -/
theorem Step.mem_findings_cases (h : f ∈ t.findings c) :
    f.issue = .stepMissingType ∨ ∃ type, t.actionType = some type ∧ type ≠ "" ∧
      (f = ⟨.stepUnknownType type, t.typeRange.getD t.range⟩ ∨
        (∃ name ∈ missingOf c type t.parameters,
          f = ⟨.stepMissingParam name, Range.point t.range.stop.line 0⟩) ∨
        ∃ p ∈ unknownOf c type t.parameters, f = ⟨.stepUnknownParam p.key type, p.keyRange⟩) := by
  rw [findings] at h
  split at h
  · left
    rw [List.mem_singleton.mp h]
  · next type htype =>
    obtain ⟨htype, hne⟩ := namedType_eq_some htype
    refine Or.inr ⟨type, htype, hne, ?_⟩
    split at h
    · rcases List.mem_append.mp h with h | h
      · obtain ⟨name, hname, rfl⟩ := List.mem_map.mp h
        exact Or.inr (Or.inl ⟨name, hname, rfl⟩)
      · obtain ⟨p, hp, rfl⟩ := List.mem_map.mp h
        exact Or.inr (Or.inr ⟨p, hp, rfl⟩)
    · exact Or.inl (List.mem_singleton.mp h)

section

variable {type name key : String}

theorem Step.mem_findings_unknownType (h : f ∈ t.findings c) (hissue : f.issue = .stepUnknownType type) :
    t.actionType = some type ∧ type ≠ "" ∧
      f = ⟨.stepUnknownType type, t.typeRange.getD t.range⟩ := by
  rcases mem_findings_cases h with h | ⟨type, htype, hne, rfl | ⟨name, -, rfl⟩ | ⟨p, -, rfl⟩⟩
  · cases h.symm.trans hissue
  · cases hissue
    exact ⟨htype, hne, rfl⟩
  · cases hissue
  · cases hissue

theorem Step.mem_findings_missingParam (h : f ∈ t.findings c)
    (hissue : f.issue = .stepMissingParam name) :
    ∃ type, t.actionType = some type ∧ name ∈ missingOf c type t.parameters ∧
      f = ⟨.stepMissingParam name, Range.point t.range.stop.line 0⟩ := by
  rcases mem_findings_cases h with h | ⟨type, htype, -, rfl | ⟨name, hname, rfl⟩ | ⟨p, -, rfl⟩⟩
  · cases h.symm.trans hissue
  · cases hissue
  · cases hissue
    exact ⟨type, htype, hname, rfl⟩
  · cases hissue

theorem Step.mem_findings_unknownParam (h : f ∈ t.findings c)
    (hissue : f.issue = .stepUnknownParam key type) :
    t.actionType = some type ∧ ∃ p ∈ unknownOf c type t.parameters, p.key = key ∧
      f = ⟨.stepUnknownParam p.key type, p.keyRange⟩ := by
  rcases mem_findings_cases h with h | ⟨type, htype, -, rfl | ⟨name, -, rfl⟩ | ⟨p, hp, rfl⟩⟩
  · cases h.symm.trans hissue
  · cases hissue
  · cases hissue
  · cases hissue
    exact ⟨htype, p, hp, rfl, rfl⟩

end

/-- What can be found in a block. -/
theorem Block.mem_findings_cases (h : f ∈ b.findings c seq) :
    f.issue = .unclosedBlock ∨ (∃ m, f.issue = .brokenYaml m) ∨ f.issue = .emptyBlock ∨
      f.issue = .missingType ∨ ∃ type, b.actionType = some type ∧ type ≠ "" ∧
        (f = ⟨.unknownType type, b.typeRange.getD b.contentRange⟩ ∨
          (∃ name ∈ missingOf c type b.parameters,
            f = ⟨.missingParam name, Range.point b.contentRange.stop.line 0⟩) ∨
          (∃ p ∈ unknownOf c type b.parameters, f = ⟨.unknownParam p.key type, p.keyRange⟩) ∨
          ∃ t ∈ b.steps, f ∈ t.findings c) := by
  rw [findings, List.mem_append] at h
  rcases h with h | h
  · left
    split at h
    · rw [List.mem_singleton.mp h]
    · cases h
  · right
    rw [contentFindings] at h
    split at h
    · exact Or.inl ⟨_, by rw [List.mem_singleton.mp h]⟩
    · right
      split at h
      · exact Or.inl (by rw [List.mem_singleton.mp h])
      · right
        split at h
        · exact Or.inl (by rw [List.mem_singleton.mp h])
        · next type htype =>
          obtain ⟨htype, hne⟩ := namedType_eq_some htype
          refine Or.inr ⟨type, htype, hne, ?_⟩
          split at h
          · rw [typedFindings, List.mem_append, List.mem_append] at h
            rcases h with (h | h) | h
            · obtain ⟨name, hname, rfl⟩ := List.mem_map.mp h
              exact Or.inr (Or.inl ⟨name, hname, rfl⟩)
            · obtain ⟨p, hp, rfl⟩ := List.mem_map.mp h
              exact Or.inr (Or.inr (Or.inl ⟨p, hp, rfl⟩))
            · split at h
              · exact Or.inr (Or.inr (Or.inr (List.mem_flatMap.mp h)))
              · cases h
          · exact Or.inl (List.mem_singleton.mp h)

/-- Findings of steps are told by their issue. -/
theorem Step.issue_of_mem_findings (h : f ∈ t.findings c) :
    f.issue = .stepMissingType ∨ (∃ type, f.issue = .stepUnknownType type) ∨
      (∃ name, f.issue = .stepMissingParam name) ∨ ∃ key type, f.issue = .stepUnknownParam key type := by
  rcases mem_findings_cases h with h | ⟨type, -, -, rfl | ⟨name, -, rfl⟩ | ⟨p, -, rfl⟩⟩
  · exact Or.inl h
  · exact Or.inr (Or.inl ⟨type, rfl⟩)
  · exact Or.inr (Or.inr (Or.inl ⟨name, rfl⟩))
  · exact Or.inr (Or.inr (Or.inr ⟨p.key, type, rfl⟩))

/-- A finding of a block that names a type or a parameter. -/
theorem Block.mem_findings_named (h : f ∈ b.findings c seq)
    (hissue : (∃ type, f.issue = .unknownType type) ∨ (∃ name, f.issue = .missingParam name) ∨
      ∃ key type, f.issue = .unknownParam key type) :
    ∃ type, b.actionType = some type ∧ type ≠ "" ∧
      (f = ⟨.unknownType type, b.typeRange.getD b.contentRange⟩ ∨
        (∃ name ∈ missingOf c type b.parameters,
          f = ⟨.missingParam name, Range.point b.contentRange.stop.line 0⟩) ∨
        ∃ p ∈ unknownOf c type b.parameters, f = ⟨.unknownParam p.key type, p.keyRange⟩) := by
  rcases mem_findings_cases h with h | ⟨m, h⟩ | h | h |
    ⟨type, htype, hne, h | h | h | ⟨t, -, ht⟩⟩
  · simp [h] at hissue
  · simp [h] at hissue
  · simp [h] at hissue
  · simp [h] at hissue
  · exact ⟨type, htype, hne, Or.inl h⟩
  · exact ⟨type, htype, hne, Or.inr (Or.inl h)⟩
  · exact ⟨type, htype, hne, Or.inr (Or.inr h)⟩
  · rcases Step.issue_of_mem_findings ht with h | ⟨type, h⟩ | ⟨name, h⟩ | ⟨key, type, h⟩
    · simp [h] at hissue
    · simp [h] at hissue
    · simp [h] at hissue
    · simp [h] at hissue

section

variable {type name key : String}

theorem Block.mem_findings_unknownType (h : f ∈ b.findings c seq)
    (hissue : f.issue = .unknownType type) :
    b.actionType = some type ∧ type ≠ "" ∧
      f = ⟨.unknownType type, b.typeRange.getD b.contentRange⟩ := by
  obtain ⟨type, htype, hne, rfl | ⟨name, -, rfl⟩ | ⟨p, -, rfl⟩⟩ :=
    mem_findings_named h (Or.inl ⟨type, hissue⟩)
  · cases hissue
    exact ⟨htype, hne, rfl⟩
  · cases hissue
  · cases hissue

theorem Block.mem_findings_missingParam (h : f ∈ b.findings c seq)
    (hissue : f.issue = .missingParam name) :
    ∃ type, b.actionType = some type ∧ name ∈ missingOf c type b.parameters ∧
      f = ⟨.missingParam name, Range.point b.contentRange.stop.line 0⟩ := by
  obtain ⟨type, htype, -, rfl | ⟨name, hname, rfl⟩ | ⟨p, -, rfl⟩⟩ :=
    mem_findings_named h (Or.inr (Or.inl ⟨name, hissue⟩))
  · cases hissue
  · cases hissue
    exact ⟨type, htype, hname, rfl⟩
  · cases hissue

theorem Block.mem_findings_unknownParam (h : f ∈ b.findings c seq)
    (hissue : f.issue = .unknownParam key type) :
    b.actionType = some type ∧ ∃ p ∈ unknownOf c type b.parameters, p.key = key ∧
      f = ⟨.unknownParam p.key type, p.keyRange⟩ := by
  obtain ⟨type, htype, -, rfl | ⟨name, -, rfl⟩ | ⟨p, hp, rfl⟩⟩ :=
    mem_findings_named h (Or.inr (Or.inr ⟨key, type, hissue⟩))
  · cases hissue
  · cases hissue
  · cases hissue
    exact ⟨htype, p, hp, rfl, rfl⟩

end

end Findings

/-! ## Places -/

theorem Range.holds_start {r : Range} {n length : Nat} (h : r.WithinLine n length) :
    r.holds r.start = true := by
  obtain ⟨a, b, rfl, hab, -⟩ := h
  rw [holds_iff]
  exact ⟨Position.le_refl _, Or.inr ⟨rfl, hab⟩⟩

/-- A range on one line holds positions of that line only. -/
theorem Range.line_eq_of_holds {r : Range} {n length : Nat} {p : Position}
    (h : r.WithinLine n length) (hp : r.holds p = true) : p.line = n := by
  obtain ⟨a, b, rfl, -, -⟩ := h
  rw [holds_iff] at hp
  simp only [Position.le, onLine] at hp
  omega

/-- A key of a step stands further in than one at the left edge. -/
theorem Line.topKey?_eq_none_of_stepKey? {l : Line} {k : KeySpan} (h : l.stepKey? = some k) :
    l.topKey? = none := by
  rw [stepKey?] at h
  split at h
  · next hcond =>
    rw [Bool.and_eq_true, Bool.and_eq_true, decide_eq_true_iff] at hcond
    have hhead : l.head?.any Text.isBlank = true := by
      cases l with
      | nil => exact absurd hcond.1.1 (by decide)
      | cons ch l =>
        by_cases hblank : Text.isBlank ch = true
        · exact hblank
        · have hzero : Text.blankLead (ch :: l) = 0 := by
            rw [Text.blankLead, List.takeWhile_cons_of_neg hblank]
            rfl
          have htwo := hcond.1.1
          rw [hzero] at htwo
          omega
    rw [topKey?, if_pos hhead]
  · cases h

namespace Document

variable {d : Document} {b : Block} {outer : Range} {mapping : Option Yaml.Value}
  {ps : List Parameter}

/-- Parameters in the order of their lines are found by their keys. -/
theorem find?_parameter {p : Parameter}
    (hpoints : ∀ p ∈ ps, ∃ n, p.PointsInto n (d.line n))
    (hincreasing : ps.Pairwise fun p q => p.lineRange.start.line < q.lineRange.start.line)
    (hp : p ∈ ps) : ps.find? (·.keyRange.holds p.keyRange.start) = some p := by
  refine find?_eq_some_of_pairwise hincreasing (fun q hq q' hq' hlt hhere hhere' => ?_) hp ?_
  · obtain ⟨n, hn⟩ := hpoints q hq
    obtain ⟨n', hn'⟩ := hpoints q' hq'
    have hline := Range.line_eq_of_holds hn.key_line hhere
    have hline' := Range.line_eq_of_holds hn'.key_line hhere'
    rw [hn.whole_line, hn'.whole_line] at hlt
    change n < n' at hlt
    omega
  · obtain ⟨n, hn⟩ := hpoints p hp
    exact Range.holds_start hn.key_line

end Document

namespace Block

variable {d : Document} {r : Raw} {seq : String} {o : Fragment.Outcome}

theorem parameterAt?_block (hcontent : r.content <+: d.lines.drop (r.first + 1)) {p : Parameter}
    (hp : p ∈ (ofOutcome seq r o).parameters) :
    QuickFix.parameterAt? (ofOutcome seq r o) p.keyRange.start = some p := by
  have hlocates := locates_parameters hcontent seq o
  have hpoints : ∀ q ∈ (ofOutcome seq r o).parameters, ∃ n, q.PointsInto n (d.line n) := by
    intro q hq
    obtain ⟨n, -, hn⟩ := hlocates.points q hq
    exact ⟨n, hn⟩
  rw [QuickFix.parameterAt?, List.find?_append,
    Document.find?_parameter hpoints hlocates.increasing hp, Option.some_or]

/-- Only a block of the sequence type has steps. -/
theorem actionType_of_mem_steps {u : Step} (h : u ∈ (ofOutcome seq r o).steps) :
    (ofOutcome seq r o).actionType = some seq := by
  unfold ofOutcome at h ⊢
  dsimp only at h ⊢
  split at h
  · next htype => exact htype
  · cases h

theorem stepAt?_eq_some (hcontent : r.content <+: d.lines.drop (r.first + 1)) {t : Step}
    (ht : t ∈ (ofOutcome seq r o).steps) {p : Position} (hp : t.range.holds p = true) :
    QuickFix.stepAt? (ofOutcome seq r o) p = some t := by
  refine Document.find?_eq_some_of_pairwise (pairwise_steps hcontent seq o)
    (fun u _ u' _ hlt hu hu' => ?_) ht hp
  rw [Range.not_holds_of_lt hlt hu] at hu'
  cases hu'

/-- The parameters of all steps, in the order of their lines. -/
theorem pairwise_stepParameters (hcontent : r.content <+: d.lines.drop (r.first + 1)) :
    ((ofOutcome seq r o).steps.flatMap (·.parameters)).Pairwise fun p q =>
      p.lineRange.start.line < q.lineRange.start.line := by
  have hstep : ∀ t ∈ (ofOutcome seq r o).steps, ∃ i, d.LocatesStep (ofOutcome seq r o) i t := by
    intro t ht
    obtain ⟨i, hi⟩ := List.getElem?_of_mem ht
    exact ⟨i, locatesStep hcontent hi⟩
  rw [List.pairwise_flatMap]
  refine ⟨fun t ht => ?_, (pairwise_steps hcontent seq o).imp_of_mem fun {t u} ht hu hlt p hp q hq => ?_⟩
  · obtain ⟨i, hi⟩ := hstep t ht
    exact hi.parameters.increasing
  · obtain ⟨i, hi⟩ := hstep t ht
    obtain ⟨j, hj⟩ := hstep u hu
    obtain ⟨n, -, hn⟩ := hi.parameters.points p hp
    obtain ⟨m, -, hm⟩ := hj.parameters.points q hq
    have hstop := (hi.parameters.inside p hp p.lineRange (by simp [Parameter.ranges])).2.2
    have hstart := (hj.parameters.inside q hq q.lineRange (by simp [Parameter.ranges])).2.1
    have horder := Position.lt_of_le_of_lt hstop (Position.lt_of_lt_of_le hlt hstart)
    rw [hn.whole_line, hm.whole_line] at horder ⊢
    rcases horder with horder | ⟨-, horder⟩
    · exact horder
    · exact absurd horder (Nat.not_lt_zero _)

/-- A parameter of a block was read from one of its lines. -/
theorem exists_parameter? (hcontent : r.content <+: d.lines.drop (r.first + 1)) {p : Parameter}
    (hp : p ∈ (ofOutcome seq r o).parameters) :
    ∃ v n, Fragment.parameter? v n (d.line n) = some p := by
  rw [parameters_ofOutcome fun l hl => newline_not_mem hcontent hl] at hp
  cases hvalue : o.value? with
  | none =>
    rw [hvalue] at hp
    cases hp
  | some v =>
    rw [hvalue, Option.map_some, Option.getD_some] at hp
    obtain ⟨⟨l, n⟩, hmem, hfound⟩ := List.mem_filterMap.mp hp
    obtain ⟨-, hline⟩ := (Document.numbers_zipIdx hcontent).line_eq hmem
    change d.line n = l at hline
    exact ⟨v, n, by rw [hline]; exact hfound⟩

theorem exists_topKey? (hcontent : r.content <+: d.lines.drop (r.first + 1)) {p : Parameter}
    (hp : p ∈ (ofOutcome seq r o).parameters) :
    ∃ n, p.PointsInto n (d.line n) ∧ (d.line n).topKey?.isSome = true := by
  obtain ⟨v, n, hfound⟩ := exists_parameter? hcontent hp
  obtain ⟨k, hk, -⟩ := Option.bind_eq_some_iff.mp hfound
  exact ⟨n, (Fragment.parameter?_eq_some hfound).1, by rw [hk]; rfl⟩

/-- A parameter of a step was read from one of its lines. -/
theorem exists_stepParameter? (hcontent : r.content <+: d.lines.drop (r.first + 1)) {t : Step}
    (ht : t ∈ (ofOutcome seq r o).steps) {p : Parameter} (hp : p ∈ t.parameters) :
    ∃ v n, Step.parameter? v n (d.line n) = some p := by
  obtain ⟨i, hi⟩ := List.getElem?_of_mem ht
  obtain ⟨members, -, hi⟩ := getElem?_steps_ofOutcome hi
  obtain ⟨g, member, hg, -, rfl⟩ := Step.getElem?_ofBlock hi
  have hmem := List.mem_of_getElem? hg
  rw [Step.ofLines_eq i (Step.groups_ne_nil hmem)] at hp
  cases hvalue : member.filter (·.isMap) with
  | none =>
    rw [hvalue] at hp
    cases hp
  | some v =>
    rw [hvalue, Option.map_some, Option.getD_some] at hp
    obtain ⟨⟨l, n⟩, hin, hfound⟩ := List.mem_filterMap.mp hp
    obtain ⟨-, hline⟩ := (Document.numbers_zipIdx hcontent).line_eq
      ((Step.sublist_of_mem_groups hmem).subset hin)
    change d.line n = l at hline
    exact ⟨v, n, by rw [hline]; exact hfound⟩

theorem exists_stepKey? (hcontent : r.content <+: d.lines.drop (r.first + 1)) {t : Step}
    (ht : t ∈ (ofOutcome seq r o).steps) {p : Parameter} (hp : p ∈ t.parameters) :
    ∃ n, p.PointsInto n (d.line n) ∧ (d.line n).stepKey?.isSome = true := by
  obtain ⟨v, n, hfound⟩ := exists_stepParameter? hcontent ht hp
  obtain ⟨k, hk, -⟩ := Option.bind_eq_some_iff.mp hfound
  exact ⟨n, (Step.parameter?_eq_some hfound).1, by rw [hk]; rfl⟩

theorem parameterAt?_step (hcontent : r.content <+: d.lines.drop (r.first + 1)) {t : Step}
    (ht : t ∈ (ofOutcome seq r o).steps) {p : Parameter} (hp : p ∈ t.parameters) :
    QuickFix.parameterAt? (ofOutcome seq r o) p.keyRange.start = some p := by
  -- No parameter of the block itself stands on the line.
  have hnone : (ofOutcome seq r o).parameters.find? (·.keyRange.holds p.keyRange.start) = none := by
    rw [List.find?_eq_none]
    intro q hq hholds
    obtain ⟨n, hn, hkey⟩ := exists_topKey? hcontent hq
    obtain ⟨m, hm, hstep⟩ := exists_stepKey? hcontent ht hp
    have hline := Range.line_eq_of_holds hn.key_line hholds
    obtain rfl : n = m := by
      rw [← hline, Range.line_eq_of_holds hm.key_line (Range.holds_start hm.key_line)]
    obtain ⟨k, hk⟩ := Option.isSome_iff_exists.mp hstep
    rw [Line.topKey?_eq_none_of_stepKey? hk] at hkey
    cases hkey
  have hpoints : ∀ q ∈ (ofOutcome seq r o).steps.flatMap (·.parameters),
      ∃ n, q.PointsInto n (d.line n) := by
    intro q hq
    obtain ⟨u, hu, hq⟩ := List.mem_flatMap.mp hq
    obtain ⟨n, hn, -⟩ := exists_stepKey? hcontent hu hq
    exact ⟨n, hn⟩
  rw [QuickFix.parameterAt?, List.find?_append, hnone, Option.none_or]
  exact Document.find?_parameter hpoints (pairwise_stepParameters hcontent)
    (List.mem_flatMap.mpr ⟨t, ht, hp⟩)

end Block

end TalkDeck
