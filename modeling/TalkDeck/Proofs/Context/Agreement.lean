import TalkDeck.Proofs.QuickFix.Place
import TalkDeck.Proofs.Session.Features

/-
The cursor and the deck on the same line.

What an author is writing is told from the line alone, a second time and with other words than those the
parameters of the deck were found by.  In the value of a parameter of a block the two agree on every line
that does not open with a dash and is not taken into a step (`Context.detect_block`), and in the value of
a parameter of a step on every line without a `type:` behind a blank (`Context.detect_step`).  The theorem
this file exists for is `Context.detect_agrees`: they agree on those lines and on no others.
-/

namespace TalkDeck

open Text

/-! ## Positions -/

theorem Range.Inside.holds {r outer : Range} {p : Position} (h : r.Inside outer)
    (hp : r.holds p = true) : outer.holds p = true := by
  rw [Range.holds_iff] at hp ⊢
  exact ⟨Position.le_trans h.1 hp.1, Position.le_trans hp.2 h.2⟩

/-! ## Keys of a line -/

namespace Line

/-- A line with a key at the left edge that does not open with a dash has that key for any
indentation. -/
theorem indentedKey?_of_topKey? {l : Line} {k : KeySpan} (h : l.topKey? = some k)
    (hdash : l.head? ≠ some '-') : l.indentedKey? = some k ∧ blankLead l = 0 := by
  unfold topKey? at h
  split at h
  · cases h
  · next hblank =>
    cases l with
    | nil => cases h
    | cons c l =>
      have hc : ¬ isBlank c = true := hblank
      have hlead : blankLead (c :: l) = 0 := by
        rw [blankLead, List.takeWhile_cons_of_neg hc, List.length_nil]
      refine ⟨?_, hlead⟩
      have hc' : c ≠ '-' := fun heq => hdash (by rw [heq]; rfl)
      have hdashLead : dashLead (c :: l) = 0 := by
        simp only [dashLead, hlead, List.drop_zero]
        split
        · next heq => exact absurd (List.cons.inj heq).1 hc'
        · rfl
      rw [hdashLead] at h
      rw [indentedKey?, hlead, h]

/-- A line that opens with a dash has no key for any indentation, and no `type:` either. -/
theorem indentedKey?_of_dash {l : Line} (h : l.head? = some '-') :
    l.indentedKey? = none ∧ l.isTypeLine = false := by
  cases l with
  | nil => cases h
  | cons c l =>
    obtain rfl := Option.some.inj h
    exact ⟨rfl, rfl⟩

/-- The key of a `type:` at the left edge is `type`. -/
theorem key_of_isTypeLine {l : Line} {k : KeySpan} (hkey : l.indentedKey? = some k)
    (hlead : blankLead l = 0) (htype : l.isTypeLine = true) : k.key l = "type" := by
  obtain ⟨rest, hrest⟩ := Option.isSome_iff_exists.mp htype
  rw [strip?_eq_some_iff, trimLeft_eq_drop, hlead, List.drop_zero] at hrest
  subst hrest
  obtain rfl := Option.some.inj hkey
  rfl

end Line

namespace Context

variable {limits : Limits} {uri content seq type : String} {version : Int} {d : Document}
  {b : Block} {t : Step} {q : Parameter} {p : Position}

/-! ## The block and the step at a position -/

theorem detect_of_block (hblock : d.blockAt? p = some b)
    (hstep : ∀ t ∈ b.steps, t.range.holds p = false) :
    detect seq d p = .block b (blockAim b (d.line p.line) p) := by
  have hfind : b.steps.find? (·.range.holds p) = none := by
    rw [List.find?_eq_none]
    intro t ht
    rw [hstep t ht]
    exact Bool.false_ne_true
  simp only [detect, hblock, hfind, ite_self]

theorem detect_of_step (hblock : d.blockAt? p = some b) (hseq : b.actionType = some seq)
    (hstep : b.steps.find? (·.range.holds p) = some t) :
    detect seq d p = .step b t (stepAim t (d.line p.line) p) := by
  simp only [detect, hblock, hseq, hstep, if_true]

/-! ## The value of a parameter -/

/-- What is being written is the value of the parameter. -/
def IsValueOf (type : String) (q : Parameter) : Aim → Prop
  | .paramValue type' name _ replace => type' = type ∧ name = q.key ∧ replace = q.valueRange
  | _ => False

variable {v : Yaml.Value} {n : Nat} {k : Line.KeySpan}

theorem line_eq_of_holds (hq : q.PointsInto n (d.line n)) (hp : q.valueRange.holds p = true) :
    p.line = n :=
  Range.line_eq_of_holds hq.value_line hp

/-- In the value of a marked key, the value is what is being written. -/
theorem valueAt?_of_holds (type : String) {value : Yaml.Value}
    (hkey : k.key (d.line p.line) ≠ "type")
    (hp : (Parameter.ofSpan k value p.line (d.line p.line)).valueRange.holds p = true) :
    ∃ aim, valueAt? type (d.line p.line) p k = some aim ∧
      IsValueOf type (Parameter.ofSpan k value p.line (d.line p.line)) aim := by
  have hstart : (d.line p.line).valueStart k.colon ≤ p.character := by
    obtain hlt | ⟨-, hle⟩ := ((Range.holds_iff _ _).mp hp).1
    · exact absurd hlt (Nat.lt_irrefl _)
    · exact hle
  unfold valueAt?
  dsimp only
  rw [if_neg (by rintro (heq | hlt); exacts [hkey heq, absurd hlt (Nat.not_lt.mpr hstart)])]
  exact ⟨_, rfl, rfl, rfl, rfl⟩

theorem blockAim_of_parameter? (hq : Fragment.parameter? v n (d.line n) = some q)
    (htype : namedType b.actionType = some type) (hkey : q.key ≠ "type")
    (hp : q.valueRange.holds p = true) :
    IsValueOf type q (blockAim b (d.line p.line) p) ↔ (d.line p.line).head? ≠ some '-' := by
  obtain rfl := line_eq_of_holds (Fragment.parameter?_eq_some hq).1 hp
  obtain ⟨k, value, hk, rfl, -⟩ := Fragment.exists_ofSpan hq
  constructor
  · intro h hdash
    obtain ⟨hindented, htypeLine⟩ := Line.indentedKey?_of_dash hdash
    simp only [blockAim, htypeLine, htype, hindented, fallback] at h
    exact h
  · intro hdash
    obtain ⟨hindented, hlead⟩ := Line.indentedKey?_of_topKey? hk hdash
    have htypeLine : (d.line p.line).isTypeLine = false := by
      rw [Bool.eq_false_iff]
      intro h
      exact hkey (Line.key_of_isTypeLine hindented hlead h)
    obtain ⟨aim, haim, hvalue⟩ := valueAt?_of_holds type hkey hp
    simp only [blockAim, htypeLine, htype, hindented, Option.bind_eq_bind, Option.bind_some, haim,
      Option.getD_some]
    exact hvalue

theorem stepAim_of_parameter? (hq : Step.parameter? v n (d.line n) = some q)
    (htype : namedType t.actionType = some type) (hp : q.valueRange.holds p = true) :
    IsValueOf type q (stepAim t (d.line p.line) p) ↔ (d.line p.line).stepTypeStart? = none := by
  obtain rfl := line_eq_of_holds (Step.parameter?_eq_some hq).1 hp
  obtain ⟨k, value, hk, rfl, hkey, -⟩ := Step.exists_ofSpan hq
  constructor
  · intro h
    cases hstart : (d.line p.line).stepTypeStart? with
    | none => rfl
    | some start =>
      simp only [stepAim, hstart, typeFrom] at h
      exact h.elim
  · intro hstart
    obtain ⟨aim, haim, hvalue⟩ := valueAt?_of_holds type hkey hp
    simp only [stepAim, hstart, htype, hk, Option.bind_eq_bind, Option.bind_some, haim,
      Option.getD_some]
    exact hvalue

/-! ## Agreement -/

theorem detect_block (hd : Document.create limits uri version content seq = .ok d) (hb : b ∈ d.blocks)
    (hq : q ∈ b.parameters) (hkey : q.key ≠ "type") (htype : namedType b.actionType = some type)
    (hp : q.valueRange.holds p = true) :
    (∃ aim, detect seq d p = .block b aim ∧ IsValueOf type q aim) ↔
      (d.line p.line).head? ≠ some '-' ∧ ∀ t ∈ b.steps, t.range.holds p = false := by
  obtain ⟨r, hr, o, -, rfl⟩ := Document.exists_raw_of_mem_blocks hd hb
  have hcontent := Document.content_prefix_of_mem_raws hr
  have hinside := ((Block.locates_parameters hcontent seq o).inside q hq q.valueRange
    (by simp [Parameter.ranges])).2
  have hblock := Document.blockAt?_eq_some hd hb (hinside.holds hp)
  obtain ⟨v, n, hfound⟩ := Block.exists_parameter? hcontent hq
  have haim := blockAim_of_parameter? hfound htype hkey hp
  constructor
  · rintro ⟨aim, hdetect, hvalue⟩
    have hstep : ∀ t ∈ (Block.ofOutcome seq r o).steps, t.range.holds p = false := by
      intro t ht
      rw [Bool.eq_false_iff]
      intro hholds
      rw [detect_of_step hblock (Block.actionType_of_mem_steps ht)
        (Block.stepAt?_eq_some hcontent ht hholds)] at hdetect
      cases hdetect
    rw [detect_of_block hblock hstep] at hdetect
    cases hdetect
    exact ⟨haim.mp hvalue, hstep⟩
  · rintro ⟨hdash, hstep⟩
    exact ⟨_, detect_of_block hblock hstep, haim.mpr hdash⟩

theorem detect_step (hd : Document.create limits uri version content seq = .ok d) (hb : b ∈ d.blocks)
    (ht : t ∈ b.steps) (hq : q ∈ t.parameters) (htype : namedType t.actionType = some type)
    (hp : q.valueRange.holds p = true) :
    (∃ aim, detect seq d p = .step b t aim ∧ IsValueOf type q aim) ↔
      (d.line p.line).stepTypeStart? = none := by
  obtain ⟨r, hr, o, -, rfl⟩ := Document.exists_raw_of_mem_blocks hd hb
  have hcontent := Document.content_prefix_of_mem_raws hr
  obtain ⟨i, hi⟩ := List.getElem?_of_mem ht
  have hlocates := Block.locatesStep hcontent hi
  have hholds := (hlocates.parameters.inside q hq q.valueRange
    (by simp [Parameter.ranges])).2.holds hp
  have hblock := Document.blockAt?_eq_some hd hb (hlocates.inside.holds hholds)
  obtain ⟨v, n, hfound⟩ := Block.exists_stepParameter? hcontent ht hq
  have haim := stepAim_of_parameter? hfound htype hp
  rw [detect_of_step hblock (Block.actionType_of_mem_steps ht)
    (Block.stepAt?_eq_some hcontent ht hholds)]
  constructor
  · rintro ⟨aim, hdetect, hvalue⟩
    cases hdetect
    exact haim.mp hvalue
  · intro hstart
    exact ⟨_, rfl, haim.mpr hstart⟩

/-- **The cursor agrees with the deck on these lines.**  In the value of a parameter of a block that
is not its type, that value is what is being written exactly if the line does not open with a dash and
belongs to no step.  In the value of a parameter of a step, that value of that step is what is being
written exactly if the line has no `type:` with a blank before it. -/
theorem detect_agrees (hd : Document.create limits uri version content seq = .ok d)
    (hb : b ∈ d.blocks) :
    (∀ type, namedType b.actionType = some type → ∀ q ∈ b.parameters, q.key ≠ "type" →
      ∀ p, q.valueRange.holds p = true →
        ((∃ aim, detect seq d p = .block b aim ∧ IsValueOf type q aim) ↔
          (d.line p.line).head? ≠ some '-' ∧ ∀ t ∈ b.steps, t.range.holds p = false)) ∧
      ∀ t ∈ b.steps, ∀ type, namedType t.actionType = some type → ∀ q ∈ t.parameters,
        ∀ p, q.valueRange.holds p = true →
          ((∃ aim, detect seq d p = .step b t aim ∧ IsValueOf type q aim) ↔
            (d.line p.line).stepTypeStart? = none) :=
  ⟨fun _ htype _ hq hkey _ hp => detect_block hd hb hq hkey htype hp,
    fun _ ht _ htype _ hq _ hp => detect_step hd hb ht hq htype hp⟩

/-- A label above the steps and one below them, and a step with a `type:` in its second value. -/
def labelledStepsDeck : String :=
  "\x60\x60\x60action\ntype: sequence\nlabel: demo\nsteps:\n  - type: terminal.run\n" ++
    "    name: x\n    command: \"echo type: x\"\ntitle: demo\n\x60\x60\x60"

theorem exists_labelledSteps :
    ∃ d, Document.create .usual "a" 1 labelledStepsDeck "sequence" = .ok d ∧ ∃ b ∈ d.blocks,
      namedType b.actionType = some "sequence" ∧
      (∃ q ∈ b.parameters, q.key = "label" ∧ q.valueRange.holds ⟨2, 8⟩ = true) ∧
      ((d.line 2).head? ≠ some '-' ∧ ∀ t ∈ b.steps, t.range.holds ⟨2, 8⟩ = false) ∧
      ∃ t ∈ b.steps, namedType t.actionType = some "terminal.run" ∧
        (∃ q ∈ t.parameters, q.key = "name" ∧ q.valueRange.holds ⟨5, 10⟩ = true) ∧
        (d.line 5).stepTypeStart? = none ∧
        (∃ q ∈ t.parameters, q.key = "command" ∧ q.valueRange.holds ⟨6, 16⟩ = true) ∧
        detect "sequence" d ⟨6, 16⟩ = .step b t (.typeValue "x\"" (Range.onLine 6 25 27)) := by
  obtain ⟨d, hd, hcheck⟩ := exists_eq_ok_of_any
    (x := Document.create .usual "a" 1 labelledStepsDeck "sequence")
    (p := fun d => decide (∃ b ∈ d.blocks, namedType b.actionType = some "sequence" ∧
      (∃ q ∈ b.parameters, q.key = "label" ∧ q.valueRange.holds ⟨2, 8⟩ = true) ∧
      ((d.line 2).head? ≠ some '-' ∧ ∀ t ∈ b.steps, t.range.holds ⟨2, 8⟩ = false) ∧
      ∃ t ∈ b.steps, namedType t.actionType = some "terminal.run" ∧
        (∃ q ∈ t.parameters, q.key = "name" ∧ q.valueRange.holds ⟨5, 10⟩ = true) ∧
        (d.line 5).stepTypeStart? = none ∧
        (∃ q ∈ t.parameters, q.key = "command" ∧ q.valueRange.holds ⟨6, 16⟩ = true) ∧
        detect "sequence" d ⟨6, 16⟩ = .step b t (.typeValue "x\"" (Range.onLine 6 25 27))))
    (by decide +kernel)
  exact ⟨d, hd, of_decide_eq_true hcheck⟩

theorem detect_agrees_labelledSteps :
    ∃ d, Document.create .usual "a" 1 labelledStepsDeck "sequence" = .ok d ∧ ∃ b ∈ d.blocks,
      (∃ aim, detect "sequence" d ⟨2, 8⟩ = .block b aim ∧
        ∃ q ∈ b.parameters, q.key = "label" ∧ IsValueOf "sequence" q aim) ∧
      ∃ t ∈ b.steps, ∃ aim, detect "sequence" d ⟨5, 10⟩ = .step b t aim ∧
        ∃ q ∈ t.parameters, q.key = "name" ∧ IsValueOf "terminal.run" q aim := by
  obtain ⟨d, hd, b, hb, htype, ⟨q, hq, hkey, hp⟩, hline, t, ht, htype', ⟨q', hq', hkey', hp'⟩, hline',
    -⟩ := exists_labelledSteps
  obtain ⟨hblock, hstep⟩ := detect_agrees hd hb
  obtain ⟨aim, haim, hvalue⟩ :=
    (hblock _ htype q hq (by rw [hkey]; decide) ⟨2, 8⟩ hp).mpr hline
  obtain ⟨aim', haim', hvalue'⟩ := (hstep t ht _ htype' q' hq' ⟨5, 10⟩ hp').mpr hline'
  exact ⟨d, hd, b, hb, ⟨aim, haim, q, hq, hkey, hvalue⟩, t, ht, aim', haim', q', hq', hkey', hvalue'⟩

/-- In the value of the step's second parameter, a type seems to be written. -/
theorem not_agrees_labelledSteps :
    ∃ d, Document.create .usual "a" 1 labelledStepsDeck "sequence" = .ok d ∧ ∃ b ∈ d.blocks,
      ∃ t ∈ b.steps, namedType t.actionType = some "terminal.run" ∧
        ∃ q ∈ t.parameters, q.key = "command" ∧ q.valueRange.holds ⟨6, 16⟩ = true ∧
        detect "sequence" d ⟨6, 16⟩ = .step b t (.typeValue "x\"" (Range.onLine 6 25 27)) := by
  obtain ⟨d, hd, b, hb, -, -, -, t, ht, htype, -, -, ⟨q, hq, hkey, hp⟩, hdetect⟩ :=
    exists_labelledSteps
  exact ⟨d, hd, b, hb, t, ht, htype, q, hq, hkey, hp, hdetect⟩

end Context
end TalkDeck
