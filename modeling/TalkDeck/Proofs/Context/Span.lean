import Mathlib.Data.List.DropRight
import TalkDeck.Proofs.Deck.Aligned
import TalkDeck.Proofs.Session.Features

/-
The range of a value that is being written, and the text that is reported of it.

A value is read from after its colon and reported without the blanks at its ends; its range covers that
text (`Aim.Shows`).  Only the type of a step is looked for twice: it is read after the first `type:`
with a blank before it, and its range begins after the first `type:` of all.  The two are the same
unless an earlier word of the line ends in `type` (`Line.TypeFirst`); the theorem this file exists for
is `Context.detect_shows`.
-/

namespace TalkDeck

open Text

/-! ## Texts of ranges -/

/-- A trimmed text opens the text from its first character on that is not blank. -/
theorem take_length_trim {cs : List Char} (h : trimLeft cs = cs) :
    cs.take (trim cs).length = trim cs := by
  rw [trim, h]
  exact (List.prefix_iff_eq_take.mp (trimRight_isPrefix cs)).symm

theorem Line.trimLeft_drop_valueStart (l : Line) (colon : Nat) :
    trimLeft (l.drop (l.valueStart colon)) = l.drop (l.valueStart colon) := by
  rw [Line.drop_valueStart]
  exact List.dropWhile_idempotent _ _

/-- A value without the blanks at its ends stands where it starts. -/
theorem Document.textIn_value (d : Document) (n colon : Nat) :
    let start := (d.line n).valueStart colon
    let typed := trim ((d.line n).drop start)
    d.textIn (Range.onLine n start (start + typed.length)) = typed := by
  intro start typed
  rw [textIn_onLine]
  exact take_length_trim (Line.trimLeft_drop_valueStart _ colon)

/-! ## What is shown -/

/-- The range of a value covers the text that is reported of it. -/
def Aim.Shows (d : Document) : Aim → Prop
  | .typeValue typed replace => typed ≠ "" → d.textIn replace = typed.toList
  | .paramName _ _ _ => True
  | .paramValue _ _ typed replace => d.textIn replace = typed.toList

instance (d : Document) (aim : Aim) : Decidable (aim.Shows d) := by
  cases aim <;> unfold Aim.Shows <;> infer_instance

/-- No word before the first `type:` with a blank before it ends in `type` and a colon. -/
def Line.TypeFirst (l : Line) : Prop := ∀ n ∈ typeAfterBlank? 0 false l, typeIndex? 0 l = some n

instance (l : Line) : Decidable l.TypeFirst := by unfold Line.TypeFirst; infer_instance

namespace Context

variable {seq : String} {d : Document} {p : Position} {aim : Aim}

/-- What is being written, inside a step or outside. -/
def aim? : Context → Option Aim
  | unknown => none
  | block _ aim => some aim
  | step _ _ aim => some aim

def inStep : Context → Bool
  | step _ _ _ => true
  | _ => false

theorem detect_eq_step {b : Block} {t : Step} (h : detect seq d p = .step b t aim) :
    d.blockAt? p = some b ∧ b.steps.find? (·.range.holds p) = some t ∧
      stepAim t (d.line p.line) p = aim := by
  unfold detect at h
  split at h
  · cases h
  · next b' hblock =>
    dsimp only at h
    split at h
    · next t' hstep =>
      cases h
      refine ⟨hblock, ?_, rfl⟩
      split at hstep
      · exact hstep
      · cases hstep
    · cases h

theorem aim?_detect (h : (detect seq d p).aim? = some aim) :
    ((detect seq d p).inStep = false ∧ ∃ b, blockAim b (d.line p.line) p = aim) ∨
      (detect seq d p).inStep = true ∧ ∃ t, stepAim t (d.line p.line) p = aim := by
  cases hdetect : detect seq d p with
  | unknown =>
    rw [hdetect] at h
    cases h
  | block b a =>
    rw [hdetect] at h
    obtain rfl := Option.some.inj h
    refine Or.inl ⟨rfl, b, ?_⟩
    unfold detect at hdetect
    split at hdetect
    · cases hdetect
    · dsimp only at hdetect
      split at hdetect
      · cases hdetect
      · cases hdetect
        rfl
  | step b t a =>
    rw [hdetect] at h
    obtain rfl := Option.some.inj h
    exact Or.inr ⟨rfl, t, (detect_eq_step hdetect).2.2⟩

theorem shows_valueAt? {type : String} {k : Line.KeySpan}
    (h : valueAt? type (d.line p.line) p k = some aim) : aim.Shows d := by
  rw [eq_of_valueAt? h]
  have hvalue := d.textIn_value p.line k.colon
  dsimp only at hvalue
  rw [trim, Line.trimLeft_drop_valueStart] at hvalue
  show d.textIn _ = (String.ofList (trim (k.value (d.line p.line)))).toList
  rw [String.toList_ofList, Line.KeySpan.value, hvalue, trim, Line.trimLeft_drop_valueStart]

theorem shows_fallback (type : Option String) (existing : List String) (l : Line) :
    (fallback type existing l p).Shows d := by
  cases type with
  | none => exact fun hne => absurd rfl hne
  | some t => exact trivial

theorem shows_getD {type : Option String} {key : Option Line.KeySpan} {existing : List String} :
    ((do valueAt? (← type) (d.line p.line) p (← key) : Option Aim).getD
      (fallback type existing (d.line p.line) p)).Shows d := by
  rcases value_or_fallback rfl with hfallback | ⟨t, k, -, hvalue⟩
  · rw [hfallback]
    exact shows_fallback type existing _
  · exact shows_valueAt? hvalue

theorem shows_typeFrom (d : Document) (p : Position) (colon : Nat) :
    (typeFrom (d.line p.line) p ((d.line p.line).valueStart colon)
      ((d.line p.line).valueStart colon)).Shows d := by
  intro _
  rw [String.toList_ofList]
  exact d.textIn_value p.line colon

theorem shows_blockAim (b : Block) : (blockAim b (d.line p.line) p).Shows d := by
  unfold blockAim
  split
  · exact shows_typeFrom d p _
  · exact shows_getD

theorem shows_stepAim (t : Step) (hfirst : (d.line p.line).TypeFirst) :
    (stepAim t (d.line p.line) p).Shows d := by
  unfold stepAim
  split
  · next start hstart =>
    obtain ⟨n, hn, rfl⟩ := Option.map_eq_some_iff.mp hstart
    rw [hfirst n hn]
    exact shows_typeFrom d p _
  · exact shows_getD

/-- Behind an earlier word that ends in `type`, the type is read further to the right. -/
theorem stepAim_of_not_typeFirst (t : Step) (hfirst : ¬ (d.line p.line).TypeFirst) :
    ∃ start typed replace, stepAim t (d.line p.line) p = .typeValue typed replace ∧
      replace.start.character < start ∧
      d.textIn (Range.onLine p.line start (start + typed.length)) = typed.toList := by
  unfold Line.TypeFirst at hfirst
  push Not at hfirst
  obtain ⟨n, hn, hindex⟩ := hfirst
  have hstart : (d.line p.line).stepTypeStart? = some ((d.line p.line).valueStart (n + 4)) := by
    rw [Line.stepTypeStart?, Option.mem_def.mp hn]
    rfl
  unfold stepAim
  rw [hstart]
  refine ⟨_, _, _, rfl, Line.valueStart_typeIndex_lt hn hindex, ?_⟩
  rw [String.length_ofList, String.toList_ofList]
  exact d.textIn_value p.line (n + 4)

/-- **A range covers what is reported of it.**  Outside steps always, and in a step unless another
word of the line ends in `type` before the type of the step: then the type is read from further to the
right than where its range begins. -/
theorem detect_shows (h : (detect seq d p).aim? = some aim) :
    (((detect seq d p).inStep = true → (d.line p.line).TypeFirst) → aim.Shows d) ∧
      ((detect seq d p).inStep = true → ¬ (d.line p.line).TypeFirst →
        ∃ start typed replace, aim = .typeValue typed replace ∧ replace.start.character < start ∧
          d.textIn (Range.onLine p.line start (start + typed.length)) = typed.toList) := by
  rcases aim?_detect h with ⟨hout, b, rfl⟩ | ⟨hin, t, rfl⟩
  · refine ⟨fun _ => shows_blockAim b, fun hin => ?_⟩
    rw [hout] at hin
    cases hin
  · exact ⟨fun hfirst => shows_stepAim t (hfirst hin), fun _ => stepAim_of_not_typeFirst t⟩

/-- The value in the last line ends in a word `type`, and so does its key. -/
def mimeTypeDeck : String :=
  "\x60\x60\x60action\ntype: sequence\nsteps:\n  - type: file.open\n    mime-type: \"a type: b\"\n\x60\x60\x60"

theorem exists_mimeType :
    ∃ d, Document.create .usual "a" 1 mimeTypeDeck "sequence" = .ok d ∧
      (detect "sequence" d ⟨3, 12⟩).aim? = some (.typeValue "file.open" (Range.onLine 3 10 19)) ∧
      d.line 3 = "  - type: file.open".toList ∧
      ∃ aim ∈ (detect "sequence" d ⟨4, 16⟩).aim?, ¬ aim.Shows d := by
  obtain ⟨d, hd, hcheck⟩ := exists_eq_ok_of_any
    (x := Document.create .usual "a" 1 mimeTypeDeck "sequence")
    (p := fun d => decide (
      (detect "sequence" d ⟨3, 12⟩).aim? = some (.typeValue "file.open" (Range.onLine 3 10 19)) ∧
      d.line 3 = "  - type: file.open".toList ∧
      ∃ aim ∈ (detect "sequence" d ⟨4, 16⟩).aim?, ¬ aim.Shows d)) (by decide +kernel)
  exact ⟨d, hd, of_decide_eq_true hcheck⟩

theorem detect_shows_stepType :
    ∃ d, Document.create .usual "a" 1 mimeTypeDeck "sequence" = .ok d ∧
      d.textIn (Range.onLine 3 10 19) = "file.open".toList := by
  obtain ⟨d, hd, haim, hline, -⟩ := exists_mimeType
  have hfirst : (d.line 3).TypeFirst := by
    rw [hline]
    decide +kernel
  exact ⟨d, hd, (detect_shows haim).1 (fun _ => hfirst) (by decide)⟩

/-- In the last line `b"` is reported, and the range covers `"a`. -/
theorem not_shows_mimeType :
    ∃ d, Document.create .usual "a" 1 mimeTypeDeck "sequence" = .ok d ∧
      ∃ aim, (detect "sequence" d ⟨4, 16⟩).aim? = some aim ∧ ¬ aim.Shows d := by
  obtain ⟨d, hd, -, -, aim, haim, hshows⟩ := exists_mimeType
  exact ⟨d, hd, aim, haim, hshows⟩

end Context
end TalkDeck
