import TalkDeck.Proofs.Deck.Carried
import TalkDeck.Proofs.Deck.Sequence

/-
Steps of aligned sequences.

In a deck whose block holds an aligned form, each step is made of the lines of one step of the form
and of the member they stand for (`Carries.exists_stepForm`).  So its type is the text in its type
range (`create_aligned`), and where each field is one line its parameters are its fields
(`mem_parameters_ofForm`).
-/

namespace TalkDeck

open Yaml Layout

/-! ## The step of a form -/

/-- The parameter of a field in column `c` of line `n`. -/
def Yaml.Keyed.stepParameter (f : Keyed Layout) (c n : Nat) (w : Value) : Parameter :=
  Parameter.ofSpan ⟨c, c + f.key.length, c + f.key.length⟩ w n (f.head c)

theorem Yaml.Keyed.key_stepParameter (f : Keyed Layout) (c n : Nat) (w : Value) :
    (f.stepParameter c n w).key = String.ofList f.key := by
  show String.ofList (((f.head c).drop c).take (c + f.key.length - c)) = _
  rw [Keyed.head, List.drop_left' (length_blanks c), Nat.add_sub_cancel_left, List.take_left]

namespace Step

variable {m : StepForm} {c n i : Nat} {extra : List Line} {w : Value}

/-- The step that is read from the lines of a form, the first of which has number `n`, and from a
member of `steps`. -/
def ofForm (i : Nat) (m : StepForm) (c n : Nat) (extra : List Line) (w : Value) : Step :=
  ofLines i ((m.lines c ++ extra).zipIdx n) (some w)

theorem ofForm_eq (hw : w.Holds (.fields m.fields)) :
    ofForm i m c n extra w =
      { index := i
        range := ⟨⟨n, 0⟩, ⟨n + ((m.lines c ++ extra).length - 1),
          ((m.lines c ++ extra).getLast?.getD []).length⟩⟩
        actionType := (w.get? "type").bind (·.str?)
        typeRange := typeRange? ((m.lines c ++ extra).zipIdx n)
        parameters := ((m.lines c ++ extra).zipIdx n).filterMap fun p => parameter? w p.2 p.1 } := by
  have hne : (m.lines c ++ extra).zipIdx n ≠ [] := by
    rw [Ne, List.zipIdx_eq_nil_iff, StepForm.lines]
    exact List.cons_ne_nil _ _
  have hmember : (some w).filter (·.isMap) = some w := by rw [Option.filter_some, if_pos hw.isMap]
  have hextent := extent_zipIdx (m.lines c ++ extra) n hne
  rw [extent] at hextent
  rw [ofForm, ofLines_eq i hne, hmember, hextent]
  rfl

theorem actionType_ofForm (hw : w.Holds (.fields m.fields)) :
    (ofForm i m c n extra w).actionType = (Layout.scalar m.type).str? := by
  have hfind : m.fields.find? (·.key == "type".toList) =
      some ⟨"type".toList, m.typeGap, .scalar m.type⟩ := List.find?_cons_of_pos (by simp)
  rw [ofForm_eq hw]
  show (w.get? "type").bind (·.str?) = _
  rw [hw.str_get?, hfind]
  rfl

theorem typeRange_ofForm (hw : w.Holds (.fields m.fields)) (hgap : 0 < m.gap)
    (htype : isText m.type = true) :
    (ofForm i m c n extra w).typeRange =
      some (Range.onLine n (m.lead c).length ((m.lead c).length + m.type.length)) := by
  obtain ⟨hstart, hstop⟩ := Line.stepTypeStart?_lead c hgap htype
  rw [ofForm_eq hw]
  show typeRange? ((m.lines c ++ extra).zipIdx n) = _
  rw [StepForm.lines, List.cons_append, List.zipIdx_cons, typeRange?,
    List.findSome?_cons_of_isSome]
  all_goals simp only [hstart, Option.map_some, hstop, Option.isSome_some]

/-- A step with a type has it for the text of its form. -/
theorem isText_of_actionType {a : String} (hw : w.Holds (.fields m.fields))
    (hwell : (Layout.scalar m.type).wellFormed = true)
    (ha : (ofForm i m c n extra w).actionType = some a) :
    m.type = a.toList ∧ isText m.type = true := by
  rw [actionType_ofForm hw] at ha
  refine ⟨Layout.scalar.inj (str?_eq_some ha), ?_⟩
  refine (wellFormed_scalar_iff.mp hwell).resolve_left fun hnil => ?_
  rw [hnil] at ha
  cases ha

/-! ## The parameters of a step -/

theorem parameter?_head {f : Keyed Layout} (h : isKey f.key = true) (hne : f.key ≠ "type".toList)
    (hc : 2 ≤ c) (w : Value) (n : Nat) :
    parameter? w n (f.head c) =
      if f.key.all Text.isWord then (w.get? (String.ofList f.key)).map (f.stepParameter c n)
      else none := by
  rw [parameter?, Line.stepKey?_head h hc]
  split
  · have hkey := f.key_stepParameter c n w
    change Line.KeySpan.key _ _ = _ at hkey
    have htype : String.ofList f.key ≠ "type" := by
      intro heq
      exact hne (by rw [← heq, String.toList_ofList])
    simp only [Option.bind_eq_bind, Option.bind_some, hkey, if_neg htype]
    cases hget : w.get? (String.ofList f.key) with
    | none => rfl
    | some w' =>
      simp only [Option.bind_some, Option.map_some, Keyed.stepParameter, Parameter.ofSpan, hkey]
      rfl
  · rfl

theorem parameter?_eq_none {l : Line} (h : l.stepKey? = none) (w : Value) (n : Nat) :
    parameter? w n l = none := by
  rw [parameter?, h]
  rfl

/-- Where the fields are one line each, only their lines can give parameters. -/
theorem parameters_ofForm (hw : w.Holds (.fields m.fields)) (hflat : ∀ f ∈ m.rest, f.isFlat = true)
    (hextra : ∀ l ∈ extra, l.stepKey? = none) :
    (ofForm i m c n extra w).parameters =
      (m.rest.zipIdx (n + 1)).filterMap fun q => parameter? w q.2 (q.1.head (m.column c)) := by
  have hlead : parameter? w n (m.lead c ++ m.type) = none :=
    parameter?_eq_none (Line.stepKey?_lead c m m.type) w n
  have hbelow : ∀ k, (extra.zipIdx k).filterMap (fun q => parameter? w q.2 q.1) = [] := fun k =>
    List.filterMap_eq_nil_iff.mpr fun q hq =>
      parameter?_eq_none (hextra q.1 (List.fst_mem_of_mem_zipIdx hq)) w q.2
  rw [ofForm_eq hw]
  show ((m.lines c ++ extra).zipIdx n).filterMap (fun q => parameter? w q.2 q.1) = _
  rw [StepForm.lines, fieldLines_of_isFlat hflat, List.cons_append, List.zipIdx_cons,
    List.filterMap_cons, hlead, List.zipIdx_append, List.filterMap_append, hbelow, List.append_nil,
    List.zipIdx_map, List.filterMap_map]
  rfl

theorem mem_zipIdx_iff_append {α : Type} {xs : List α} {q : α × Nat} :
    q ∈ xs.zipIdx n ↔ ∃ xs₁ xs₂, xs = xs₁ ++ q.1 :: xs₂ ∧ q.2 = n + xs₁.length := by
  rw [List.mem_zipIdx_iff_le_and_getElem?_sub]
  constructor
  · rintro ⟨hle, hget⟩
    obtain ⟨hlt, hq⟩ := List.getElem?_eq_some_iff.mp hget
    refine ⟨xs.take (q.2 - n), xs.drop (q.2 - n + 1), ?_, ?_⟩
    · rw [← hq, List.getElem_cons_drop hlt, List.take_append_drop]
    · rw [List.length_take_of_le (Nat.le_of_lt hlt), Nat.add_sub_cancel' hle]
  · rintro ⟨xs₁, xs₂, rfl, hq⟩
    rw [hq, Nat.add_sub_cancel_left, List.getElem?_append_right (Nat.le_refl _), Nat.sub_self]
    exact ⟨Nat.le_add_right _ _, rfl⟩

/-- The parameters of a step whose fields are one line each: those fields whose keys are words. -/
theorem mem_parameters_ofForm (hw : w.Holds (.fields m.fields)) (hc : 0 < c) (hgap : 0 < m.gap)
    (hfields : ∀ f ∈ m.fields, f.WellFormed) (hnodup : (m.fields.map (·.key)).Nodup)
    (hflat : ∀ f ∈ m.rest, f.isFlat = true) (hextra : ∀ l ∈ extra, l.stepKey? = none)
    {p : Parameter} :
    p ∈ (ofForm i m c n extra w).parameters ↔
      ∃ fs₁ f fs₂ w', m.rest = fs₁ ++ f :: fs₂ ∧ f.key.all Text.isWord = true ∧
        w.get? (String.ofList f.key) = some w' ∧
        p = f.stepParameter (m.column c) (n + 1 + fs₁.length) w' := by
  have hcolumn : 2 ≤ m.column c := by
    rw [StepForm.column]
    omega
  have hfield : ∀ f ∈ m.rest, ∀ k, parameter? w k (f.head (m.column c)) =
      if f.key.all Text.isWord then (w.get? (String.ofList f.key)).map (f.stepParameter (m.column c) k)
      else none := by
    intro f hf k
    refine parameter?_head (hfields f (List.mem_cons_of_mem _ hf)).2.1 (fun hkey => ?_) hcolumn w k
    refine (List.nodup_cons.mp hnodup).1 ?_
    show "type".toList ∈ _
    rw [← hkey]
    exact List.mem_map_of_mem hf
  rw [parameters_ofForm hw hflat hextra, List.mem_filterMap]
  constructor
  · rintro ⟨⟨f, k⟩, hmem, hp⟩
    obtain ⟨fs₁, fs₂, hrest, rfl⟩ := mem_zipIdx_iff_append.mp hmem
    rw [hfield f (by rw [hrest]; simp)] at hp
    split at hp
    case isTrue hword =>
      obtain ⟨w', hw', rfl⟩ := Option.map_eq_some_iff.mp hp
      exact ⟨fs₁, f, fs₂, w', hrest, hword, hw', rfl⟩
    case isFalse => cases hp
  · rintro ⟨fs₁, f, fs₂, w', hrest, hword, hget, rfl⟩
    refine ⟨(f, n + 1 + fs₁.length), mem_zipIdx_iff_append.mpr ⟨fs₁, fs₂, hrest, rfl⟩, ?_⟩
    rw [hfield f (by rw [hrest]; simp), if_pos hword, hget]
    rfl

end Step

namespace Document

variable {limits : Limits} {uri content seq : String} {version : Int} {d : Document} {b : Block}
  {q : SequenceForm} {first : Nat} {before after : List Line} {v : Value}

/-- Each step of a block that holds an aligned form is made of the lines of one step of the form. -/
theorem Carries.exists_stepForm (h : d.Carries limits seq b q.fields first before after v)
    (haligned : q.Aligned) {i : Nat} {t : Step} (ht : b.steps[i]? = some t) :
    ∃ ms₁ m ms₂ w, q.steps = ms₁ ++ m :: ms₂ ∧ ms₁.length = i ∧ w.Holds (.fields m.fields) ∧
      b.stepValue? i = some w ∧
      t = Step.ofForm i m q.gap (first + 1 + (q.above ms₁).length) (q.belowLast ms₂) w := by
  obtain ⟨htype, ms₁, m, ms₂, hsteps, rfl⟩ := h.lays.exists_form h.readable ht
  obtain ⟨w, hw, hvalue, hstep⟩ := h.lays.exists_step h.readable haligned htype hsteps
  rw [hstep] at ht
  exact ⟨ms₁, m, ms₂, w, hsteps, rfl, hw, hvalue, (Option.some.inj ht).symm⟩

/-- In a deck with an aligned sequence the type of a step is the text in its type range, and it is
the type of the member of `steps` with the same index. -/
theorem create_aligned (hd : create limits uri version content seq = .ok d) (hb : b ∈ d.blocks)
    (hread : Readable limits q.fields) (htext : b.text = text q.fields) (haligned : q.Aligned) {i : Nat}
    {t : Step} (ht : b.steps[i]? = some t) {a : String} (ha : t.actionType = some a) :
    (∃ r, t.typeRange = some r ∧ d.textIn r = a.toList) ∧
      ((b.stepValue? i).bind (·.get? "type")).bind (·.str?) = some a := by
  obtain ⟨first, before, after, v, hcarries⟩ := exists_carries hd hb hread htext
  obtain ⟨ms₁, m, ms₂, w, hsteps, rfl, hw, hvalue, rfl⟩ := hcarries.exists_stepForm haligned ht
  have hm := SequenceForm.mem_steps hsteps
  have hwell := (hread.stepField hm _ List.mem_cons_self).2.2
  obtain ⟨hname, hisText⟩ := Step.isText_of_actionType hw hwell ha
  refine ⟨⟨_, Step.typeRange_ofForm hw (hread.step hm).1 hisText, ?_⟩, ?_⟩
  · have hline := hcarries.getElem?_lines (fieldLines_form hsteps)
    show (((d.lines[first + 1 + (q.above ms₁).length]?).getD []).take _).drop _ = a.toList
    rw [hline, ← hname]
    simp only [Range.onLine, Option.getD_some]
    rw [← List.length_append, List.take_length, List.drop_left]
  · rw [hvalue]
    rw [Step.ofForm_eq hw] at ha
    exact ha

/-- Two steps, each with one other field. -/
def twoSteps : SequenceForm where
  before := [⟨"type".toList, 1, .scalar "sequence".toList⟩]
  gap := 2
  steps := [⟨1, 1, "file.open".toList, [⟨"note".toList, 1, .scalar "x".toList⟩]⟩,
    ⟨1, 1, "file.opn".toList, [⟨"path".toList, 1, .scalar "x".toList⟩]⟩]
  after := []

def twoStepsDeck : String :=
  "\x60\x60\x60action\ntype: sequence\nsteps:\n  - type: file.open\n    note: x\n" ++
    "  - type: file.opn\n    path: x\n\x60\x60\x60"

theorem readable_twoSteps : Readable .usual twoSteps.fields := ⟨by decide +kernel, by decide +kernel⟩

theorem aligned_twoSteps : twoSteps.Aligned :=
  readable_twoSteps.aligned (by decide) (by decide) (by decide)

theorem create_aligned_twoSteps :
    ∃ d, create .usual "a" 1 twoStepsDeck "sequence" = .ok d ∧ ∃ b ∈ d.blocks, ∃ t,
      b.steps[1]? = some t ∧ (∃ r, t.typeRange = some r ∧ d.textIn r = "file.opn".toList) ∧
      ((b.stepValue? 1).bind (·.get? "type")).bind (·.str?) = some "file.opn" := by
  obtain ⟨d, hd, hcheck⟩ := exists_eq_ok_of_any (x := create .usual "a" 1 twoStepsDeck "sequence")
    (p := fun d => decide (∃ b ∈ d.blocks, b.text = text twoSteps.fields ∧
      ∃ t ∈ (b.steps[1]? : Option Step), t.actionType = some "file.opn")) (by decide +kernel)
  obtain ⟨b, hb, htext, t, ht, htype⟩ := of_decide_eq_true hcheck
  exact ⟨d, hd, b, hb, t, ht,
    create_aligned hd hb readable_twoSteps htext aligned_twoSteps ht htype⟩

/-- The first step does not open with its type, so the type of the second is found in its place. -/
def labelFirstDeck : String :=
  "\x60\x60\x60action\ntype: sequence\nsteps:\n" ++
    "  - label: first\n    type: file.open\n    path: a.py\n  - type: terminal.run\n    command: ls\n\x60\x60\x60"

theorem not_aligned_labelFirst :
    ∃ d, create .usual "a" 1 labelFirstDeck "sequence" = .ok d ∧ ∃ b ∈ d.blocks,
      ∃ t, b.steps[0]? = some t ∧ t.actionType = some "file.open" ∧
      ∃ r, t.typeRange = some r ∧ d.textIn r = "terminal.run".toList := by
  obtain ⟨d, hd, hcheck⟩ := exists_eq_ok_of_any (x := create .usual "a" 1 labelFirstDeck "sequence")
    (p := fun d => decide (∃ b ∈ d.blocks, ∃ t ∈ (b.steps[0]? : Option Step),
      t.actionType = some "file.open" ∧ ∃ r ∈ t.typeRange, d.textIn r = "terminal.run".toList))
    (by decide +kernel)
  obtain ⟨b, hb, t, ht, htype, r, hr, htext⟩ := of_decide_eq_true hcheck
  exact ⟨d, hd, b, hb, t, ht, htype, r, hr, htext⟩

end Document
end TalkDeck
