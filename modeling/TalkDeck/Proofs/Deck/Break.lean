import TalkDeck.Edit
import TalkDeck.Proofs.Deck.Sequence

/-
A key at the left edge among the steps of a sequence.

A line that holds a key and no value is no line of a step.  Among the steps, or in the last of them, it
ends the steps, and what stands below it becomes its value; below all the steps it is one field more
(`SequenceForm.Breaks`).  In each case the text stays one that is read, the new key is one of the block,
and no step has a field more (`Breaks.exists_step`).  So a deck in which such a line takes the place of a
blank one is read with the key at the top of the block (`Document.misplaces_of_breaks`).
-/

namespace TalkDeck

open Yaml Layout

namespace Yaml.Layout

variable {limits : Limits} {q q' : SequenceForm} {k : List Char} {above below : List Line}

/-- The lines of a sequence above and below a key at the left edge, and the sequence with it.  Where
steps or fields of the last step stand below the key, they become its value. -/
inductive SequenceForm.Breaks (q : SequenceForm) (k : List Char) :
    List Line → List Line → SequenceForm → Prop where
  | after {fs gs : List (Keyed Layout)} (hafter : q.after = fs ++ gs) :
    Breaks q k (q.above q.steps ++ fieldLines 0 fs) (fieldLines 0 gs)
      { q with after := fs ++ ⟨k, 0, .scalar []⟩ :: gs }
  | steps {ms ns : List StepForm} (hsteps : q.steps = ms ++ ns) (hms : ms ≠ []) (hns : ns ≠ []) :
    Breaks q k (q.above ms) (ns.flatMap (·.lines q.gap) ++ fieldLines 0 q.after)
      { q with steps := ms, after := ⟨k, q.gap, .items (ns.map (·.item))⟩ :: q.after }
  | inside {ms : List StepForm} {m : StepForm} {fs gs : List (Keyed Layout)}
    (hsteps : q.steps = ms ++ [m]) (hrest : m.rest = fs ++ gs) (hgs : gs ≠ []) :
    Breaks q k (q.above ms ++ { m with rest := fs }.lines q.gap)
      (fieldLines (m.column q.gap) gs ++ fieldLines 0 q.after)
      { q with
        steps := ms ++ [{ m with rest := fs }]
        after := ⟨k, m.column q.gap, .fields gs⟩ :: q.after }

theorem StepForm.lines_append {m : StepForm} {fs gs : List (Keyed Layout)} (h : m.rest = fs ++ gs)
    (c : Nat) : m.lines c = { m with rest := fs }.lines c ++ fieldLines (m.column c) gs := by
  rw [lines, h, fieldLines_append]
  rfl

/-- The fields of a sequence, up to those after its steps. -/
theorem SequenceForm.fields_eq (q : SequenceForm) :
    q.fields = (q.before ++ [q.stepsField]) ++ q.after := by
  rw [fields, List.append_assoc]
  rfl

theorem Readable.withSteps_of_subset (h : Readable limits q.fields) {ms : List StepForm} (hne : ms ≠ [])
    (hms : ms ⊆ q.steps) : Readable limits { q with steps := ms }.fields :=
  h.withSteps hne fun m hm => ⟨(h.step (hms hm)).1, (h.step (hms hm)).2, m, hms hm, Nat.le_refl _⟩

theorem Readable.cons_after (h : Readable limits q.fields) {f : Keyed Layout} (hf : f.WellFormed)
    (hdepth : f.value.depth < limits.nesting) (hkey : f.key ∉ q.fields.map (·.key)) :
    Readable limits { q with after := f :: q.after }.fields := by
  rw [SequenceForm.fields_eq] at h hkey ⊢
  exact h.insert hf hdepth hkey

namespace SequenceForm.Breaks

theorem lines_eq (h : q.Breaks k above below q') : fieldLines 0 q.fields = above ++ below := by
  cases h with
  | after hafter => rw [fieldLines_steps, hafter, fieldLines_append, List.append_assoc]
  | steps hsteps => rw [fieldLines_steps, hsteps, q.above_append, List.append_assoc]
  | inside hsteps hrest =>
    rw [fieldLines_steps, hsteps, q.above_append, List.flatMap_singleton,
      StepForm.lines_append hrest]
    simp only [List.append_assoc]

theorem lines_eq' (h : q.Breaks k above below q') :
    fieldLines 0 q'.fields = above ++ (k ++ [':']) :: below := by
  rw [fieldLines_steps]
  cases h with
  | @after fs gs hafter =>
    show q.above q.steps ++ fieldLines 0 (fs ++ ⟨k, 0, .scalar []⟩ :: gs) = _
    rw [fieldLines_append, fieldLines_cons_of_isFlat rfl, List.append_assoc]
    rfl
  | @steps ms ns hsteps =>
    show q.above ms ++ fieldLines 0 (⟨k, q.gap, .items (ns.map (·.item))⟩ :: q.after) = _
    rw [fieldLines_cons, ← itemLines_steps]
    simp only [Keyed.head, Keyed.tail, Keyed.below, Layout.lines, Nat.zero_add]
    rfl
  | @inside ms m fs gs hsteps =>
    show q.above (ms ++ [{ m with rest := fs }]) ++
      fieldLines 0 (⟨k, m.column q.gap, .fields gs⟩ :: q.after) = _
    rw [fieldLines_cons, q.above_append, List.flatMap_singleton]
    simp only [Keyed.head, Keyed.tail, Keyed.below, Layout.lines, Nat.zero_add]
    rfl

/-- The new key is one more, and the other keys are as they were. -/
theorem mem_keys (h : q.Breaks k above below q') (key : List Char) :
    key ∈ q'.fields.map (·.key) ↔ key = k ∨ key ∈ q.fields.map (·.key) := by
  cases h with
  | after hafter =>
    simp only [SequenceForm.fields, SequenceForm.stepsField, hafter, List.map_append, List.map_cons,
      List.mem_append, List.mem_cons]
    grind
  | steps =>
    simp only [SequenceForm.fields, SequenceForm.stepsField, List.map_append, List.map_cons,
      List.mem_append, List.mem_cons]
    grind
  | inside =>
    simp only [SequenceForm.fields, SequenceForm.stepsField, List.map_append, List.map_cons,
      List.mem_append, List.mem_cons]
    grind

/-- A step of the broken sequence is the step with its index, or a beginning of it. -/
theorem exists_step (h : q.Breaks k above below q') {i : Nat} {m' : StepForm}
    (hm' : q'.steps[i]? = some m') : ∃ m, q.steps[i]? = some m ∧ m'.fields.Sublist m.fields := by
  cases h with
  | after => exact ⟨m', hm', List.Sublist.refl _⟩
  | @steps ms ns hsteps =>
    refine ⟨m', ?_, List.Sublist.refl _⟩
    have hi : i < ms.length := (List.getElem?_eq_some_iff.mp hm').1
    rw [hsteps, List.getElem?_append_left hi]
    exact hm'
  | @inside ms m fs gs hsteps hrest =>
    change (ms ++ [_])[i]? = some m' at hm'
    rw [hsteps]
    rcases Nat.lt_or_ge i ms.length with hi | hi
    · rw [List.getElem?_append_left hi] at hm' ⊢
      exact ⟨m', hm', List.Sublist.refl _⟩
    · rw [List.getElem?_append_right hi] at hm' ⊢
      obtain ⟨hlt, rfl⟩ := List.getElem?_eq_some_iff.mp hm'
      have hzero : i - ms.length = 0 := Nat.lt_one_iff.mp hlt
      refine ⟨m, by rw [hzero]; rfl, ?_⟩
      simp only [hzero, List.getElem_cons_zero, StepForm.fields, hrest]
      exact (List.sublist_append_left fs gs).cons_cons _

/-- The broken sequence can be read. -/
theorem readable (h : q.Breaks k above below q') (hread : Readable limits q.fields)
    (hk : isKey k = true) (hnew : k ∉ q.fields.map (·.key)) : Readable limits q'.fields := by
  cases h with
  | @after fs gs hafter =>
    have hfields : q.fields = ((q.before ++ [q.stepsField]) ++ fs) ++ gs := by
      rw [q.fields_eq, hafter, List.append_assoc _ fs]
    rw [hfields] at hread hnew
    have hdepth : (Layout.scalar []).depth < limits.nesting := by
      rw [depth]
      exact Nat.zero_lt_of_lt hread.depth_lt
    have hinsert := hread.insert (f := ⟨k, 0, .scalar []⟩) ⟨Or.inr rfl, hk, by rw [wellFormed]; rfl⟩
      hdepth hnew
    rw [SequenceForm.fields_eq, ← List.append_assoc]
    exact hinsert
  | @steps ms ns hsteps hms hns =>
    have hread₁ := hread.withSteps_of_subset hms (by rw [hsteps]; exact List.subset_append_left ms ns)
    have hread₂ := hread.withSteps_of_subset hns (by rw [hsteps]; exact List.subset_append_right ms ns)
    obtain ⟨hspaced, -, hwell⟩ := hread₂.stepsField
    have hdepth := ((readable_iff.mp hread₂).2.2 _ (List.mem_append_right _ List.mem_cons_self)).2
    exact hread₁.cons_after ⟨hspaced, hk, hwell⟩ hdepth (by
      simpa [SequenceForm.fields, SequenceForm.stepsField] using hnew)
  | @inside ms m fs gs hsteps hrest hgs =>
    have hm : m ∈ q.steps := SequenceForm.mem_steps hsteps
    have hread₁ : Readable limits { q with steps := ms ++ [{ m with rest := fs }] }.fields :=
      hread.withRest hsteps (hrest ▸ List.sublist_append_left fs gs)
    have hsub : gs.Sublist m.fields :=
      (hrest ▸ List.sublist_append_right fs gs : gs.Sublist m.rest).cons _
    have hwell := wellFormed_of_sublist (hread.step hm).2 hsub hgs
    have hcolumn : 0 < m.column q.gap := by
      rw [StepForm.column]
      omega
    exact hread₁.cons_after ⟨Or.inl hcolumn, hk, hwell⟩ (hread.depth_fields hm hsub.subset) (by
      simpa [SequenceForm.fields, SequenceForm.stepsField] using hnew)

end SequenceForm.Breaks
end Yaml.Layout

/-- The value of a step is that of the step of the form with its index, if there is one. -/
theorem Block.stepValue?_rel {limits : Limits} {b : Block} {v : Value} {q : SequenceForm}
    (hv : b.value? = some v) (hholds : v.Holds (.fields q.fields))
    (hread : Readable limits q.fields) (i : Nat) :
    Option.Rel (fun (m : StepForm) (w : Value) => w.Holds (.fields m.fields)) q.steps[i]?
      (b.stepValue? i) := by
  obtain ⟨members, hmembers, hall⟩ := hholds.exists_members hread
  have hvalue : b.stepValue? i = (members[i]?).join := by
    rw [stepValue?, hv, Option.bind_some, hmembers, Option.bind_some]
  rw [hvalue]
  clear hmembers hvalue hholds hread
  generalize q.steps = ms at hall
  induction hall generalizing i with
  | nil => exact .none
  | cons hm _ ih =>
    obtain ⟨w, rfl, hw⟩ := hm
    cases i with
    | zero => exact .some hw
    | succ i => exact ih i

/-- The values of the steps have no keys that they did not have. -/
theorem Yaml.Layout.SequenceForm.Breaks.exists_stepValue? {limits : Limits} {q q' : SequenceForm}
    {key : List Char} {above below : List Line} (h : q.Breaks key above below q') {b b' : Block}
    {v v' : Value} (hv : b.value? = some v) (hv' : b'.value? = some v')
    (hholds : v.Holds (.fields q.fields)) (hholds' : v'.Holds (.fields q'.fields))
    (hread : Readable limits q.fields) (hread' : Readable limits q'.fields) {i : Nat} {w' : Value}
    (hw' : b'.stepValue? i = some w') :
    ∃ w, b.stepValue? i = some w ∧ ∀ k, w'.has k = true → w.has k = true := by
  have hrel' := Block.stepValue?_rel hv' hholds' hread' i
  rw [hw'] at hrel'
  generalize hm' : q'.steps[i]? = o at hrel'
  cases hrel' with
  | @some m' _ hwm' =>
    obtain ⟨m, hm, hsub⟩ := h.exists_step hm'
    have hrel := Block.stepValue?_rel hv hholds hread i
    rw [hm] at hrel
    generalize b.stepValue? i = o at hrel ⊢
    cases hrel with
    | @some _ w hwm =>
      refine ⟨w, rfl, fun k hhas => ?_⟩
      rw [hwm'.has_iff] at hhas
      rw [hwm.has_iff]
      exact (hsub.map _).subset hhas

/-- The deck after an edit is read, and where `b` opened it has a block without an error whose mapping
has a new key, and no step of which has a key that it did not have. -/
def Document.Misplaces (limits : Limits) (d : Document) (seq : String) (e : Edit) (b : Block)
    (key : String) : Prop :=
  ∃ d', Document.create limits d.uri d.version
      (String.ofList (e.apply d.content.toList)) seq = .ok d' ∧
    ∃ b' ∈ d'.blocks, b'.range.start = b.range.start ∧ b'.error? = none ∧
      ∃ v v', b.value? = some v ∧ b'.value? = some v' ∧ v.has key = false ∧
        (∀ k, v'.has k = true ↔ k = key ∨ v.has k = true) ∧
        ∀ i w', b'.stepValue? i = some w' → ∃ w, b.stepValue? i = some w ∧
          ∀ k, w'.has k = true → w.has k = true

namespace Document

variable {limits : Limits} {uri content seq : String} {version : Int} {d : Document} {b : Block}
  {q q' : SequenceForm} {key : String} {above below xs ys : List Line} {n : Nat} {e : Edit}

theorem set_among {before after ls : List Line} {old : Line}
    (h : ls = before ++ ((xs ++ old :: ys) ++ after)) (new : Line) :
    ls.set (before.length + xs.length) new = before ++ ((xs ++ new :: ys) ++ after) := by
  have hsplit : ls = (before ++ xs) ++ old :: (ys ++ after) := by
    rw [h]
    simp
  rw [hsplit, ← List.length_append, List.set_append_right _ _ (Nat.le_refl _), Nat.sub_self]
  simp

/-- A key at the left edge, in the place of a line of blanks in a sequence, is a key of the block and of
no step. -/
theorem misplaces_of_breaks (hd : create limits uri version content seq = .ok d) (hb : b ∈ d.blocks)
    (hread : Readable limits q.fields) (hk : isKey key.toList = true)
    (hnew : key.toList ∉ q.fields.map (·.key)) (hbreaks : q.Breaks key.toList above below q')
    (habove : Spread above xs) (hbelow : Spread below ys)
    (htext : b.text = Text.unlines (xs ++ blanks n :: ys))
    (happly : e.apply d.content.toList = Text.unlines
      (d.lines.set (b.range.start.line + 1 + xs.length) (key.toList ++ [':', ' ']))) :
    d.Misplaces limits seq e b key := by
  have hspread : Spread (fieldLines 0 q.fields) (xs ++ blanks n :: ys) := by
    rw [hbreaks.lines_eq]
    exact habove.append (.blank n hbelow)
  have hspread' : Spread (fieldLines 0 q'.fields) (xs ++ (key.toList ++ [':', ' ']) :: ys) := by
    have hline := hbelow.line (key.toList ++ [':']) 1
    rw [List.append_assoc] at hline
    rw [hbreaks.lines_eq']
    exact habove.append hline
  obtain ⟨r, before, after, v, rfl, -, hholds, hlength, hlines, hreplace⟩ :=
    exists_spread hd hb hread hspread htext
  obtain ⟨d', r', v', hd', hfirst, -, hholds', hb'⟩ :=
    hreplace _ _ (hbreaks.readable hread hk hnew) hspread'
  -- The line of blanks is the one that the edit changes.
  have hset := set_among hlines (key.toList ++ [':', ' '])
  rw [hlength] at hset
  have hread' := hbreaks.readable hread hk hnew
  obtain ⟨rfl, rfl, rfl, -⟩ := create_eq_ok_iff.mp hd
  refine ⟨d', ?_, _, hb', ?_, rfl, v, v', rfl, rfl, ?_, fun k => ?_, fun i w' hw' =>
    hbreaks.exists_stepValue? rfl rfl hholds hholds' hread hread' hw'⟩
  · rw [happly]
    change create limits d.uri d.version (String.ofList (Text.unlines
      (d.lines.set (r.first + 1 + xs.length) _))) seq = .ok d'
    rw [hset]
    exact hd'
  · show Position.mk r'.first 0 = ⟨r.first, 0⟩
    rw [hfirst]
  · rw [Bool.eq_false_iff]
    exact fun hhas => hnew ((hholds.has_iff key).mp hhas)
  · rw [hholds'.has_iff, hholds.has_iff, hbreaks.mem_keys, String.toList_inj]

end Document
end TalkDeck
