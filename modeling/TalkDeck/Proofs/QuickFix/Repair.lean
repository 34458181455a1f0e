import TalkDeck.Catalog.Standard
import TalkDeck.Proofs.QuickFix.Step

/-
What the fixes do to the values of blocks and steps.

The deck after an edit is read again, and the block at the same line has no error.  A missing
parameter is then a key and the other entries are as they were (`missingParam_mends`), an unknown
parameter is gone and the other entries are as they were (`unknownParam_mends`), and an unknown type
is the one that the action names (`unknownType_mends`).  A line is put in or taken out, so the values
around it have to be on lines of their own, and the block must not end the deck.
-/

namespace TalkDeck

open Yaml Layout QuickFix

/-- The tree without the entry of a key. -/
def Yaml.Tree.without (key : String) : Tree → Tree
  | .map es => .map (es.filter (·.1 != .str key))
  | t => t

namespace Yaml.Layout

variable {fs gs : List (Keyed Layout)} {f g : Keyed Layout} {k : List Char}

/-- The type of a sequence is no part of its steps. -/
theorem find?_type_form (q : SequenceForm) :
    q.fields.find? (·.key == "type".toList) = (q.before ++ q.after).find? (·.key == "type".toList) := by
  have hne : q.stepsField.key ≠ "type".toList := by
    show "steps".toList ≠ "type".toList
    decide
  exact find?_of_ne hne

theorem filter_fieldTrees (fs : List (Keyed Layout)) (key : String) :
    (fieldTrees fs).filter (·.1 != .str key) = fieldTrees (fs.filter (·.key != key.toList)) := by
  induction fs with
  | nil => rfl
  | cons f fs ih =>
    obtain ⟨k, gap, w⟩ := f
    rw [fieldTrees, List.filter_cons, List.filter_cons, ih]
    by_cases hkey : k = key.toList
    · rw [hkey, String.ofList_toList]
      simp
    · have hstr : Scalar.str (String.ofList k) ≠ .str key := by
        intro heq
        exact hkey (by rw [← Scalar.str.inj heq, String.toList_ofList])
      rw [if_pos (bne_iff_ne.mpr hstr), if_pos (bne_iff_ne.mpr hkey), fieldTrees]

theorem without_tree (fs : List (Keyed Layout)) (key : String) :
    (Layout.fields fs).tree.without key = (Layout.fields (fs.filter (·.key != key.toList))).tree := by
  rw [tree, Tree.without, filter_fieldTrees, tree]

/-- A field makes no difference once its key is left out. -/
theorem filter_key (h : f.key = k) :
    (fs ++ f :: gs).filter (·.key != k) = (fs ++ gs).filter (·.key != k) := by
  rw [List.filter_append, List.filter_append, List.filter_cons_of_neg (by simp [h])]

theorem filter_of_not_mem (h : k ∉ fs.map (·.key)) : fs.filter (·.key != k) = fs := by
  rw [List.filter_eq_self]
  intro f hf
  rw [bne_iff_ne]
  rintro rfl
  exact h (List.mem_map_of_mem hf)

end Yaml.Layout

namespace Yaml.Value

variable {v v' : Value} {fs gs : List (Keyed Layout)} {f : Keyed Layout} {key : String}

theorem Holds.without_tree (h : v.Holds (.fields fs)) (key : String) :
    v.tree.without key = (Layout.fields (fs.filter (·.key != key.toList))).tree := by
  rw [h.tree_eq, Layout.without_tree]

/-- One field more is one entry more. -/
theorem Holds.insert (h : v.Holds (.fields (fs ++ gs))) (h' : v'.Holds (.fields (fs ++ f :: gs)))
    (hkey : f.key = key.toList) (hnew : key.toList ∉ (fs ++ gs).map (·.key)) :
    v'.has key = true ∧ v'.tree.without key = v.tree := by
  constructor
  · obtain ⟨w, hw⟩ := h'.exists_get? (List.mem_append_right fs List.mem_cons_self)
    rw [hkey, String.ofList_toList] at hw
    rw [has, hw]
    rfl
  · rw [h'.without_tree, filter_key hkey, filter_of_not_mem hnew, h.tree_eq]

/-- One field less is one entry less. -/
theorem Holds.remove (h : v.Holds (.fields (fs ++ f :: gs))) (h' : v'.Holds (.fields (fs ++ gs)))
    (hkey : f.key = key.toList) (hnodup : ((fs ++ f :: gs).map (·.key)).Nodup) :
    v'.tree = v.tree.without key := by
  have hnew : key.toList ∉ (fs ++ gs).map (·.key) := by
    rw [(List.perm_middle.map _).nodup_iff, List.map_cons, List.nodup_cons, hkey] at hnodup
    exact hnodup.1
  rw [h.without_tree, filter_key hkey, filter_of_not_mem hnew, h'.tree_eq]

/-- A field may change without the other entries. -/
theorem Holds.replace {f' : Keyed Layout} (h : v.Holds (.fields (fs ++ f :: gs)))
    (h' : v'.Holds (.fields (fs ++ f' :: gs))) (hkey : f.key = key.toList)
    (hkey' : f'.key = key.toList) : v'.tree.without key = v.tree.without key := by
  rw [h.without_tree, h'.without_tree, filter_key hkey, filter_key hkey']

end Yaml.Value

/-- The deck after an edit is read, and the block that opens where `b` did has no error and the
property. -/
def Document.Mends (limits : Limits) (d : Document) (seq : String) (e : Edit) (b : Block)
    (P : Block → Prop) : Prop :=
  ∃ d', Document.create limits d.uri d.version
      (String.ofList (e.apply d.content.toList)) seq = .ok d' ∧
    ∃ b' ∈ d'.blocks, b'.range.start = b.range.start ∧ b'.error? = none ∧ P b'

namespace Document

theorem Carries.mends {limits : Limits} {d : Document} {b : Block} {seq : String} {e : Edit}
    {fs gs : List (Keyed Layout)} {first : Nat} {before after : List Line} {v : Value}
    {P : Block → Prop} (h : d.Carries limits seq b fs first before after v)
    (hbecomes : d.Becomes limits seq e first gs) (hP : ∀ b' v', b'.Lays seq first gs v' → P b') :
    d.Mends limits seq e b P := by
  obtain ⟨d', b', v', hd', hb', hlays⟩ := hbecomes
  refine ⟨d', hd', b', hb', ?_, hlays.error?_eq, hP b' v' hlays⟩
  rw [hlays.range_start, h.lays.range_start]

section Harms

variable (limits : Limits) (c : Catalog) (s : Settings) (d : Document) (issue : Issue)
  (P : Block → Block → Prop) [∀ b, DecidablePred (P b)]

/-- Whether a fix for the issue gives a deck in which no block is related to that with the issue. -/
def harms : Bool :=
  d.blocks.any fun b => (b.findings c s.sequenceType).any fun f => decide (f.issue = issue) &&
    (fixes c s d (f.diagnostic s.diagnosticSource)).outcome.1.toOption.any fun as => as.any fun a =>
      (create limits d.uri d.version (String.ofList (a.edit.apply d.content.toList))
        s.sequenceType).toOption.all fun d' => d'.blocks.all fun b' => !decide (P b b')

variable {limits c s d issue P}

theorem exists_offer_of_harms (h : harms limits c s d issue P = true) :
    ∃ b ∈ d.blocks, ∃ f ∈ b.findings c s.sequenceType, f.issue = issue ∧
      ∃ a, Offers c s d f a ∧ ¬d.Mends limits s.sequenceType a.edit b (P b) := by
  obtain ⟨b, hb, h⟩ := List.any_eq_true.mp h
  obtain ⟨f, hf, h⟩ := List.any_eq_true.mp h
  obtain ⟨hissue, h⟩ := Bool.and_eq_true_iff.mp h
  obtain ⟨as, has, h⟩ := exists_eq_ok_of_any h
  obtain ⟨a, ha, h⟩ := List.any_eq_true.mp h
  refine ⟨b, hb, f, hf, of_decide_eq_true hissue, a, ⟨as, has, ha⟩, ?_⟩
  rintro ⟨d', hd', b', hb', -, -, hP⟩
  rw [hd'] at h
  have hnot := List.all_eq_true.mp h b' hb'
  simp [hP] at hnot

end Harms

/-! ## A deck with faults -/

/-- Whether an action of that title is offered. -/
def offersTitled (c : Catalog) (s : Settings) (d : Document) (f : Finding) (title : String) : Bool :=
  (fixes c s d (f.diagnostic s.diagnosticSource)).outcome.1.toOption.any fun as =>
    as.any (·.title == title)

theorem exists_offer_of_titled {c : Catalog} {s : Settings} {d : Document} {f : Finding}
    {title : String} (h : offersTitled c s d f title = true) :
    ∃ a, Offers c s d f a ∧ a.title = title := by
  obtain ⟨as, has, h⟩ := exists_eq_ok_of_any h
  obtain ⟨a, ha, htitle⟩ := List.any_eq_true.mp h
  exact ⟨a, ⟨as, has, ha⟩, eq_of_beq htitle⟩

/-- A block with a type and one other field. -/
def twoFields (type key : String) : List (Keyed Layout) :=
  [⟨"type".toList, 1, .scalar type.toList⟩, ⟨key.toList, 1, .scalar "x".toList⟩]

/-- A parameter too many and one missing, then an unknown type, in two blocks and in two steps. -/
def faultyDeck : String :=
  "\x60\x60\x60action\ntype: file.open\nnote: x\n\x60\x60\x60\n" ++
    "\x60\x60\x60action\ntype: file.opn\npath: x\n\x60\x60\x60\n" ++ twoStepsDeck

/-- What is found in the deck. -/
def Faulty (d : Document) : Prop :=
  d.lineCount ≤ 20 ∧
  (∃ b ∈ d.blocks, b.text = text (twoFields "file.open" "note") ∧
    b.contentRange.stop.line + 1 < d.lineCount ∧
    (∃ f ∈ b.findings (.standard "sequence") "sequence", f.issue = .missingParam "path") ∧
    ∃ f ∈ b.findings (.standard "sequence") "sequence", f.issue = .unknownParam "note" "file.open") ∧
  (∃ b ∈ d.blocks, b.text = text (twoFields "file.opn" "path") ∧
    ∃ f ∈ b.findings (.standard "sequence") "sequence", f.issue = .unknownType "file.opn" ∧
      offersTitled (.standard "sequence") {} d f ("Change to '" ++ "file.open" ++ "'") = true) ∧
  ∃ b ∈ d.blocks, b.text = text twoSteps.fields ∧ b.contentRange.stop.line + 1 < d.lineCount ∧
    (∃ t ∈ (b.steps[0]? : Option Step),
      (∃ f ∈ t.findings (.standard "sequence"), f.issue = .stepMissingParam "path") ∧
      ∃ f ∈ t.findings (.standard "sequence"), f.issue = .stepUnknownParam "note" "file.open") ∧
    ∃ t ∈ (b.steps[1]? : Option Step), ∃ f ∈ t.findings (.standard "sequence"),
      f.issue = .stepUnknownType "file.opn" ∧
      offersTitled (.standard "sequence") {} d f ("Change to '" ++ "file.open" ++ "'") = true

instance (d : Document) : Decidable (Faulty d) :=
  inferInstanceAs (Decidable (_ ∧ _))

theorem exists_faulty : ∃ d, create .usual "a" 1 faultyDeck "sequence" = .ok d ∧ Faulty d := by
  obtain ⟨d, hd, hcheck⟩ := exists_eq_ok_of_any (x := create .usual "a" 1 faultyDeck "sequence")
    (p := fun d => decide (Faulty d)) (by decide +kernel)
  exact ⟨d, hd, of_decide_eq_true hcheck⟩

theorem readable_note : Readable .usual (twoFields "file.open" "note") :=
  ⟨by decide +kernel, by decide +kernel⟩

theorem readable_path : Readable .usual (twoFields "file.opn" "path") :=
  ⟨by decide +kernel, by decide +kernel⟩

theorem flatAt_twoSteps : twoSteps.FlatAt 0 := ⟨by decide +kernel, by decide +kernel⟩

/-! ## Missing parameters -/

variable {limits : Limits} {uri content : String} {version : Int} {c : Catalog} {s : Settings}
  {d : Document} {b : Block} {f : Finding} {a : CodeAction} {p k type : String}

/-- A missing parameter is offered a fix, which adds it and changes no other entry, if the fields
above the new line are on lines of their own. -/
theorem missingParam_mends (hd : create limits uri version content s.sequenceType = .ok d)
    (hb : b ∈ d.blocks) (hend : b.contentRange.stop.line + 1 < d.lineCount)
    (hkey : isKey p.toList = true) :
    (∀ fs, Readable limits fs → b.text = text fs → EndsFlat fs → isName p.toList = true →
      f ∈ b.findings c s.sequenceType → f.issue = .missingParam p →
      (∃ a, Offers c s d f a) ∧ ∀ a, Offers c s d f a →
        d.Mends limits s.sequenceType a.edit b fun b' => ∃ v v',
          b.value? = some v ∧ b'.value? = some v' ∧
          v'.has p = true ∧ v'.tree.without p = v.tree) ∧
    (∀ q i t, Readable limits (SequenceForm.fields q) → b.text = text q.fields → q.Aligned →
      q.FlatAt i → p.toList.all Text.isWord = true → p ≠ "type" →
      b.steps[i]? = some t → f ∈ t.findings c → f.issue = .stepMissingParam p →
      (∃ a, Offers c s d f a) ∧ ∀ a, Offers c s d f a →
        d.Mends limits s.sequenceType a.edit b fun b' => ∃ v v', b.stepValue? i = some v ∧
          b'.stepValue? i = some v' ∧ v'.has p = true ∧ v'.tree.without p = v.tree) := by
  constructor
  · intro fs hread htext hlast hname hf hissue
    obtain ⟨first, before, after, v, hcarries⟩ := exists_carries hd hb hread htext
    obtain ⟨fs₁, fs₂, rfl, hnew, hoffer, hbecomes⟩ :=
      hcarries.becomes_of_missingParam hend hlast hf hissue hkey hname
    refine ⟨hoffer, fun a ha => hcarries.mends (hbecomes a ha) fun b' v' hlays => ?_⟩
    exact ⟨v, v', hcarries.lays.value?_eq, hlays.value?_eq,
      hcarries.lays.holds.insert hlays.holds rfl hnew⟩
  · intro q i t hread htext haligned hflat hword hne ht hf hissue
    obtain ⟨first, before, after, v, hcarries⟩ := exists_carries hd hb hread htext
    obtain ⟨ms₁, m, ms₂, fs₁, fs₂, hsteps, rfl, hrest, hnew, hoffer, hread', hbecomes⟩ :=
      hcarries.becomes_of_stepMissingParam haligned hflat hend ht hf hissue hkey hword hne
    refine ⟨hoffer, fun a ha => hcarries.mends (hbecomes a ha) fun b' v' hlays => ?_⟩
    obtain ⟨w, -, -, -, hw, hvalue⟩ := hcarries.lays.exists_stepValue? hread hsteps
    obtain ⟨w', -, -, -, hw', hvalue'⟩ := hlays.exists_stepValue? hread' rfl
    have hfields : m.fields = (⟨"type".toList, m.typeGap, .scalar m.type⟩ :: fs₁) ++ fs₂ := by
      rw [StepForm.fields, hrest, List.cons_append]
    rw [hfields] at hw hnew
    exact ⟨w, w', hvalue, hvalue', hw.insert hw' rfl hnew⟩

theorem missingParam_mends_path :
    ∃ d, create .usual "a" 1 faultyDeck "sequence" = .ok d ∧
      (∃ b ∈ d.blocks, ∃ f a, f ∈ b.findings (.standard "sequence") "sequence" ∧
        Offers (.standard "sequence") {} d f a ∧
        d.Mends .usual "sequence" a.edit b fun b' => ∃ v v', b.value? = some v ∧ b'.value? = some v' ∧
          v'.has "path" = true ∧ v'.tree.without "path" = v.tree) ∧
      (∃ b ∈ d.blocks, ∃ t f a, b.steps[0]? = some t ∧ f ∈ t.findings (.standard "sequence") ∧
        Offers (.standard "sequence") {} d f a ∧
        d.Mends .usual "sequence" a.edit b fun b' => ∃ v v', b.stepValue? 0 = some v ∧
          b'.stepValue? 0 = some v' ∧ v'.has "path" = true ∧ v'.tree.without "path" = v.tree) := by
  obtain ⟨d, hd, -, ⟨b, hb, htext, hend, ⟨f, hf, hissue⟩, -⟩, -,
    b₂, hb₂, htext₂, hend₂, ⟨t, ht, ⟨f₂, hf₂, hissue₂⟩, -⟩, -⟩ := exists_faulty
  have hkey : isKey "path".toList = true := by decide +kernel
  obtain ⟨⟨a, ha⟩, hmends⟩ := (missingParam_mends (s := {}) hd hb hend hkey).1 _ readable_note htext
    (by decide +kernel) (by decide +kernel) hf hissue
  obtain ⟨⟨a₂, ha₂⟩, hmends₂⟩ := (missingParam_mends (s := {}) hd hb₂ hend₂ hkey).2 _ 0 t
    readable_twoSteps htext₂ aligned_twoSteps flatAt_twoSteps (by decide +kernel) (by decide) ht hf₂
    hissue₂
  exact ⟨d, hd, ⟨b, hb, f, a, hf, ha, hmends a ha⟩, b₂, hb₂, t, f₂, a₂, ht, hf₂, ha₂, hmends₂ a₂ ha₂⟩

/-- The last key has a list below it. -/
def listLastDeck : String :=
  "\x60\x60\x60action\ntype: vscode.command\nargs:\n  - a\n\x60\x60\x60"

/-- The list of the last key is cut off from it. -/
theorem missingParam_cuts_list :
    ∃ d, create .usual "a" 1 listLastDeck "sequence" = .ok d ∧ ∃ b ∈ d.blocks,
      ∃ f ∈ b.findings (.standard "sequence") "sequence", f.issue = .missingParam "id" ∧
      ∃ a, Offers (.standard "sequence") {} d f a ∧ ¬d.Mends .usual "sequence" a.edit b fun b' =>
        (b'.value?.bind (·.get? "args")).bind (·.scalar?) =
          (b.value?.bind (·.get? "args")).bind (·.scalar?) := by
  obtain ⟨d, hd, hharms⟩ := exists_eq_ok_of_any (x := create .usual "a" 1 listLastDeck "sequence")
    (p := fun d => harms .usual (.standard "sequence") {} d (.missingParam "id") fun b b' =>
      (b'.value?.bind (·.get? "args")).bind (·.scalar?) =
        (b.value?.bind (·.get? "args")).bind (·.scalar?)) (by decide +kernel)
  have hoffer := exists_offer_of_harms hharms
  exact ⟨d, hd, hoffer⟩

/-! ## Unknown parameters -/

/-- An unknown parameter is offered a fix unless the deck is too long for an editor, and the fix
removes it and changes no other entry, if the parameter is on one line. -/
theorem unknownParam_mends (hd : create limits uri version content s.sequenceType = .ok d)
    (hb : b ∈ d.blocks) (hend : b.contentRange.stop.line + 1 < d.lineCount) :
    (∀ fs, Readable limits fs → b.text = text fs → (∀ g ∈ fs, g.key = k.toList → g.isFlat = true) →
      f ∈ b.findings c s.sequenceType → f.issue = .unknownParam k type →
      (d.lineCount ≤ Position.limit → ∃ a, Offers c s d f a) ∧ ∀ a, Offers c s d f a →
        d.Mends limits s.sequenceType a.edit b fun b' => ∃ v v',
          b.value? = some v ∧ b'.value? = some v' ∧
          v'.tree = v.tree.without k) ∧
    (∀ q i t, Readable limits (SequenceForm.fields q) → b.text = text q.fields → q.Aligned →
      q.FlatAt i → b.steps[i]? = some t → f ∈ t.findings c → f.issue = .stepUnknownParam k type →
      (d.lineCount ≤ Position.limit → ∃ a, Offers c s d f a) ∧ ∀ a, Offers c s d f a →
        d.Mends limits s.sequenceType a.edit b fun b' => ∃ v v', b.stepValue? i = some v ∧
          b'.stepValue? i = some v' ∧ v'.tree = v.tree.without k) := by
  constructor
  · intro fs hread htext hflat hf hissue
    obtain ⟨first, before, after, v, hcarries⟩ := exists_carries hd hb hread htext
    obtain ⟨fs₁, g, fs₂, rfl, hkey, hoffer, hbecomes⟩ :=
      hcarries.becomes_of_unknownParam hend hflat hf hissue
    refine ⟨hoffer, fun a ha => hcarries.mends (hbecomes a ha) fun b' v' hlays => ?_⟩
    exact ⟨v, v', hcarries.lays.value?_eq, hlays.value?_eq,
      hcarries.lays.holds.remove hlays.holds hkey hread.nodup⟩
  · intro q i t hread htext haligned hflat ht hf hissue
    obtain ⟨first, before, after, v, hcarries⟩ := exists_carries hd hb hread htext
    obtain ⟨ms₁, m, ms₂, fs₁, g, fs₂, hsteps, rfl, hrest, hkey, hoffer, hread', hbecomes⟩ :=
      hcarries.becomes_of_stepUnknownParam haligned hflat hend ht hf hissue
    refine ⟨hoffer, fun a ha => hcarries.mends (hbecomes a ha) fun b' v' hlays => ?_⟩
    obtain ⟨w, -, -, -, hw, hvalue⟩ := hcarries.lays.exists_stepValue? hread hsteps
    obtain ⟨w', -, -, -, hw', hvalue'⟩ := hlays.exists_stepValue? hread' rfl
    have hnodup := hread.stepNodup (SequenceForm.mem_steps hsteps)
    have hfields : m.fields = (⟨"type".toList, m.typeGap, .scalar m.type⟩ :: fs₁) ++ g :: fs₂ := by
      rw [StepForm.fields, hrest, List.cons_append]
    rw [hfields] at hw hnodup
    exact ⟨w, w', hvalue, hvalue', hw.remove hw' hkey hnodup⟩

theorem unknownParam_mends_note :
    ∃ d, create .usual "a" 1 faultyDeck "sequence" = .ok d ∧
      (∃ b ∈ d.blocks, ∃ f a, f ∈ b.findings (.standard "sequence") "sequence" ∧
        Offers (.standard "sequence") {} d f a ∧
        d.Mends .usual "sequence" a.edit b fun b' => ∃ v v', b.value? = some v ∧ b'.value? = some v' ∧
          v'.tree = v.tree.without "note") ∧
      (∃ b ∈ d.blocks, ∃ t f a, b.steps[0]? = some t ∧ f ∈ t.findings (.standard "sequence") ∧
        Offers (.standard "sequence") {} d f a ∧
        d.Mends .usual "sequence" a.edit b fun b' => ∃ v v', b.stepValue? 0 = some v ∧
          b'.stepValue? 0 = some v' ∧ v'.tree = v.tree.without "note") := by
  obtain ⟨d, hd, hcount, ⟨b, hb, htext, hend, -, f, hf, hissue⟩, -,
    b₂, hb₂, htext₂, hend₂, ⟨t, ht, -, f₂, hf₂, hissue₂⟩, -⟩ := exists_faulty
  have hlimit : d.lineCount ≤ Position.limit := Nat.le_trans hcount (by decide)
  obtain ⟨hoffer, hmends⟩ := (unknownParam_mends (s := {}) hd hb hend).1 _ readable_note htext
    (by decide) hf hissue
  obtain ⟨hoffer₂, hmends₂⟩ := (unknownParam_mends (s := {}) hd hb₂ hend₂).2 _ 0 t
    readable_twoSteps htext₂ aligned_twoSteps flatAt_twoSteps ht hf₂ hissue₂
  obtain ⟨a, ha⟩ := hoffer hlimit
  obtain ⟨a₂, ha₂⟩ := hoffer₂ hlimit
  exact ⟨d, hd, ⟨b, hb, f, a, hf, ha, hmends a ha⟩, b₂, hb₂, t, f₂, a₂, ht, hf₂, ha₂, hmends₂ a₂ ha₂⟩

/-- The unknown key has a list below it. -/
def unknownListDeck : String :=
  "\x60\x60\x60action\ntype: file.open\npath: a.py\nbogus:\n  - x\n\x60\x60\x60"

/-- The list of the key is left, and goes on with the text above it. -/
theorem unknownParam_leaves_list :
    ∃ d, create .usual "a" 1 unknownListDeck "sequence" = .ok d ∧ ∃ b ∈ d.blocks,
      ∃ f ∈ b.findings (.standard "sequence") "sequence", f.issue = .unknownParam "bogus" "file.open" ∧
      ∃ a, Offers (.standard "sequence") {} d f a ∧ ¬d.Mends .usual "sequence" a.edit b fun b' =>
        (b'.value?.bind (·.get? "path")).bind (·.scalar?) =
          (b.value?.bind (·.get? "path")).bind (·.scalar?) := by
  obtain ⟨d, hd, hharms⟩ := exists_eq_ok_of_any (x := create .usual "a" 1 unknownListDeck "sequence")
    (p := fun d =>
      harms .usual (.standard "sequence") {} d (.unknownParam "bogus" "file.open") fun b b' =>
        (b'.value?.bind (·.get? "path")).bind (·.scalar?) =
          (b.value?.bind (·.get? "path")).bind (·.scalar?)) (by decide +kernel)
  have hoffer := exists_offer_of_harms hharms
  exact ⟨d, hd, hoffer⟩

/-! ## Unknown types -/

/-- The fix of an unknown type gives the block or the step the type that it names, and changes no
other entry. -/
theorem unknownType_mends (hd : create limits uri version content s.sequenceType = .ok d)
    (hb : b ∈ d.blocks) (hquote : '\x27' ∉ k.toList) (htext' : isText p.toList = true)
    (hstr : Scalar.tagOf p.toList = Tag.str) (ha : Offers c s d f a)
    (htitle : a.title = "Change to '" ++ p ++ "'") :
    (∀ fs, Readable limits fs → b.text = text fs →
      f ∈ b.findings c s.sequenceType → f.issue = .unknownType k →
      d.Mends limits s.sequenceType a.edit b fun b' => b'.actionType = some p ∧
        ∃ v v', b.value? = some v ∧ b'.value? = some v' ∧
          v'.tree.without "type" = v.tree.without "type") ∧
    (∀ q i t, Readable limits (SequenceForm.fields q) → b.text = text q.fields → q.Aligned →
      b.steps[i]? = some t → f ∈ t.findings c → f.issue = .stepUnknownType k →
      d.Mends limits s.sequenceType a.edit b fun b' =>
        (∃ t', b'.steps[i]? = some t' ∧ t'.actionType = some p) ∧
        ∃ v v', b.stepValue? i = some v ∧ b'.stepValue? i = some v' ∧
          v'.tree.without "type" = v.tree.without "type") := by
  have hname : (Layout.scalar p.toList).str? = some p := by
    rw [str?_scalar hstr, String.ofList_toList]
  constructor
  · intro fs hread htext hf hissue
    obtain ⟨first, before, after, v, hcarries⟩ := exists_carries hd hb hread htext
    obtain ⟨fs₁, gap, fs₂, rfl, hbecomes⟩ :=
      hcarries.becomes_of_unknownType hf hissue hquote ha htitle htext'
    refine hcarries.mends hbecomes fun b' v' hlays => ⟨?_, v, v', hcarries.lays.value?_eq,
      hlays.value?_eq, hcarries.lays.holds.replace hlays.holds rfl rfl⟩
    have hfind := find?_key (f := ⟨"type".toList, gap, .scalar p.toList⟩)
      (by simpa using hread.nodup)
    rw [hlays.actionType_eq, hlays.holds.str_get?, hfind, Option.bind_some, hname]
  · intro q i t hread htext haligned ht hf hissue
    obtain ⟨first, before, after, v, hcarries⟩ := exists_carries hd hb hread htext
    have htype := (hcarries.lays.exists_form hread ht).1
    obtain ⟨ms₁, m, ms₂, hsteps, rfl, hread', hbecomes⟩ :=
      hcarries.becomes_of_stepUnknownType haligned ht hf hissue hquote ha htitle htext'
    refine hcarries.mends hbecomes fun b' v' hlays => ?_
    -- The block is a sequence as it was.
    have htype' : b'.actionType = some s.sequenceType := by
      rw [hcarries.lays.actionType_eq, hcarries.lays.holds.str_get?, find?_type_form] at htype
      rw [hlays.actionType_eq, hlays.holds.str_get?, find?_type_form]
      exact htype
    obtain ⟨w, -, -, -, hw, hvalue⟩ := hcarries.lays.exists_stepValue? hread hsteps
    obtain ⟨w', hw', hvalue', hstep⟩ :=
      hlays.exists_step hread' (haligned.withStep hsteps rfl rfl) htype' rfl
    have hw₀ : w.Holds (.fields ([] ++ ⟨"type".toList, m.typeGap, .scalar m.type⟩ :: m.rest)) := hw
    refine ⟨⟨_, hstep, ?_⟩, w, w', hvalue, hvalue', hw₀.replace hw' rfl rfl⟩
    rw [← hname]
    exact Step.actionType_ofForm hw'

theorem unknownType_mends_open :
    ∃ d, create .usual "a" 1 faultyDeck "sequence" = .ok d ∧
      (∃ b ∈ d.blocks, ∃ f a, f ∈ b.findings (.standard "sequence") "sequence" ∧
        Offers (.standard "sequence") {} d f a ∧
        d.Mends .usual "sequence" a.edit b fun b' => b'.actionType = some "file.open" ∧
          ∃ v v', b.value? = some v ∧ b'.value? = some v' ∧
            v'.tree.without "type" = v.tree.without "type") ∧
      (∃ b ∈ d.blocks, ∃ t f a, b.steps[1]? = some t ∧ f ∈ t.findings (.standard "sequence") ∧
        Offers (.standard "sequence") {} d f a ∧
        d.Mends .usual "sequence" a.edit b fun b' =>
          (∃ t', b'.steps[1]? = some t' ∧ t'.actionType = some "file.open") ∧
          ∃ v v', b.stepValue? 1 = some v ∧ b'.stepValue? 1 = some v' ∧
            v'.tree.without "type" = v.tree.without "type") := by
  obtain ⟨d, hd, -, -, ⟨b, hb, htext, f, hf, hissue, hoffers⟩,
    b₂, hb₂, htext₂, -, -, t, ht, f₂, hf₂, hissue₂, hoffers₂⟩ := exists_faulty
  obtain ⟨a, ha, htitle⟩ := exists_offer_of_titled hoffers
  obtain ⟨a₂, ha₂, htitle₂⟩ := exists_offer_of_titled hoffers₂
  have hquote : '\x27' ∉ "file.opn".toList := by decide
  have hisText : isText "file.open".toList = true := by decide +kernel
  have hstr : Scalar.tagOf "file.open".toList = Tag.str := by decide +kernel
  have hmends := (unknownType_mends (s := {}) hd hb hquote hisText hstr ha htitle).1 _
    readable_path htext hf hissue
  have hmends₂ := (unknownType_mends (s := {}) hd hb₂ hquote hisText hstr ha₂ htitle₂).2 _ 1 t
    readable_twoSteps htext₂ aligned_twoSteps ht hf₂ hissue₂
  exact ⟨d, hd, ⟨b, hb, f, a, hf, ha, hmends⟩, b₂, hb₂, t, f₂, a₂, ht, hf₂, ha₂, hmends₂⟩

/-- A mapping on one line, with the word of the type in another value before it. -/
def flowDeck : String :=
  "\x60\x60\x60action\n\x7blabel: file.opn, type: file.opn\x7d\n\x60\x60\x60"

/-- The word is changed where it stands first, and the type stays unknown. -/
theorem unknownType_changes_label :
    ∃ d, create .usual "a" 1 flowDeck "sequence" = .ok d ∧ ∃ b ∈ d.blocks,
      ∃ f ∈ b.findings (.standard "sequence") "sequence", f.issue = .unknownType "file.opn" ∧
      ∃ a, Offers (.standard "sequence") {} d f a ∧
        ¬d.Mends .usual "sequence" a.edit b fun b' => b'.actionType = some "file.open" := by
  obtain ⟨d, hd, hharms⟩ := exists_eq_ok_of_any (x := create .usual "a" 1 flowDeck "sequence")
    (p := fun d => harms .usual (.standard "sequence") {} d (.unknownType "file.opn")
      fun _ b' => b'.actionType = some "file.open") (by decide +kernel)
  have hoffer := exists_offer_of_harms hharms
  exact ⟨d, hd, hoffer⟩

end Document
end TalkDeck
