import TalkDeck.Catalog.Standard
import TalkDeck.Proofs.QuickFix.Place
import TalkDeck.Proofs.Yaml.Blank

/-
What is said about the parameters of a block with a known type.

A parameter counts as given if the mapping has it and a line of the block shows it: opens with its
name and a colon.  The findings of a block are told by that exactly (`verdict_iff`), so a key that
the mapping has and no line shows is taken for missing, or not seen to be unknown.  The other way
round nothing is overlooked and nothing made up, in blocks and in steps alike (`verdict_sound`).
-/

namespace TalkDeck

variable {limits : Limits} {c : Catalog} {s : Settings} {seq type : String}

/-! ## Fragments -/

namespace Fragment

variable {v : Yaml.Value}

/-- A line gives a parameter of a key exactly if it opens with the key and the mapping has it. -/
theorem exists_parameter?_iff {n : Nat} {l : Line} {k : String} :
    (∃ p, parameter? v n l = some p ∧ p.key = k) ↔
      v.has k = true ∧ ∃ s, Line.topKey? l = some s ∧ s.key l = k := by
  constructor
  · intro h
    obtain ⟨p, hp, hk⟩ := h
    obtain ⟨s, hs, hp⟩ := Option.bind_eq_some_iff.mp hp
    obtain ⟨w, hw, hp⟩ := Option.bind_eq_some_iff.mp hp
    cases hp
    refine ⟨?_, s, hs, hk⟩
    rw [← hk]
    exact Option.isSome_iff_exists.mpr ⟨w, hw⟩
  · intro h
    obtain ⟨hhas, s, hs, hk⟩ := h
    obtain ⟨w, hw⟩ := Option.isSome_iff_exists.mp hhas
    rw [← hk] at hw
    exact ⟨_, Option.bind_eq_some_iff.mpr ⟨s, hs, Option.bind_eq_some_iff.mpr ⟨w, hw, rfl⟩⟩, hk⟩

theorem ofText_of_read {t : List Char} (h : read limits t = .ok (.mapping v)) :
    Yaml.Value.ofText limits t = .ok (some v) ∧ v.isMap = true := by
  unfold read at h
  split at h
  · cases h
  · next w hw =>
    split at h
    · cases h
    · split at h
      · next hmap =>
        cases h
        exact ⟨hw, hmap⟩
      · cases h
  · cases h
  · cases h
  · cases h
  · cases h

end Fragment

/-! ## Blocks -/

namespace Block

variable {d : Document} {b : Block} {r : Raw} {o : Fragment.Outcome} {v : Yaml.Value} {k : String}

/-- Whether a line of the block opens with the key and a colon. -/
def shows (b : Block) (k : String) : Bool :=
  (Text.lines b.text).any fun l => (Line.topKey? l).any (·.key l == k)

theorem shows_iff :
    b.shows k = true ↔ ∃ l ∈ Text.lines b.text, ∃ s, Line.topKey? l = some s ∧ s.key l = k := by
  simp only [shows, List.any_eq_true, Option.any_eq_true, beq_iff_eq]

/-- The parameters of a block are the keys that its mapping has and its lines show. -/
theorem exists_parameter_iff (hv : (ofOutcome seq r o).value? = some v) :
    (∃ p ∈ (ofOutcome seq r o).parameters, p.key = k) ↔
      v.has k = true ∧ (ofOutcome seq r o).shows k = true := by
  rw [value?_ofOutcome] at hv
  have hparameters : (ofOutcome seq r o).parameters =
      (Fragment.parameters (Text.unlines r.content) v).map (·.down (r.first + 1)) := by
    show ((o.value?.map (Fragment.parameters (Text.unlines r.content))).getD []).map _ = _
    rw [hv]
    rfl
  rw [hparameters, shows_iff]
  constructor
  · intro h
    obtain ⟨p, hp, hkey⟩ := h
    obtain ⟨q, hq, rfl⟩ := List.mem_map.mp hp
    obtain ⟨⟨l, n⟩, hl, hq⟩ := List.mem_filterMap.mp hq
    obtain ⟨hhas, s, hs, hs'⟩ := Fragment.exists_parameter?_iff.mp ⟨q, hq, hkey⟩
    exact ⟨hhas, l, List.fst_mem_of_mem_zipIdx hl, s, hs, hs'⟩
  · intro h
    obtain ⟨hhas, l, hl, s, hs, hkey⟩ := h
    obtain ⟨n, hn, hln⟩ := List.getElem_of_mem hl
    obtain ⟨p, hp, hpk⟩ := Fragment.exists_parameter?_iff (n := n).mpr ⟨hhas, s, hs, hkey⟩
    refine ⟨p.down (r.first + 1), List.mem_map_of_mem (List.mem_filterMap.mpr ⟨(l, n), ?_, hp⟩), hpk⟩
    rw [List.mem_zipIdx_iff_getElem?]
    exact List.getElem?_eq_some_iff.mpr ⟨hn, hln⟩

theorem exists_value_of_actionType (h : (ofOutcome seq r o).actionType = some type) :
    ∃ v, o = .mapping v ∧ v.has "type" = true := by
  obtain ⟨w, hget, -⟩ := Option.bind_eq_some_iff.mp h
  obtain ⟨v, hv, hw⟩ := Option.bind_eq_some_iff.mp hget
  cases o with
  | mapping u =>
    cases hv
    exact ⟨v, rfl, Option.isSome_iff_exists.mpr ⟨w, hw⟩⟩
  | empty => cases hv
  | broken e => cases hv

/-- A block with a type holds a mapping, so there is more to it than blanks. -/
theorem isEmpty_ofOutcome (hread : Fragment.read limits (Text.unlines r.content) = .ok o)
    (h : (ofOutcome seq r o).actionType = some type) : (ofOutcome seq r o).isEmpty = false := by
  obtain ⟨v, rfl, hhas⟩ := exists_value_of_actionType h
  obtain ⟨htext, hmap⟩ := Fragment.ofText_of_read hread
  have hentries : ((some v).bind (·.entries?)).all (·.isEmpty) = false := by
    rw [Yaml.Value.has, Yaml.Value.get?] at hhas
    rw [Option.bind_some]
    cases hes : v.entries? with
    | none => rw [hes] at hhas; cases hhas
    | some es =>
      cases es with
      | nil => rw [hes] at hhas; cases hhas
      | cons e es => rfl
  have hblank : Text.allBlank (Text.unlines r.content) = false := by
    cases hall : Text.allBlank (Text.unlines r.content) with
    | false => rfl
    | true =>
      rw [Yaml.Value.isMap_of_allBlank hall htext] at hmap
      cases hmap
  rw [isEmpty, value?_ofOutcome]
  show (((some v).bind (·.entries?)).all (·.isEmpty) || Text.allBlank (Text.unlines r.content)) = false
  rw [hentries, hblank, Bool.or_false]

/-- A block with a known type gets as far as the checks of its parameters. -/
theorem typedFindings_subset (hread : Fragment.read limits (Text.unlines r.content) = .ok o)
    (htype : namedType (ofOutcome seq r o).actionType = some type) (hknown : c.knows type = true) :
    ∀ f ∈ (ofOutcome seq r o).typedFindings c seq type, f ∈ (ofOutcome seq r o).findings c seq := by
  obtain ⟨hsome, -⟩ := namedType_eq_some htype
  obtain ⟨v, rfl, -⟩ := exists_value_of_actionType hsome
  have herror : (ofOutcome seq r (.mapping v)).error? = none := rfl
  have hempty := isEmpty_ofOutcome hread hsome
  intro f hf
  unfold findings contentFindings
  rw [herror]
  simp only [hempty, htype, hknown, if_true, Bool.false_eq_true, if_false]
  exact List.mem_append_right _ hf

/-- What is found to be missing is what the type needs and the block does not both have and show. -/
theorem missingParam_found_iff (hread : Fragment.read limits (Text.unlines r.content) = .ok o)
    (hv : (ofOutcome seq r o).value? = some v)
    (htype : namedType (ofOutcome seq r o).actionType = some type) (hknown : c.knows type = true) :
    (∃ f ∈ (ofOutcome seq r o).findings c seq, f.issue = .missingParam k) ↔
      k ∈ c.required type ∧ ¬(v.has k = true ∧ (ofOutcome seq r o).shows k = true) := by
  rw [← exists_parameter_iff hv, ← mem_missingOf]
  constructor
  · intro h
    obtain ⟨f, hf, hissue⟩ := h
    obtain ⟨t, ht, hname, -⟩ := mem_findings_missingParam hf hissue
    cases ht.symm.trans (namedType_eq_some htype).1
    exact hname
  · intro h
    refine ⟨⟨.missingParam k, Range.point (ofOutcome seq r o).contentRange.stop.line 0⟩,
      typedFindings_subset hread htype hknown _ ?_, rfl⟩
    exact List.mem_append_left _ (List.mem_append_left _ (List.mem_map.mpr ⟨k, h, rfl⟩))

/-- What is found to be unknown is what the block both has and shows and the type does not take. -/
theorem unknownParam_found_iff (hread : Fragment.read limits (Text.unlines r.content) = .ok o)
    (hv : (ofOutcome seq r o).value? = some v)
    (htype : namedType (ofOutcome seq r o).actionType = some type) (hknown : c.knows type = true)
    {type' : String} :
    (∃ f ∈ (ofOutcome seq r o).findings c seq, f.issue = .unknownParam k type') ↔
      type' = type ∧ (v.has k = true ∧ (ofOutcome seq r o).shows k = true) ∧ k ∉ c.names type ∧
        isMetaField k = false := by
  rw [← exists_parameter_iff hv]
  constructor
  · intro h
    obtain ⟨f, hf, hissue⟩ := h
    obtain ⟨ht, p, hp, rfl, -⟩ := mem_findings_unknownParam hf hissue
    cases ht.symm.trans (namedType_eq_some htype).1
    obtain ⟨hp, hnames, hmeta⟩ := mem_unknownOf.mp hp
    exact ⟨rfl, ⟨p, hp, rfl⟩, hnames, hmeta⟩
  · intro h
    obtain ⟨rfl, ⟨p, hp, rfl⟩, hnames, hmeta⟩ := h
    refine ⟨⟨.unknownParam p.key type', p.keyRange⟩,
      typedFindings_subset hread htype hknown _ ?_, rfl⟩
    refine List.mem_append_left _ (List.mem_append_right _ (List.mem_map.mpr ⟨p, ?_, rfl⟩))
    exact mem_unknownOf.mpr ⟨hp, hnames, hmeta⟩

/-- The findings of the steps of a known type are findings of the block. -/
theorem stepFindings_subset (hread : Fragment.read limits (Text.unlines r.content) = .ok o)
    (htype : namedType (ofOutcome seq r o).actionType = some type) (hknown : c.knows type = true)
    {u : Step} (hu : u ∈ (ofOutcome seq r o).steps) :
    ∀ f ∈ u.findings c, f ∈ (ofOutcome seq r o).findings c seq := by
  intro f hf
  have heq : type = seq :=
    Option.some.inj ((namedType_eq_some htype).1.symm.trans (actionType_of_mem_steps hu))
  refine typedFindings_subset hread htype hknown f (List.mem_append_right _ ?_)
  rw [if_pos heq]
  exact List.mem_flatMap.mpr ⟨u, hu, hf⟩

/-- A step with a type has a mapping for its member, and its parameters are keys of that mapping. -/
theorem exists_stepValue (hcontent : r.content <+: d.lines.drop (r.first + 1)) {i : Nat} {u : Step}
    (hu : (ofOutcome seq r o).steps[i]? = some u) (htype : u.actionType = some type) :
    u.index = i ∧ ∃ w, (ofOutcome seq r o).stepValue? i = some w ∧ w.isMap = true ∧
      ∀ p ∈ u.parameters, w.has p.key = true := by
  have hvalue := (locatesStep hcontent hu).parameters.value
  obtain ⟨members, hmembers, hstep⟩ := getElem?_steps_ofOutcome hu
  obtain ⟨g, member, hg, hmember, rfl⟩ := Step.getElem?_ofBlock hstep
  rw [Step.ofLines_eq i (Step.groups_ne_nil (List.mem_of_getElem? hg))] at htype hvalue ⊢
  obtain ⟨w, hw, -⟩ := Option.bind_eq_some_iff.mp htype
  obtain ⟨rfl, hmap⟩ := Option.filter_eq_some_iff.mp hw
  have hstepValue : (ofOutcome seq r o).stepValue? i = some w := by
    rw [stepValue?_ofOutcome seq hmembers, hmember]
    rfl
  refine ⟨rfl, w, hstepValue, hmap, ?_⟩
  intro p hp
  have hget := hvalue p hp
  rw [hstepValue] at hget
  exact Option.isSome_iff_exists.mpr ⟨p.value, hget⟩

open Yaml Layout in
/-- A block laid out line by line shows the fields that have names. -/
theorem shows_of_mem {fs : List (Keyed Layout)} (hfs : Readable limits fs)
    (htext : b.text = Layout.text fs) {f : Keyed Layout} (hf : f ∈ fs) (hname : isName f.key = true) :
    b.shows (String.ofList f.key) = true := by
  have hhead : f.head 0 ∈ fieldLines 0 fs := by
    obtain ⟨fs₁, fs₂, rfl⟩ := List.append_of_mem hf
    rw [fieldLines_append, fieldLines_cons]
    exact List.mem_append_right _ List.mem_cons_self
  rw [shows_iff, htext, hfs.lines_text]
  refine ⟨f.head 0, hhead, ⟨0, f.key.length, f.key.length⟩, ?_, ?_⟩
  · rw [Line.topKey?_head (hfs.field f hf).2.1, if_pos hname]
  · exact Keyed.key_parameter f 0 default

end Block

/-! ## Steps -/

namespace Step

variable {u : Step} {k : String}

theorem missingParam_found (htype : namedType u.actionType = some type) (hknown : c.knows type = true)
    (hrequired : k ∈ c.required type) (h : ∀ p ∈ u.parameters, p.key ≠ k) :
    ∃ f ∈ u.findings c, f.issue = .stepMissingParam k := by
  refine ⟨⟨.stepMissingParam k, Range.point u.range.stop.line 0⟩, ?_, rfl⟩
  unfold findings
  rw [htype]
  simp only [hknown, if_true]
  refine List.mem_append_left _ (List.mem_map.mpr ⟨k, mem_missingOf.mpr ⟨hrequired, ?_⟩, rfl⟩)
  intro hex
  obtain ⟨p, hp, hk⟩ := hex
  exact h p hp hk

theorem unknownParam_found {f : Finding} (hf : f ∈ u.findings c) {type' : String}
    (hissue : f.issue = .stepUnknownParam k type') :
    u.actionType = some type' ∧ ∃ p ∈ u.parameters, p.key = k ∧ k ∉ c.names type' ∧
      isMetaField k = false := by
  obtain ⟨ht, p, hp, rfl, -⟩ := mem_findings_unknownParam hf hissue
  obtain ⟨hp, hnames, hmeta⟩ := mem_unknownOf.mp hp
  exact ⟨ht, p, hp, rfl, hnames, hmeta⟩

end Step

namespace Document

variable {uri content : String} {version : Int} {d : Document} {b : Block}
  {v : Yaml.Value}

/-- One of the findings has the issue, and is among the diagnostics of the deck. -/
def Reports (c : Catalog) (s : Settings) (d : Document) (found : List Finding) (issue : Issue) : Prop :=
  ∃ f ∈ found, f.issue = issue ∧ f.diagnostic s.diagnosticSource ∈ d.diagnostics c s

instance (found : List Finding) (issue : Issue) : Decidable (d.Reports c s found issue) :=
  inferInstanceAs (Decidable (∃ f ∈ found, _))

theorem reports_iff {found : List Finding} {issue : Issue} (hb : b ∈ d.blocks)
    (hfound : ∀ f ∈ found, f ∈ b.findings c s.sequenceType) :
    d.Reports c s found issue ↔ ∃ f ∈ found, f.issue = issue := by
  constructor
  · intro h
    obtain ⟨f, hf, hissue, -⟩ := h
    exact ⟨f, hf, hissue⟩
  · intro h
    obtain ⟨f, hf, hissue⟩ := h
    obtain ⟨slide, hslide, hb⟩ := List.mem_flatMap.mp hb
    refine ⟨f, hf, hissue, List.mem_map_of_mem (List.mem_flatMap.mpr ⟨slide, hslide, ?_⟩)⟩
    exact List.mem_append_left _ (List.mem_append_left _ (List.mem_flatMap.mpr ⟨b, hb, hfound f hf⟩))

open Yaml Layout in
/-- A block laid out line by line with names for its keys shows all keys of its mapping. -/
theorem shows_of_has (hd : create limits uri version content seq = .ok d) (hb : b ∈ d.blocks)
    (hv : b.value? = some v) {fs : List (Keyed Layout)} (hfs : Readable limits fs)
    (htext : b.text = Layout.text fs) (hnames : ∀ f ∈ fs, isName f.key = true) {k : String}
    (hk : v.has k = true) : b.shows k = true := by
  obtain ⟨first, before, after, w, hlays, -⟩ := exists_lays hd hb hfs htext
  cases hlays.value?_eq.symm.trans hv
  have hrel := hlays.holds.get?_eq k.toList
  rw [String.ofList_toList] at hrel
  cases hfind : fs.find? (·.key == k.toList) with
  | none =>
    rw [hfind] at hrel
    generalize hget : v.get? k = o at hrel
    cases hrel
    rw [Value.has, hget] at hk
    cases hk
  | some f =>
    have hkey : f.key = k.toList := by simpa using List.find?_some hfind
    have hf := List.mem_of_find?_eq_some hfind
    have hshows := Block.shows_of_mem hfs htext hf (hnames f hf)
    rw [hkey, String.ofList_toList] at hshows
    exact hshows

/-- What is said about the parameters of a block with a known type, exactly: a parameter is missing
that the type needs and the block does not both have and show, and a key is unknown that the block
both has and shows and the type does not take.  Laid out line by line, with names for its keys, a
block shows all that it has. -/
theorem verdict_iff (hd : create limits uri version content s.sequenceType = .ok d) (hb : b ∈ d.blocks)
    (hv : b.value? = some v) (htype : namedType b.actionType = some type)
    (hknown : c.knows type = true) :
    (∀ k, d.Reports c s (b.findings c s.sequenceType) (.missingParam k) ↔
      k ∈ c.required type ∧ ¬(v.has k = true ∧ b.shows k = true)) ∧
    (∀ k, d.Reports c s (b.findings c s.sequenceType) (.unknownParam k type) ↔
      (v.has k = true ∧ b.shows k = true) ∧ k ∉ c.names type ∧ isMetaField k = false) ∧
    ∀ fs, Yaml.Layout.Readable limits fs → b.text = Yaml.Layout.text fs →
      (∀ f ∈ fs, Yaml.Layout.isName f.key = true) → ∀ k, v.has k = true → b.shows k = true := by
  refine ⟨?_, ?_, ?_⟩
  · intro k
    rw [reports_iff hb fun f hf => hf]
    obtain ⟨r, -, o, hread, rfl⟩ := exists_raw_of_mem_blocks hd hb
    exact Block.missingParam_found_iff hread hv htype hknown
  · intro k
    rw [reports_iff hb fun f hf => hf]
    obtain ⟨r, -, o, hread, rfl⟩ := exists_raw_of_mem_blocks hd hb
    rw [Block.unknownParam_found_iff hread hv htype hknown]
    exact ⟨fun h => h.2, fun h => ⟨rfl, h⟩⟩
  · intro fs hfs htext hnames k hk
    exact shows_of_has hd hb hv hfs htext hnames hk

/-- A parameter missing and one too many. -/
def extraFields : List (Yaml.Keyed Yaml.Layout) :=
  [⟨"type".toList, 1, .scalar "file.open".toList⟩, ⟨"extra".toList, 1, .scalar "x".toList⟩]

def extraDeck : String := "\x60\x60\x60action\ntype: file.open\nextra: x\n\x60\x60\x60"

theorem verdict_iff_extra :
    ∃ d, create .usual "a" 1 extraDeck "sequence" = .ok d ∧ ∃ b ∈ d.blocks, ∃ v, b.value? = some v ∧
      d.Reports (.standard "sequence") {} (b.findings (.standard "sequence") "sequence")
        (.missingParam "path") ∧
      d.Reports (.standard "sequence") {} (b.findings (.standard "sequence") "sequence")
        (.unknownParam "extra" "file.open") ∧
      ∀ k, v.has k = true → b.shows k = true := by
  obtain ⟨d, hd, hcheck⟩ := exists_eq_ok_of_any (x := create .usual "a" 1 extraDeck "sequence")
    (p := fun d => decide (∃ b ∈ d.blocks, ∃ v ∈ b.value?, b.text = Yaml.Layout.text extraFields ∧
      namedType b.actionType = some "file.open" ∧ v.has "path" = false ∧ v.has "extra" = true))
    (by decide +kernel)
  obtain ⟨b, hb, v, hv, htext, htype, hpath, hextra⟩ := of_decide_eq_true hcheck
  obtain ⟨hmissing, hunknown, hshows⟩ := verdict_iff (c := .standard "sequence") (s := {})
    hd hb hv htype (by decide +kernel)
  have hlaid := hshows extraFields ⟨by decide +kernel, by decide +kernel⟩ htext (by decide +kernel)
  refine ⟨d, hd, b, hb, v, hv, (hmissing "path").mpr ⟨by decide +kernel, fun h => ?_⟩,
    (hunknown "extra").mpr ⟨⟨hextra, hlaid "extra" hextra⟩, by decide +kernel, by decide +kernel⟩, hlaid⟩
  rw [hpath] at h
  cases h.1

/-- A mapping on one line, which shows none of its keys. -/
def oneLineDeck : String := "\x60\x60\x60action\n\x7btype: file.open, path: a.py\x7d\n\x60\x60\x60"

/-- A parameter that the mapping has is found to be missing. -/
theorem missingParam_oneLine :
    ∃ d, create .usual "a" 1 oneLineDeck "sequence" = .ok d ∧ ∃ b ∈ d.blocks, ∃ v, b.value? = some v ∧
      namedType b.actionType = some "file.open" ∧ v.has "path" = true ∧
      d.Reports (.standard "sequence") {} (b.findings (.standard "sequence") "sequence")
        (.missingParam "path") := by
  obtain ⟨d, hd, hcheck⟩ := exists_eq_ok_of_any (x := create .usual "a" 1 oneLineDeck "sequence")
    (p := fun d => decide (∃ b ∈ d.blocks, ∃ v ∈ b.value?, namedType b.actionType = some "file.open" ∧
      v.has "path" = true ∧ d.Reports (.standard "sequence") {}
        (b.findings (.standard "sequence") "sequence") (.missingParam "path"))) (by decide +kernel)
  exact ⟨d, hd, of_decide_eq_true hcheck⟩

/-- No missing parameter is overlooked and no unknown one made up, in blocks and in steps. -/
theorem verdict_sound (hd : create limits uri version content s.sequenceType = .ok d)
    (hb : b ∈ d.blocks) (htype : namedType b.actionType = some type) (hknown : c.knows type = true) :
    ∃ v, b.value? = some v ∧
      (∀ k ∈ c.required type, v.has k = false →
        d.Reports c s (b.findings c s.sequenceType) (.missingParam k)) ∧
      (∀ k type', d.Reports c s (b.findings c s.sequenceType) (.unknownParam k type') →
        type' = type ∧ v.has k = true ∧ k ∉ c.names type ∧ isMetaField k = false) ∧
      ∀ i u stepType, b.steps[i]? = some u → namedType u.actionType = some stepType →
        c.knows stepType = true → u.index = i ∧ ∃ w, b.stepValue? i = some w ∧ w.isMap = true ∧
          (∀ k ∈ c.required stepType, w.has k = false →
            d.Reports c s (u.findings c) (.stepMissingParam k)) ∧
          ∀ k type', d.Reports c s (u.findings c) (.stepUnknownParam k type') →
            type' = stepType ∧ w.has k = true ∧ k ∉ c.names stepType ∧ isMetaField k = false := by
  have hreports : ∀ issue, d.Reports c s (b.findings c s.sequenceType) issue ↔
      ∃ f ∈ b.findings c s.sequenceType, f.issue = issue :=
    fun issue => reports_iff hb fun f hf => hf
  have hstep : ∀ (u : Step) (issue : Issue), (∀ f ∈ u.findings c, f ∈ b.findings c s.sequenceType) →
      (d.Reports c s (u.findings c) issue ↔ ∃ f ∈ u.findings c, f.issue = issue) :=
    fun u issue hu => reports_iff hb hu
  obtain ⟨r, hr, o, hread, rfl⟩ := exists_raw_of_mem_blocks hd hb
  obtain ⟨v, rfl, -⟩ := Block.exists_value_of_actionType (namedType_eq_some htype).1
  have hv : (Block.ofOutcome s.sequenceType r (.mapping v)).value? = some v := rfl
  refine ⟨v, hv, ?_, ?_, ?_⟩
  · intro k hk hno
    rw [hreports, Block.missingParam_found_iff hread hv htype hknown]
    refine ⟨hk, ?_⟩
    intro hhas
    rw [hno] at hhas
    cases hhas.1
  · intro k type' h
    rw [hreports, Block.unknownParam_found_iff hread hv htype hknown] at h
    exact ⟨h.1, h.2.1.1, h.2.2⟩
  · intro i u stepType hu hstepType hstepKnown
    have hsome := (namedType_eq_some hstepType).1
    have hsubset := Block.stepFindings_subset hread htype hknown (List.mem_of_getElem? hu)
    obtain ⟨hindex, w, hw, hmap, hkeys⟩ :=
      Block.exists_stepValue (content_prefix_of_mem_raws hr) hu hsome
    refine ⟨hindex, w, hw, hmap, ?_, ?_⟩
    · intro k hk hno
      rw [hstep u _ hsubset]
      refine Step.missingParam_found hstepType hstepKnown hk ?_
      intro p hp hkey
      have hhas := hkeys p hp
      rw [hkey, hno] at hhas
      cases hhas
    · intro k type' h
      obtain ⟨f, hf, hissue⟩ := (hstep u _ hsubset).mp h
      obtain ⟨htype', p, hp, rfl, hnames, hmeta⟩ := Step.unknownParam_found hf hissue
      cases hsome.symm.trans htype'
      exact ⟨rfl, hkeys p hp, hnames, hmeta⟩

/-- A parameter missing and one too many, in a block and in a step. -/
def extraStepDeck : String :=
  extraDeck ++ "\n\x60\x60\x60action\ntype: sequence\nsteps:\n  - type: file.open\n" ++
    "    extra: x\n\x60\x60\x60"

theorem verdict_sound_extra :
    ∃ d, create .usual "a" 1 extraStepDeck "sequence" = .ok d ∧
      (∃ b ∈ d.blocks, ∃ v, b.value? = some v ∧ v.has "extra" = true ∧
        d.Reports (.standard "sequence") {} (b.findings (.standard "sequence") "sequence")
          (.missingParam "path")) ∧
      ∃ b ∈ d.blocks, ∃ u ∈ b.steps, ∃ w, b.stepValue? u.index = some w ∧ w.has "extra" = true ∧
        d.Reports (.standard "sequence") {} (u.findings (.standard "sequence"))
          (.stepMissingParam "path") := by
  obtain ⟨d, hd, hcheck⟩ := exists_eq_ok_of_any (x := create .usual "a" 1 extraStepDeck "sequence")
    (p := fun d => decide (
      (∃ b ∈ d.blocks, namedType b.actionType = some "file.open" ∧
        (∃ v ∈ b.value?, v.has "path" = false) ∧
        d.Reports (.standard "sequence") {} (b.findings (.standard "sequence") "sequence")
          (.unknownParam "extra" "file.open")) ∧
      ∃ b ∈ d.blocks, namedType b.actionType = some "sequence" ∧
        ∃ u ∈ (b.steps[0]? : Option Step), namedType u.actionType = some "file.open" ∧
          (∃ w ∈ b.stepValue? 0, w.has "path" = false) ∧
          d.Reports (.standard "sequence") {} (u.findings (.standard "sequence"))
            (.stepUnknownParam "extra" "file.open"))) (by decide +kernel)
  obtain ⟨⟨b, hb, htype, ⟨v, hv, hno⟩, hunknown⟩, b', hb', htype', u, hu, hstepType, ⟨w, hw, hno'⟩,
    hstepUnknown⟩ := of_decide_eq_true hcheck
  refine ⟨d, hd, ⟨b, hb, ?_⟩, b', hb', u, List.mem_of_getElem? hu, ?_⟩
  · obtain ⟨v', hv', hmissing, hsound, -⟩ := verdict_sound (c := .standard "sequence") (s := {})
      hd hb htype (by decide +kernel)
    cases hv.symm.trans hv'
    exact ⟨v, hv, (hsound _ _ hunknown).2.1, hmissing "path" (by decide +kernel) hno⟩
  · obtain ⟨-, -, -, -, hsteps⟩ := verdict_sound (c := .standard "sequence") (s := {})
      hd hb' htype' (by decide +kernel)
    obtain ⟨hindex, w', hw', -, hmissing, hsound⟩ :=
      hsteps 0 u "file.open" hu hstepType (by decide +kernel)
    cases hw.symm.trans hw'
    rw [hindex]
    exact ⟨w, hw, (hsound _ _ hstepUnknown).2.1, hmissing "path" (by decide +kernel) hno'⟩

end Document
end TalkDeck
