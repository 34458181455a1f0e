import TalkDeck.Proofs.Deck.Down
import TalkDeck.Proofs.Deck.Line
import TalkDeck.Proofs.Deck.Link
import TalkDeck.Proofs.Deck.Numbered
import TalkDeck.Proofs.Deck.Scan

/-
Recovered ranges point at the text they claim.

The markup reader gives values without places, so the places of keys, values, types and links are
found again in the lines of the deck.  `Parameter.PointsInto` says what the three ranges of a
parameter are in its line, `Document.Locates` what holds of the parameters of a block or of a step,
and the theorem this file exists for is `Document.create_located`: it holds in every deck that was
read, and steps, types and links lie inside what they belong to.
-/

namespace TalkDeck

/-! ## Parameters in their lines -/

namespace Parameter

open Text

def ranges (p : Parameter) : List Range := [p.keyRange, p.valueRange, p.lineRange]

/-- Where the first colon at or after the end of the key stands. -/
def colon (p : Parameter) (l : Line) : Nat := l.colonFrom p.keyRange.stop.character

/-- A parameter of line `n`, which reads `l`: its key, blanks, a colon, and its value, trimmed. -/
structure PointsInto (p : Parameter) (n : Nat) (l : Line) : Prop where
  whole_line : p.lineRange = Range.onLine n 0 l.length
  key_line : p.keyRange.WithinLine n l.length
  key_text : (l.take p.keyRange.stop.character).drop p.keyRange.start.character = p.key.toList
  gap_blank : allBlank ((l.drop p.keyRange.stop.character).takeWhile (· != ':')) = true
  colon_char : l[p.colon l]? = some ':'
  value_line : p.valueRange.WithinLine n l.length
  value_start : p.valueRange.start.character =
    p.colon l + 1 + blankLead (l.drop (p.colon l + 1))
  value_stop : p.valueRange.stop.character =
    p.valueRange.start.character + (trim (l.drop (p.colon l + 1))).length
  value_text : (l.take p.valueRange.stop.character).drop p.valueRange.start.character =
    trim (l.drop (p.colon l + 1))

theorem PointsInto.withinLine {p : Parameter} {n : Nat} {l : Line} (h : p.PointsInto n l)
    {r : Range} (hr : r ∈ p.ranges) : r.WithinLine n l.length := by
  rcases List.mem_cons.mp hr with rfl | hr
  · exact h.key_line
  · rcases List.mem_cons.mp hr with rfl | hr
    · exact h.value_line
    · obtain rfl := List.mem_singleton.mp hr
      rw [h.whole_line]
      exact ⟨0, l.length, rfl, Nat.zero_le _, Nat.le_refl _⟩

/-- The parameter of a marked key. -/
def ofSpan (k : Line.KeySpan) (value : Yaml.Value) (n : Nat) (l : Line) : Parameter where
  key := k.key l
  value
  keyRange := Range.onLine n k.start k.stop
  valueRange := Range.onLine n (l.valueStart k.colon) (l.trimmedStop (l.valueStart k.colon))
  lineRange := Range.onLine n 0 l.length

theorem pointsInto_ofSpan {k : Line.KeySpan} {l : Line} (hk : k.Marks l) (value : Yaml.Value)
    (n : Nat) : (ofSpan k value n l).PointsInto n l := by
  obtain ⟨hstop, hcolon⟩ := hk.colon_lt
  have hstart := Line.valueStart_le hcolon
  have hrest : trimRight (l.drop (l.valueStart k.colon)) = trim (l.drop (k.colon + 1)) := by
    rw [Line.drop_valueStart, trim]
  have hcolon_eq : (ofSpan k value n l).colon l = k.colon := hk.colonFrom_eq
  refine ⟨rfl, ⟨k.start, k.stop, rfl, hk.start_le, by omega⟩, ?_, ?_, ?_,
    ⟨_, _, rfl, Nat.le_add_right _ _, Line.trimmedStop_le hstart⟩, ?_, ?_, ?_⟩
  · show (l.take k.stop).drop k.start = (k.key l).toList
    rw [Line.KeySpan.key, String.toList_ofList, List.drop_take]
  · obtain ⟨gap, hgap, hblank, -⟩ := hk.takeWhile_eq
    show allBlank ((l.drop k.stop).takeWhile (· != ':')) = true
    rw [hgap, hblank]
  · rw [hcolon_eq, hk.getElem?_colon]
  · rw [hcolon_eq]
    rfl
  · rw [hcolon_eq, ← hrest]
    rfl
  · rw [hcolon_eq, ← hrest]
    show (l.take (l.trimmedStop (l.valueStart k.colon))).drop (l.valueStart k.colon) = _
    rw [List.drop_take, Line.trimmedStop, Nat.add_sub_cancel_left]
    exact (List.prefix_iff_eq_take.mp (trimRight_isPrefix _)).symm

end Parameter

/-- A parameter of a block is that of the key at the left edge of its line. -/
theorem Fragment.exists_ofSpan {v : Yaml.Value} {n : Nat} {l : Line} {p : Parameter}
    (h : parameter? v n l = some p) :
    ∃ k value, l.topKey? = some k ∧ p = Parameter.ofSpan k value n l ∧
      v.get? (k.key l) = some value := by
  obtain ⟨k, hk, h⟩ := Option.bind_eq_some_iff.mp h
  obtain ⟨value, hvalue, h⟩ := Option.bind_eq_some_iff.mp h
  refine ⟨k, value, hk, ?_, hvalue⟩
  -- Both ways to find the end of a value agree.
  dsimp only at h
  rw [Line.max_length_trimRight (Line.valueStart_le (Line.topKey?_marks hk).colon_lt.2)] at h
  exact (Option.some.inj h).symm

theorem Fragment.parameter?_eq_some {v : Yaml.Value} {n : Nat} {l : Line} {p : Parameter}
    (h : parameter? v n l = some p) : p.PointsInto n l ∧ v.get? p.key = some p.value := by
  obtain ⟨k, value, hk, rfl, hvalue⟩ := exists_ofSpan h
  exact ⟨Parameter.pointsInto_ofSpan (Line.topKey?_marks hk) value n, hvalue⟩

/-- A parameter of a step is that of the key of its line, which is not `type`. -/
theorem Step.exists_ofSpan {v : Yaml.Value} {n : Nat} {l : Line} {p : Parameter}
    (h : parameter? v n l = some p) :
    ∃ k value, l.stepKey? = some k ∧ p = Parameter.ofSpan k value n l ∧ k.key l ≠ "type" ∧
      v.get? (k.key l) = some value := by
  obtain ⟨k, hk, h⟩ := Option.bind_eq_some_iff.mp h
  dsimp only at h
  split at h
  · cases h
  · next hkey =>
    obtain ⟨value, hvalue, h⟩ := Option.bind_eq_some_iff.mp h
    exact ⟨k, value, hk, (Option.some.inj h).symm, hkey, hvalue⟩

theorem Step.parameter?_eq_some {v : Yaml.Value} {n : Nat} {l : Line} {p : Parameter}
    (h : parameter? v n l = some p) : p.PointsInto n l ∧ v.get? p.key = some p.value := by
  obtain ⟨k, value, hk, rfl, -, hvalue⟩ := exists_ofSpan h
  exact ⟨Parameter.pointsInto_ofSpan (Line.stepKey?_marks hk) value n, hvalue⟩

/-! ## Parameters of numbered lines -/

namespace Block

/-- The lines of a block's content with their numbers in the deck. -/
def numbered (b : Block) : List (Line × Nat) := (Text.lines b.text).zipIdx b.contentRange.start.line

/-- What the mapping of a block holds for the step with the given index. -/
def stepValue? (b : Block) (i : Nat) : Option Yaml.Value :=
  ((b.value?.bind (·.get? "steps")).bind (·.items?)).bind fun members => (members[i]?).join

end Block

namespace Document

variable {d : Document}

/-- Parameters of a block: each points into a line of its content and has the value of its key in a
mapping, the ranges lie inside an outer one, and the lines are in their order. -/
structure Locates (d : Document) (b : Block) (outer : Range) (mapping : Option Yaml.Value)
    (ps : List Parameter) : Prop where
  points : ∀ p ∈ ps, ∃ n, (d.line n, n) ∈ b.numbered ∧ p.PointsInto n (d.line n)
  value : ∀ p ∈ ps, mapping.bind (·.get? p.key) = some p.value
  inside : ∀ p ∈ ps, ∀ r ∈ p.ranges, d.Fits r ∧ r.Inside outer
  increasing : ps.Pairwise fun p q => p.lineRange.start.line < q.lineRange.start.line

/-- A step of a block: its parameters and its type lie inside it, and it lies inside the content. -/
structure LocatesStep (d : Document) (b : Block) (i : Nat) (t : Step) : Prop where
  parameters : d.Locates b t.range (b.stepValue? i) t.parameters
  type_inside : ∀ r ∈ t.typeRange, d.Fits r ∧ r.Inside t.range
  fits : d.Fits t.range
  inside : t.range.Inside b.contentRange

theorem locates_nil (b : Block) (outer : Range) (mapping : Option Yaml.Value) :
    d.Locates b outer mapping [] where
  points := fun _ hp => absurd hp List.not_mem_nil
  value := fun _ hp => absurd hp List.not_mem_nil
  inside := fun _ hp => absurd hp List.not_mem_nil
  increasing := List.Pairwise.nil

/-- Whatever finds parameters line by line, each where it points and with the value of its key,
locates those of all the lines. -/
theorem Numbers.locates {g : List (Line × Nat)} (hg : d.Numbers g) (hne : g ≠ []) {b : Block}
    (hb : ∀ q ∈ g, q ∈ b.numbered) {v : Yaml.Value} {find : Nat → Line → Option Parameter}
    (hfind : ∀ n l p, find n l = some p → p.PointsInto n l ∧ v.get? p.key = some p.value) :
    d.Locates b (extent g hne) (some v) (g.filterMap fun q => find q.2 q.1) := by
  have hmem : ∀ p ∈ g.filterMap fun q => find q.2 q.1, ∃ q ∈ g, find q.2 q.1 = some p :=
    fun p hp => List.mem_filterMap.mp hp
  constructor
  · intro p hp
    obtain ⟨q, hq, hp⟩ := hmem p hp
    have hline := (hg.line_eq hq).2
    refine ⟨q.2, ?_, ?_⟩
    · rw [hline]
      exact hb q hq
    · rw [hline]
      exact (hfind q.2 q.1 p hp).1
  · intro p hp
    obtain ⟨q, -, hp⟩ := hmem p hp
    exact (hfind q.2 q.1 p hp).2
  · intro p hp r hr
    obtain ⟨q, hq, hp⟩ := hmem p hp
    have hwithin := (hfind q.2 q.1 p hp).1.withinLine hr
    exact ⟨hg.fits hq hwithin, hg.inside hne hq hwithin⟩
  · refine List.pairwise_filterMap.mpr (hg.increasing.imp ?_)
    intro q q' hlt p hp p' hp'
    rw [(hfind q.2 q.1 p hp).1.whole_line, (hfind q'.2 q'.1 p' hp').1.whole_line]
    exact hlt

end Document

/-! ## Steps -/

namespace Step

theorem typeRange?_withinLine {g : List (Line × Nat)} {r : Range} (h : typeRange? g = some r) :
    ∃ q ∈ g, r.WithinLine q.2 q.1.length := by
  obtain ⟨q, hq, hr⟩ := List.exists_of_findSome?_eq_some h
  obtain ⟨start, hstart, rfl⟩ := Option.map_eq_some_iff.mp hr
  have hle := Line.stepTypeStart?_le hstart
  exact ⟨q, hq, _, _, rfl, Nat.le_add_right _ _, Line.trimmedStop_le hle⟩

/-- The step with an index is made of the group and the member with that index. -/
theorem getElem?_ofBlock {ls : List (Line × Nat)} {members : List (Option Yaml.Value)} {i : Nat}
    {t : Step} (h : (ofBlock ls members)[i]? = some t) :
    ∃ g member, (groups ls)[i]? = some g ∧ members[i]? = some member ∧ t = ofLines i g member := by
  rw [ofBlock, List.getElem?_map, List.getElem?_zipIdx] at h
  obtain ⟨q, hq, rfl⟩ := Option.map_eq_some_iff.mp h
  obtain ⟨⟨g, member⟩, hzip, rfl⟩ := Option.map_eq_some_iff.mp hq
  obtain ⟨hg, hmember⟩ := List.getElem?_zip_eq_some.mp hzip
  refine ⟨g, member, hg, hmember, ?_⟩
  rw [Nat.zero_add]

end Step

/-! ## Blocks -/

/-- The lines that a fragment is read from are those it was joined from. -/
theorem Fragment.parameters_unlines {content : List Line} (h : ∀ l ∈ content, '\n' ∉ l)
    (v : Yaml.Value) :
    parameters (Text.unlines content) v =
      content.zipIdx.filterMap fun q => parameter? v q.2 q.1 := by
  by_cases hne : content = []
  · subst hne
    rfl
  · rw [parameters, Text.lines_unlines hne h]

namespace Block

variable {d : Document} {r : Raw}

theorem value?_ofOutcome (sequenceType : String) (o : Fragment.Outcome) :
    (ofOutcome sequenceType r o).value? = o.value? := o.value?_down (r.first + 1)

theorem parameters_ofOutcome (h : ∀ l ∈ r.content, '\n' ∉ l) (sequenceType : String)
    (o : Fragment.Outcome) :
    (ofOutcome sequenceType r o).parameters =
      (o.value?.map fun v => (r.content.zipIdx (r.first + 1)).filterMap fun q =>
        Fragment.parameter? v q.2 q.1).getD [] := by
  show ((o.value?.map (Fragment.parameters (Text.unlines r.content))).getD []).map
    (·.down (r.first + 1)) = _
  cases o.value? with
  | none => rfl
  | some v =>
    rw [Option.map_some, Option.getD_some, Option.map_some, Option.getD_some,
      Fragment.parameters_unlines h, List.map_filterMap]
    conv => rhs; rw [← Nat.zero_add (r.first + 1), zipIdx_lower, List.filterMap_map]
    congr 1
    funext q
    exact (Fragment.parameter?_down v q.2 (r.first + 1) q.1).symm

theorem getElem?_steps_ofOutcome {sequenceType : String} {o : Fragment.Outcome} {i : Nat} {t : Step}
    (h : (ofOutcome sequenceType r o).steps[i]? = some t) :
    ∃ members, (o.value?.bind (·.get? "steps")).bind (·.items?) = some members ∧
      (Step.ofBlock (r.content.zipIdx (r.first + 1)) members)[i]? = some t := by
  unfold ofOutcome at h
  dsimp only at h
  split at h
  · split at h
    · next members hmembers => exact ⟨members, hmembers, h⟩
    · cases h
  · cases h

theorem stepValue?_ofOutcome (sequenceType : String) {o : Fragment.Outcome} {i : Nat}
    {members : List (Option Yaml.Value)}
    (h : (o.value?.bind (·.get? "steps")).bind (·.items?) = some members) :
    (ofOutcome sequenceType r o).stepValue? i = (members[i]?).join := by
  rw [stepValue?, value?_ofOutcome, h, Option.bind_some]

theorem contentRange_ofOutcome (hne : r.content.zipIdx (r.first + 1) ≠ []) (sequenceType : String)
    (o : Fragment.Outcome) :
    (ofOutcome sequenceType r o).contentRange = extent (r.content.zipIdx (r.first + 1)) hne :=
  (extent_zipIdx r.content (r.first + 1) hne).symm

theorem newline_not_mem (hcontent : r.content <+: d.lines.drop (r.first + 1)) {l : Line}
    (hl : l ∈ r.content) : '\n' ∉ l :=
  Text.not_mem_of_mem_splitAt (List.mem_of_mem_drop (hcontent.subset hl))

theorem numbered_ofOutcome (hcontent : r.content <+: d.lines.drop (r.first + 1))
    (hne : r.content.zipIdx (r.first + 1) ≠ []) (sequenceType : String) (o : Fragment.Outcome) :
    (ofOutcome sequenceType r o).numbered = r.content.zipIdx (r.first + 1) := by
  have hlines : r.content ≠ [] := fun hnil => hne (List.zipIdx_eq_nil_iff.mpr hnil)
  show (Text.lines (Text.unlines r.content)).zipIdx (r.first + 1) = _
  rw [Text.lines_unlines hlines fun l hl => newline_not_mem hcontent hl]

/-- A block without content starts and ends on the line after its fence, which need not exist. -/
theorem bounds_contentRange (hcontent : r.content <+: d.lines.drop (r.first + 1))
    (sequenceType : String) (o : Fragment.Outcome) :
    d.Bounds (ofOutcome sequenceType r o).contentRange := by
  by_cases hne : r.content.zipIdx (r.first + 1) = []
  · have hnil : r.content = [] := List.zipIdx_eq_nil_iff.mp hne
    refine ⟨Or.inr ⟨?_, Nat.zero_le _⟩, Nat.zero_le _, ?_⟩
    · show r.first + 1 = r.first + 1 + (r.content.length - 1)
      rw [hnil]
      rfl
    · show (r.content.getLast?.getD []).length ≤ _
      rw [hnil]
      exact Nat.zero_le _
  · rw [contentRange_ofOutcome hne]
    exact ((Document.numbers_zipIdx hcontent).fits_extent hne).toBounds

theorem locates_parameters (hcontent : r.content <+: d.lines.drop (r.first + 1))
    (sequenceType : String) (o : Fragment.Outcome) :
    d.Locates (ofOutcome sequenceType r o) (ofOutcome sequenceType r o).contentRange
      (ofOutcome sequenceType r o).value? (ofOutcome sequenceType r o).parameters := by
  rw [value?_ofOutcome, parameters_ofOutcome fun l hl => newline_not_mem hcontent hl]
  cases o.value? with
  | none => exact Document.locates_nil _ _ _
  | some v =>
    rw [Option.map_some, Option.getD_some]
    -- An empty content has no extent; its one line, the empty one, has no key.
    by_cases hne : r.content.zipIdx (r.first + 1) = []
    · rw [hne]
      exact Document.locates_nil _ _ _
    · rw [contentRange_ofOutcome hne]
      refine (Document.numbers_zipIdx hcontent).locates hne (fun q hq => ?_) fun n l p =>
        Fragment.parameter?_eq_some
      rw [numbered_ofOutcome hcontent hne]
      exact hq

theorem locatesStep (hcontent : r.content <+: d.lines.drop (r.first + 1)) {sequenceType : String}
    {o : Fragment.Outcome} {i : Nat} {t : Step}
    (h : (ofOutcome sequenceType r o).steps[i]? = some t) :
    d.LocatesStep (ofOutcome sequenceType r o) i t := by
  obtain ⟨members, hmembers, ht⟩ := getElem?_steps_ofOutcome h
  obtain ⟨g, member, hg, hmember, rfl⟩ := Step.getElem?_ofBlock ht
  have hmem := List.mem_of_getElem? hg
  have hne := Step.groups_ne_nil hmem
  have hsub := Step.sublist_of_mem_groups hmem
  have hall : r.content.zipIdx (r.first + 1) ≠ [] := by
    intro hnil
    rw [hnil] at hsub
    exact hne (List.sublist_nil.mp hsub)
  have hnumbers := Document.numbers_zipIdx hcontent
  have hgroup := hnumbers.sublist hsub
  have hvalue : (ofOutcome sequenceType r o).stepValue? i = member := by
    rw [stepValue?_ofOutcome sequenceType hmembers, hmember]
    rfl
  have hblock : ∀ q ∈ g, q ∈ (ofOutcome sequenceType r o).numbered := by
    intro q hq
    rw [numbered_ofOutcome hcontent hall]
    exact hsub.subset hq
  rw [Step.ofLines_eq i hne]
  -- The range of the step is the extent of its group, and only a mapping has parameters.
  constructor
  · show d.Locates _ (extent g hne) _ _
    rw [hvalue]
    cases member with
    | none => exact Document.locates_nil _ _ _
    | some v =>
      by_cases hv : v.isMap = true
      · rw [Option.filter_some, if_pos hv, Option.map_some, Option.getD_some]
        exact hgroup.locates hne hblock fun n l p => Step.parameter?_eq_some
      · rw [Option.filter_some, if_neg hv]
        exact Document.locates_nil _ _ _
  · intro range hrange
    obtain ⟨-, -, hrange⟩ := Option.bind_eq_some_iff.mp hrange
    obtain ⟨q, hq, hwithin⟩ := Step.typeRange?_withinLine hrange
    exact ⟨hgroup.fits hq hwithin, hgroup.inside hne hq hwithin⟩
  · exact hgroup.fits_extent hne
  · rw [contentRange_ofOutcome hall]
    exact hnumbers.extent_inside hall hsub hne

theorem pairwise_steps (hcontent : r.content <+: d.lines.drop (r.first + 1)) (sequenceType : String)
    (o : Fragment.Outcome) :
    (ofOutcome sequenceType r o).steps.Pairwise fun t u =>
      Position.lt t.range.stop u.range.start := by
  refine List.pairwise_iff_getElem.mpr fun i j hi hj hij => ?_
  obtain ⟨members, hmembers, ht⟩ := getElem?_steps_ofOutcome (List.getElem?_eq_getElem hi)
  obtain ⟨members', hmembers', hu⟩ := getElem?_steps_ofOutcome (List.getElem?_eq_getElem hj)
  obtain ⟨g, member, hg, -, ht⟩ := Step.getElem?_ofBlock ht
  obtain ⟨g', member', hg', -, hu⟩ := Step.getElem?_ofBlock hu
  rw [ht, hu, Step.ofLines_eq i (Step.groups_ne_nil (List.mem_of_getElem? hg)),
    Step.ofLines_eq j (Step.groups_ne_nil (List.mem_of_getElem? hg'))]
  obtain ⟨hi', rfl⟩ := List.getElem?_eq_some_iff.mp hg
  obtain ⟨hj', rfl⟩ := List.getElem?_eq_some_iff.mp hg'
  have hbefore := List.pairwise_iff_getElem.mp
    (Step.pairwise_groups (Document.numbers_zipIdx hcontent)) i j hi' hj' hij
  exact Or.inl (hbefore _ (List.getLast_mem _) _ (List.head_mem _))

end Block

/-! ## Slides -/

namespace Document

variable {limits : Limits} {d : Document} {uri content sequenceType : String} {version : Int}

theorem fits_emptyRange (d : Document) (first : Nat) : d.Fits (emptyRange d.lines first) := by
  have hpos : 0 < d.lines.length := List.length_pos_of_ne_nil (Text.splitAt_ne_nil _ _)
  have hfits : ∀ n c, n < d.lineCount → c ≤ (d.line n).length → d.Fits (Range.point n c) :=
    fun n c hn hc => ⟨⟨Position.le_refl _, hc, hc⟩, hn⟩
  unfold emptyRange
  split
  · exact hfits _ _ (show first < d.lines.length by omega) (Nat.zero_le _)
  · refine hfits _ _ (show d.lines.length - 1 < d.lines.length by omega) ?_
    rw [List.getLast?_eq_getElem?]
    exact Nat.le_refl _

/-- A slide has the range of its lines and is read from them, or has none and is empty. -/
theorem lines_of_mem_slides (h : create limits uri version content sequenceType = .ok d) {s : Slide}
    (hs : s ∈ d.slides) :
    (∃ first, s.range = emptyRange d.lines first ∧ s.blocks = [] ∧ s.links = [] ∧
      s.directives = []) ∨
    ∃ (first : Nat) (ls : List Line) (hne : ls.zipIdx first ≠ []), ls <+: d.lines.drop first ∧
      s.range = extent (ls.zipIdx first) hne ∧
      List.Forall₂ (fun r b => Block.ofRaw limits sequenceType r = .ok b)
        (Block.scan first none ls) s.blocks ∧
      s.links = Inline.ofLines Inline.actionForm first ls ∧
      s.directives = Inline.ofLines Inline.renderForm first ls := by
  obtain ⟨i, hi⟩ := List.getElem?_of_mem hs
  obtain ⟨⟨first, beyond⟩, hspan, hslide⟩ := slide_of_getElem? h hi
  have hle : beyond ≤ d.lines.length := snd_le_of_mem_slideSpans (List.mem_of_getElem? hspan)
  rcases Nat.lt_or_ge first beyond with hlt | hge
  · right
    obtain ⟨ls, hls, -, hrange, -, hblocks, hlinks, hdirectives⟩ :=
      (slideOf_eq_ok_iff hlt).mp hslide
    have hlength : ls.length = beyond - first := by
      rw [hls, List.length_take, List.length_drop]
      omega
    have hne : ls.zipIdx first ≠ [] := by
      intro hnil
      rw [List.zipIdx_eq_nil_iff.mp hnil, List.length_nil] at hlength
      omega
    refine ⟨first, ls, hne, ?_, ?_, hblocks, hlinks, hdirectives⟩
    · rw [hls]
      exact List.take_prefix _ _
    · rw [extent_zipIdx, hrange, hlength, show first + (beyond - first - 1) = beyond - 1 by omega]
  · left
    rw [slideOf_empty hge] at hslide
    obtain rfl := Except.ok.inj hslide
    exact ⟨first, rfl, rfl, rfl, rfl⟩

theorem mem_scan_of_mem_blocks {first : Nat} {ls : List Line} {bs : List Block}
    (hblocks : List.Forall₂ (fun r b => Block.ofRaw limits sequenceType r = .ok b)
      (Block.scan first none ls) bs) {b : Block} (hb : b ∈ bs) :
    ∃ r o, r ∈ Block.scan first none ls ∧ b = Block.ofOutcome sequenceType r o := by
  obtain ⟨hlength, hget⟩ := List.forall₂_iff_get.mp hblocks
  obtain ⟨i, hi, rfl⟩ := List.getElem_of_mem hb
  have hread := hget i (by omega) hi
  obtain ⟨o, -, hb⟩ := bind_eq_ok_iff.mp hread
  exact ⟨_, o, List.get_mem _ _, (Except.ok.inj hb).symm⟩

/-- A block is read from lines that follow its fence in the deck. -/
theorem content_of_mem_blocks {first : Nat} {ls : List Line} {bs : List Block}
    (hls : ls <+: d.lines.drop first)
    (hblocks : List.Forall₂ (fun r b => Block.ofRaw limits sequenceType r = .ok b)
      (Block.scan first none ls) bs) {b : Block} (hb : b ∈ bs) :
    ∃ r o, b = Block.ofOutcome sequenceType r o ∧ r.content <+: d.lines.drop (r.first + 1) := by
  obtain ⟨r, o, hr, hbr⟩ := mem_scan_of_mem_blocks hblocks hb
  exact ⟨r, o, hbr, (Block.mem_scan hls hr).2.2⟩

theorem inside_of_mem_ofLines {f : Inline.Form} {first : Nat} {ls : List Line} {link : Inline}
    (hls : ls <+: d.lines.drop first) (hne : ls.zipIdx first ≠ [])
    (h : link ∈ Inline.ofLines f first ls) :
    d.Fits link.range ∧ link.range.Inside (extent (ls.zipIdx first) hne) := by
  obtain ⟨q, hq, hlink⟩ := List.mem_flatMap.mp h
  have hwithin := Inline.withinLine_of_mem_ofLine hlink
  exact ⟨(numbers_zipIdx hls).fits hq hwithin, (numbers_zipIdx hls).inside hne hq hwithin⟩

/-- Every range of a deck that was read points at the text it claims.  The parameters of a block
point into lines of its content, those of a step into lines of the step; steps follow each other
inside the content; and links and directives lie inside their slide. -/
theorem create_located (h : create limits uri version content sequenceType = .ok d) {s : Slide}
    (hs : s ∈ d.slides) :
    (∀ b ∈ s.blocks,
      d.Locates b b.contentRange b.value? b.parameters ∧
      (∀ (i : Nat) (t : Step), b.steps[i]? = some t → d.LocatesStep b i t) ∧
      b.steps.Pairwise (fun t u => Position.lt t.range.stop u.range.start) ∧
      d.Bounds b.contentRange) ∧
    (∀ link ∈ s.links ++ s.directives, d.Fits link.range ∧ link.range.Inside s.range) ∧
    d.Fits s.range := by
  rcases lines_of_mem_slides h hs with
    ⟨first, hrange, hblocks, hlinks, hdirectives⟩ |
    ⟨first, ls, hne, hls, hrange, hblocks, hlinks, hdirectives⟩
  · rw [hblocks, hlinks, hdirectives, hrange]
    exact ⟨fun _ hb => absurd hb List.not_mem_nil, fun _ hl => absurd hl List.not_mem_nil,
      fits_emptyRange d first⟩
  · refine ⟨fun b hb => ?_, fun link hlink => ?_, ?_⟩
    · obtain ⟨r, o, rfl, hcontent⟩ := content_of_mem_blocks hls hblocks hb
      exact ⟨Block.locates_parameters hcontent sequenceType o,
        fun i t => Block.locatesStep hcontent, Block.pairwise_steps hcontent sequenceType o,
        Block.bounds_contentRange hcontent sequenceType o⟩
    · rw [hrange]
      rw [hlinks, hdirectives] at hlink
      rcases List.mem_append.mp hlink with hlink | hlink
      · exact inside_of_mem_ofLines hls hne hlink
      · exact inside_of_mem_ofLines hls hne hlink
    · rw [hrange]
      exact (numbers_zipIdx hls).fits_extent hne

/-- A block of two steps, with a blank before a colon, a colon in a value and a key without a value,
after a line with a link. -/
def stepsDeck : String :=
  "[go](action:run)\n" ++ "\x60\x60\x60action\ntype : sequence\nsteps:\n" ++
    "  - type: file.open\n    path:  a:b \n  - type: wait\n    note:\n" ++ "\x60\x60\x60"

theorem create_located_steps :
    ∃ d, create .usual "a" 1 stepsDeck "sequence" = .ok d ∧ ∃ s ∈ d.slides, s.links.length = 1 ∧
      ∃ b ∈ s.blocks, b.parameters.length = 2 ∧ b.steps.length = 2 ∧
        d.Locates b b.contentRange b.value? b.parameters ∧
        (∀ (i : Nat) (t : Step), b.steps[i]? = some t → d.LocatesStep b i t) := by
  obtain ⟨d, hd, hcheck⟩ := exists_eq_ok_of_any
    (x := create .usual "a" 1 stepsDeck "sequence")
    (p := fun d => d.slides.any fun s => s.links.length == 1 && s.blocks.any fun b =>
      b.parameters.length == 2 && b.steps.length == 2) (by decide +kernel)
  obtain ⟨s, hs, hcheck⟩ := List.any_eq_true.mp hcheck
  rw [Bool.and_eq_true, List.any_eq_true] at hcheck
  obtain ⟨hlinks, b, hb, hcheck⟩ := hcheck
  rw [Bool.and_eq_true] at hcheck
  obtain ⟨hparameters, hsteps⟩ := hcheck
  obtain ⟨hlocates, hlocatesStep, -⟩ := (create_located hd hs).1 b hb
  exact ⟨d, hd, s, hs, eq_of_beq hlinks, b, hb, eq_of_beq hparameters, eq_of_beq hsteps, hlocates,
    hlocatesStep⟩

end Document
end TalkDeck
