import TalkDeck.Diagnostic
import TalkDeck.Proofs.Deck.Reading

/-
The parts of a deck moved down by some lines.

Every part that keeps a range gets an operation `down k`, which adds `k` to each line number in it
and leaves all else as it is.  Reading commutes with it: a part read `k` lines further down is the
part moved down by `k`.  There is one such lemma for each function that builds a range, and the
findings about a part that was moved are its findings, moved.
-/

namespace TalkDeck

/-! ## Moving parts -/

namespace Range

theorem down_point (k line a : Nat) : (point line a).down k = point (line + k) a := rfl

theorem down_down (r : Range) (m k : Nat) : (r.down m).down k = r.down (m + k) := by
  simp only [down, Nat.add_assoc]

end Range

namespace Parameter

theorem down_down (p : Parameter) (m k : Nat) : (p.down m).down k = p.down (m + k) := by
  simp only [down, Range.down_down]

end Parameter

namespace Step

def down (k : Nat) (s : Step) : Step :=
  { s with
    range := s.range.down k
    typeRange := s.typeRange.map (·.down k)
    parameters := s.parameters.map (·.down k) }

end Step

namespace Fragment.Outcome

theorem down_down (o : Outcome) (m k : Nat) : (o.down m).down k = o.down (m + k) := by
  cases o with
  | empty => rfl
  | mapping v => rfl
  | broken e => simp only [down, ParseError.down, Range.down_down]

theorem value?_down (o : Outcome) (k : Nat) : (o.down k).value? = o.value? := by
  cases o <;> rfl

theorem error?_down (o : Outcome) (k : Nat) : (o.down k).error? = o.error?.map (·.down k) := by
  cases o <;> rfl

end Fragment.Outcome

namespace Block

def down (k : Nat) (b : Block) : Block :=
  { b with
    range := b.range.down k
    contentRange := b.contentRange.down k
    outcome := b.outcome.down k
    typeRange := b.typeRange.map (·.down k)
    parameters := b.parameters.map (·.down k)
    steps := b.steps.map (·.down k) }

def Raw.down (k : Nat) (r : Raw) : Raw := { r with first := r.first + k, last := r.last + k }

end Block

def InlineParam.down (k : Nat) (p : InlineParam) : InlineParam := { p with range := p.range.down k }

namespace Inline

def down (k : Nat) (l : Inline) : Inline :=
  { l with
    range := l.range.down k
    typeRange := l.typeRange.down k
    params := l.params.map fun p => (p.1, p.2.down k) }

end Inline

namespace Slide

/-- The slide moved down by `k` lines and by `i` slides. -/
def down (k i : Nat) (s : Slide) : Slide :=
  { s with
    index := s.index + i
    range := s.range.down k
    blocks := s.blocks.map (·.down k)
    links := s.links.map (·.down k)
    directives := s.directives.map (·.down k) }

end Slide

def Finding.down (k : Nat) (f : Finding) : Finding := { f with range := f.range.down k }

def Diagnostic.down (k : Nat) (d : Diagnostic) : Diagnostic := { d with range := d.range.down k }

/-! ## Numbered lines -/

/-- A numbered line with its number `k` further on. -/
def lower (k : Nat) (p : Line × Nat) : Line × Nat := (p.1, p.2 + k)

theorem zipIdx_lower (ls : List Line) (n k : Nat) :
    ls.zipIdx (n + k) = (ls.zipIdx n).map (lower k) := by
  rw [Nat.add_comm, ← List.map_snd_add_zipIdx_eq_zipIdx]
  rfl

/-- A range that starts somewhere on the first line that has such a place. -/
theorem findSome?_down (start? : Line → Option Nat) (ls : List (Line × Nat)) (k : Nat) :
    (ls.map (lower k)).findSome? (fun (l, n) => (start? l).map fun start =>
        Range.onLine n start (l.trimmedStop start)) =
      (ls.findSome? fun (l, n) => (start? l).map fun start =>
        Range.onLine n start (l.trimmedStop start)).map (·.down k) := by
  rw [List.findSome?_map, List.map_findSome?]
  congr 1
  funext p
  simp only [Function.comp, lower, Option.map_map]
  rfl

/-! ## Parameters and steps -/

theorem Fragment.parameter?_down (v : Yaml.Value) (n k : Nat) (l : Line) :
    parameter? v (n + k) l = (parameter? v n l).map (·.down k) := by
  unfold parameter?
  cases l.topKey? with
  | none => rfl
  | some span =>
    simp only [Option.bind_eq_bind, Option.bind_some]
    cases v.get? (span.key l) with
    | none => rfl
    | some value => rfl

namespace Step

theorem parameter?_down (v : Yaml.Value) (n k : Nat) (l : Line) :
    parameter? v (n + k) l = (parameter? v n l).map (·.down k) := by
  unfold parameter?
  cases l.stepKey? with
  | none => rfl
  | some span =>
    simp only [Option.bind_eq_bind, Option.bind_some]
    split
    · rfl
    · cases v.get? (span.key l) with
      | none => rfl
      | some value => rfl

theorem typeRange?_down (ls : List (Line × Nat)) (k : Nat) :
    typeRange? (ls.map (lower k)) = (typeRange? ls).map (·.down k) :=
  findSome?_down Line.stepTypeStart? ls k

theorem groups_down (ls : List (Line × Nat)) (k : Nat) :
    groups (ls.map (lower k)) = (groups ls).map (·.map (lower k)) := by
  induction ls with
  | nil => rfl
  | cons p ls ih =>
    obtain ⟨l, n⟩ := p
    rw [List.map_cons, lower, groups, groups]
    split
    · rw [ih, List.map_cons, List.map_cons, List.takeWhile_map]
      rfl
    · exact ih

/-- A step without lines would stay at line zero, so there has to be one. -/
theorem ofLines_down (index k : Nat) {ls : List (Line × Nat)} (h : ls ≠ [])
    (member : Option Yaml.Value) :
    ofLines index (ls.map (lower k)) member = (ofLines index ls member).down k := by
  have hmap : ls.map (lower k) ≠ [] := fun hnil => h (List.map_eq_nil_iff.mp hnil)
  have hparams : ∀ v, (ls.map (lower k)).filterMap (fun p => parameter? v p.2 p.1) =
      (ls.filterMap fun p => parameter? v p.2 p.1).map (·.down k) := by
    intro v
    rw [List.filterMap_map, List.map_filterMap]
    congr 1
    funext p
    exact parameter?_down v p.2 k p.1
  rw [ofLines_eq index hmap, ofLines_eq index h, List.head_map, List.getLast_map]
  cases member.filter (·.isMap) with
  | none => rfl
  | some v =>
    simp only [Option.bind_some, Option.map_some, Option.getD_some, typeRange?_down, hparams]
    rfl

theorem ofBlock_down (ls : List (Line × Nat)) (k : Nat) (members : List (Option Yaml.Value)) :
    ofBlock (ls.map (lower k)) members = (ofBlock ls members).map (·.down k) := by
  unfold ofBlock
  rw [groups_down, List.zip_map_left, List.zipIdx_map, List.map_map, List.map_map]
  apply List.map_congr_left
  rintro ⟨⟨g, member⟩, index⟩ hmem
  have hg : g ∈ groups ls := (List.of_mem_zip (List.fst_mem_of_mem_zipIdx hmem)).1
  exact ofLines_down index k (groups_ne_nil hg) member

end Step

/-! ## Blocks -/

namespace Block

/-- An open block started on an earlier line, so the line before the present one exists. -/
theorem scan_down (k n : Nat) (ls : List Line) (block : Option (Nat × List Line))
    (h : ∀ b ∈ block, b.1 < n) :
    scan (n + k) (block.map fun b => (b.1 + k, b.2)) ls = (scan n block ls).map (·.down k) := by
  induction ls generalizing n block with
  | nil =>
    cases block with
    | none => rfl
    | some b =>
      have hb := h b rfl
      have hlast : n + k - 1 = n - 1 + k := by omega
      simp only [Option.map_some, scan, List.map_cons, List.map_nil, Raw.down, hlast]
  | cons l ls ih =>
    have hn : n + k + 1 = n + 1 + k := by omega
    cases block with
    | none =>
      simp only [Option.map_none, scan]
      split
      · rw [hn]
        exact ih (n + 1) (some (n, [])) (by rintro b ⟨⟩; exact Nat.lt_succ_self n)
      · rw [hn]
        exact ih (n + 1) none (by rintro b ⟨⟩)
    | some b =>
      have hb := h b rfl
      simp only [Option.map_some, scan]
      split
      · rw [List.map_cons, hn]
        exact congrArg _ (ih (n + 1) none (by rintro b ⟨⟩))
      · rw [hn]
        exact ih (n + 1) (some (b.1, l :: b.2)) (by rintro b ⟨⟩; exact Nat.lt_succ_of_lt hb)

theorem typeRange?_down (ls : List (Line × Nat)) (k : Nat) :
    typeRange? (ls.map (lower k)) = (typeRange? ls).map (·.down k) :=
  findSome?_down Line.typeStart? ls k

theorem ofOutcome_down (sequenceType : String) (r : Raw) (o : Fragment.Outcome) (k : Nat) :
    ofOutcome sequenceType (r.down k) o = (ofOutcome sequenceType r o).down k := by
  have hstart : (r.down k).first + 1 = r.first + 1 + k := Nat.add_right_comm r.first k 1
  have hstop : r.first + 1 + k + (r.content.length - 1) =
      r.first + 1 + (r.content.length - 1) + k := Nat.add_right_comm _ _ _
  have hcontent : (r.down k).content = r.content := rfl
  have hls := zipIdx_lower r.content (r.first + 1) k
  unfold ofOutcome down
  simp only [hstart, hcontent, hstop, hls, typeRange?_down, Step.ofBlock_down,
    Fragment.Outcome.down_down, List.map_map]
  congr 1
  · split <;> rfl
  · apply List.map_congr_left
    intro p _
    exact (p.down_down (r.first + 1) k).symm
  · split
    · split <;> rfl
    · rfl

theorem ofRaw_down {limits : Limits} {sequenceType : String} {r : Raw} {b : Block} (k : Nat)
    (h : ofRaw limits sequenceType r = .ok b) :
    ofRaw limits sequenceType (r.down k) = .ok (b.down k) := by
  obtain ⟨o, ho, hb⟩ := bind_eq_ok_iff.mp h
  obtain rfl := Except.ok.inj hb
  exact bind_eq_ok_iff.mpr ⟨o, ho, congrArg Except.ok (ofOutcome_down sequenceType r o k)⟩

end Block

/-! ## Links -/

namespace Inline

theorem put_map {α β : Type} (f : α → β) (ps : List (String × α)) (key : String) (a : α) :
    put (ps.map fun p => (p.1, f p.2)) key (f a) = (put ps key a).map fun p => (p.1, f p.2) := by
  unfold put
  rw [List.any_map]
  simp only [Function.comp_def]
  split
  · rw [List.map_map, List.map_map]
    apply List.map_congr_left
    rintro ⟨q, b⟩ _
    simp only [Function.comp]
    split <;> rfl
  · rw [List.map_append]
    rfl

theorem paramsFrom_down (line k offset : Nat) (pieces : List (List Char))
    (ps : List (String × InlineParam)) :
    paramsFrom (line + k) offset pieces (ps.map fun p => (p.1, p.2.down k)) =
      (paramsFrom line offset pieces ps).map fun p => (p.1, p.2.down k) := by
  induction pieces generalizing offset ps with
  | nil => rfl
  | cons piece pieces ih =>
    unfold paramsFrom
    cases piece.dropWhile (· != '=') with
    | nil => exact ih _ ps
    | cons c raw =>
      by_cases hkey : (piece.takeWhile (· != '=')).isEmpty = true
      · simp only [hkey, if_true]
        exact ih _ ps
      · simp only [hkey, if_false, Bool.false_eq_true]
        rw [← ih, ← put_map (InlineParam.down k)]
        rfl

theorem ofRaw_down (f : Form) (line k offset : Nat) (r : Raw) :
    ofRaw f (line + k) offset r = (ofRaw f line offset r).down k := by
  unfold ofRaw down
  simp only [← paramsFrom_down]
  rfl

theorem ofLines_down (f : Form) (n k : Nat) (ls : List Line) :
    ofLines f (n + k) ls = (ofLines f n ls).map (·.down k) := by
  have hline : ∀ n l, ofLine f (n + k) l = (ofLine f n l).map (·.down k) := by
    intro n l
    unfold ofLine
    rw [List.map_map]
    apply List.map_congr_left
    rintro ⟨offset, r⟩ _
    exact ofRaw_down f n k offset r
  unfold ofLines
  rw [zipIdx_lower, List.flatMap_map, List.map_flatMap]
  congr 1
  funext p
  exact hline p.2 p.1

end Inline

/-! ## Slides -/

namespace Document

/-- An empty slide moves with the end of the text as well. -/
theorem emptyRange_down (before all : List Line) (first : Nat) (h : all ≠ []) :
    emptyRange (before ++ all) (first + before.length) =
      (emptyRange all first).down before.length := by
  have hpos : 0 < all.length := List.length_pos_of_ne_nil h
  have hlast : (before ++ all).getLast? = all.getLast? := List.getLast?_append_of_ne_nil before h
  have hlength : before.length + all.length - 1 = all.length - 1 + before.length := by omega
  unfold emptyRange
  rw [List.length_append, hlength, hlast]
  by_cases hfirst : first ≤ all.length - 1
  · rw [if_pos hfirst, if_pos (Nat.add_le_add_right hfirst _), Range.down_point]
  · rw [if_neg hfirst, if_neg (by omega), Range.down_point]

/-- A slide read from a deck with more lines before it is the slide moved down. -/
theorem slideOf_down {limits : Limits} {sequenceType : String} {before all : List Line}
    {index first beyond : Nat} {s : Slide} (i : Nat) (hall : all ≠ [])
    (h : slideOf limits sequenceType all index first beyond = .ok s) :
    slideOf limits sequenceType (before ++ all) (index + i) (first + before.length)
      (beyond + before.length) = .ok (s.down before.length i) := by
  rcases Nat.lt_or_ge first beyond with hlt | hge
  · obtain ⟨ls, rfl, hindex, hrange, htitle, hblocks, hlinks, hdirectives⟩ :=
      (slideOf_eq_ok_iff hlt).mp h
    have hls : ((before ++ all).drop (first + before.length)).take
        (beyond + before.length - (first + before.length)) =
        (all.drop first).take (beyond - first) := by
      rw [Nat.add_sub_add_right, Nat.add_comm first, List.drop_length_add_append]
    refine (slideOf_eq_ok_iff (Nat.add_lt_add_right hlt _)).mpr ⟨_, hls.symm, ?_⟩
    refine ⟨congrArg (· + i) hindex, ?_, htitle, ?_, ?_, ?_⟩
    · have hbeyond : beyond + before.length - 1 = beyond - 1 + before.length := by omega
      rw [hbeyond]
      exact congrArg (Range.down before.length) hrange
    · have hscan := Block.scan_down before.length first ((all.drop first).take (beyond - first))
        none (by rintro b ⟨⟩)
      rw [Option.map_none] at hscan
      rw [hscan]
      refine List.forall₂_map_left_iff.mpr (List.forall₂_map_right_iff.mpr ?_)
      exact hblocks.imp fun r b hb => Block.ofRaw_down before.length hb
    · exact (congrArg (List.map (·.down before.length)) hlinks).trans
        (Inline.ofLines_down _ _ _ _).symm
    · exact (congrArg (List.map (·.down before.length)) hdirectives).trans
        (Inline.ofLines_down _ _ _ _).symm
  · rw [slideOf_empty hge] at h
    obtain rfl := Except.ok.inj h
    rw [slideOf_empty (Nat.add_le_add_right hge _), emptyRange_down before all first hall]
    rfl

end Document

/-! ## Findings -/

theorem missingOf_down (c : Catalog) (type : String) (ps : List Parameter) (k : Nat) :
    missingOf c type (ps.map (·.down k)) = missingOf c type ps := by
  unfold missingOf
  simp only [List.any_map]
  rfl

theorem unknownOf_down (c : Catalog) (type : String) (ps : List Parameter) (k : Nat) :
    unknownOf c type (ps.map (·.down k)) = (unknownOf c type ps).map (·.down k) := by
  unfold unknownOf
  rw [List.filter_map]
  rfl

theorem Step.findings_down (c : Catalog) (s : Step) (k : Nat) :
    (s.down k).findings c = (s.findings c).map (·.down k) := by
  have htype : (s.down k).actionType = s.actionType := rfl
  have hparams : (s.down k).parameters = s.parameters.map (·.down k) := rfl
  have hplace : (s.down k).typeRange.getD (s.down k).range =
      (s.typeRange.getD s.range).down k := by
    show (s.typeRange.map (·.down k)).getD (s.range.down k) = _
    cases s.typeRange <;> rfl
  unfold findings
  rw [htype]
  cases namedType s.actionType with
  | none => rfl
  | some type =>
    simp only [hparams, hplace, missingOf_down, unknownOf_down]
    split
    · rw [List.map_append, List.map_map, List.map_map, List.map_map]
      rfl
    · rfl

namespace Block

theorem typedFindings_down (c : Catalog) (sequenceType type : String) (b : Block) (k : Nat) :
    (b.down k).typedFindings c sequenceType type =
      (b.typedFindings c sequenceType type).map (·.down k) := by
  have hparams : (b.down k).parameters = b.parameters.map (·.down k) := rfl
  have hsteps : (b.down k).steps = b.steps.map (·.down k) := rfl
  unfold typedFindings
  rw [hparams, hsteps, missingOf_down, unknownOf_down, List.map_append, List.map_append,
    List.map_map, List.map_map, List.map_map]
  congr 1
  split
  · rw [List.flatMap_map, List.map_flatMap]
    simp only [Step.findings_down]
  · rfl

theorem contentFindings_down (c : Catalog) (sequenceType : String) (b : Block) (k : Nat) :
    (b.down k).contentFindings c sequenceType =
      (b.contentFindings c sequenceType).map (·.down k) := by
  have herror : (b.down k).error? = b.error?.map (·.down k) :=
    Fragment.Outcome.error?_down b.outcome k
  have hempty : (b.down k).isEmpty = b.isEmpty := by
    have hvalue : (b.down k).value? = b.value? := Fragment.Outcome.value?_down b.outcome k
    unfold isEmpty
    rw [hvalue]
    rfl
  have htype : (b.down k).actionType = b.actionType := rfl
  have hplace : (b.down k).typeRange.getD (b.down k).contentRange =
      (b.typeRange.getD b.contentRange).down k := by
    show (b.typeRange.map (·.down k)).getD (b.contentRange.down k) = _
    cases b.typeRange <;> rfl
  unfold contentFindings
  rw [herror]
  cases b.error? with
  | some e => rfl
  | none =>
    simp only [Option.map_none, hempty, htype, hplace, typedFindings_down]
    split
    · rfl
    · split
      · rfl
      · split <;> rfl

theorem findings_down (c : Catalog) (sequenceType : String) (b : Block) (k : Nat) :
    (b.down k).findings c sequenceType = (b.findings c sequenceType).map (·.down k) := by
  unfold findings
  rw [List.map_append, contentFindings_down]
  congr 1
  show (if b.unclosed then _ else _) = _
  split <;> rfl

end Block

namespace Inline

theorem linkFindings_down (c : Catalog) (l : Inline) (k : Nat) :
    (l.down k).linkFindings c = (l.linkFindings c).map (·.down k) := by
  have htype : (l.down k).type = l.type := rfl
  have hparams : (l.down k).params = l.params.map fun p => (p.1, p.2.down k) := rfl
  unfold linkFindings
  rw [htype, hparams]
  split
  · rw [List.filter_map, List.map_map, List.map_map]
    rfl
  · rfl

theorem renderFindings_down (d : Inline) (k : Nat) :
    (d.down k).renderFindings = d.renderFindings.map (·.down k) := by
  have htype : (d.down k).type = d.type := rfl
  have hparams : (d.down k).params = d.params.map fun p => (p.1, p.2.down k) := rfl
  unfold renderFindings
  rw [htype, hparams]
  split
  · rfl
  · rw [List.filter_map, List.map_map, List.map_map]
    rfl

end Inline

/-- What is found in a slide moves with it, whatever its number. -/
theorem Slide.findings_down (c : Catalog) (sequenceType : String) (s : Slide) (k i : Nat) :
    (s.down k i).findings c sequenceType = (s.findings c sequenceType).map (·.down k) := by
  unfold findings down
  simp only [List.flatMap_map, List.map_append, List.map_flatMap, Block.findings_down,
    Inline.linkFindings_down, Inline.renderFindings_down]

end TalkDeck
