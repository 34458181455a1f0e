import TalkDeck.Catalog.Standard
import TalkDeck.Definition
import TalkDeck.Proofs.QuickFix.Step

/-
What a definition follows.

A definition starts from the ranges of the parameters, and goes on with their values: the value of a
parameter is the one that its key has in the mapping, and nothing ties it to the text in the range.  A
line that only looks like a key of the block, as one in a list at the left edge, has the range of its
own text and the value of another (`not_follows_listPath`).  `locate_cases` says where a location comes
from, and the theorem this file exists for is `locate_follows`: in a block in block style the text of a
path is followed (`Block.Written.text_eq`).
-/

namespace TalkDeck

open Yaml Layout

/-! ## Texts of fields -/

theorem Yaml.Value.Holds.text_eq {v : Value} {t : List Char} (h : v.Holds (.scalar t))
    (htag : Scalar.tagOf t = Tag.str) (limits : Limits) : v.text limits = .ok (String.ofList t) := by
  have htree : v.tree = .scalar (.str (String.ofList t)) := by
    rw [h.tree_eq, Layout.tree, Construction.ofPlain?_str htag]
    rfl
  rw [Value.text, htree]
  rfl

/-- What stands after the colon of a field is its text, or nothing. -/
theorem Yaml.Keyed.WellFormed.trim_tail {f : Keyed Layout} (h : f.WellFormed) (n : Nat) :
    f.value = .scalar (Text.trim (f.tail ++ blanks n)) ∨ Text.trim (f.tail ++ blanks n) = [] := by
  have hblank : ∀ k, Text.allBlank (blanks k) = true := by
    intro k
    rw [Text.allBlank, List.all_eq_true]
    intro c hc
    rw [List.eq_of_mem_replicate hc]
    rfl
  have hnothing : ∀ k, Text.trim (blanks k ++ blanks n) = [] := by
    intro k
    rw [← blanks_add, Text.trim, ← List.append_nil (blanks (k + n)), Line.trimLeft_blanks _ rfl]
    rfl
  obtain ⟨key, gap, v⟩ := f
  cases v with
  | scalar t =>
    show Layout.scalar t = .scalar (Text.trim ((blanks gap ++ t) ++ blanks n)) ∨
      Text.trim ((blanks gap ++ t) ++ blanks n) = []
    rcases wellFormed_scalar_iff.mp h.2.2 with rfl | ht
    · right
      rw [List.append_nil]
      exact hnothing gap
    · left
      have hhead : (t ++ blanks n).head?.any Text.isBlank = false := by
        rw [List.head?_append_of_ne_nil _ (Token.ne_nil_of_isText ht)]
        exact head?_of_isText ht
      rw [List.append_assoc, Text.trim, Line.trimLeft_blanks gap hhead,
        Text.trimRight_append_of_allBlank t (hblank n),
        Line.trimRight_eq_self (getLast?_of_isText ht)]
  | items xs => exact Or.inr (hnothing 0)
  | fields fs => exact Or.inr (hnothing 0)

theorem Document.textIn_ofSpan {d : Document} {k : Line.KeySpan} {n : Nat} (hk : k.Marks (d.line n))
    (value : Value) : d.textIn (Parameter.ofSpan k value n (d.line n)).valueRange =
      Text.trim ((d.line n).drop (k.colon + 1)) := by
  have hpoints := Parameter.pointsInto_ofSpan hk value n
  have hcolon : (Parameter.ofSpan k value n (d.line n)).colon (d.line n) = k.colon := hk.colonFrom_eq
  rw [← hcolon]
  exact hpoints.value_text

/-- A path: a word of letters, slashes and dots that is read as a text. -/
structure IsPath (w : List Char) : Prop where
  ne_nil : w ≠ []
  chars : ∀ c ∈ w, c.isAlpha = true ∨ c = '/' ∨ c = '.'
  str : Scalar.tagOf w = Tag.str

/-! ## Parameters in block style -/

namespace Block

/-- A parameter of a block or of one of its steps, with the type that says what the parameters are,
and what its value is from. -/
inductive Has (b : Block) (q : Parameter) : Option String → Option Value → Prop where
  | own (h : q ∈ b.parameters) : Has b q b.actionType b.value?
  | step {j : Nat} {t : Step} (ht : b.steps[j]? = some t) (h : q ∈ t.parameters) :
    Has b q t.actionType (b.stepValue? j)

/-- A parameter of a block in block style, with blanks behind its lines and lines of blanks among them,
or of a step whose lines are those of the member with its index. -/
inductive Written (limits : Limits) (b : Block) (q : Parameter) : Prop where
  | own {fs : List (Keyed Layout)} {ms : List Line} (h : q ∈ b.parameters)
    (readable : Readable limits fs) (spread : Spread (fieldLines 0 fs) ms)
    (text : b.text = Text.unlines ms)
  | step {form : SequenceForm} {j : Nat} {t : Step} (ht : b.steps[j]? = some t)
    (h : q ∈ t.parameters) (readable : Readable limits form.fields)
    (text : b.text = Layout.text form.fields) (aligned : form.Aligned) (flat : form.FlatAt j)

theorem Has.mem {b : Block} {q : Parameter} {type : Option String} {value : Option Value}
    (h : b.Has q type value) : q ∈ b.parameters ∨ ∃ t ∈ b.steps, q ∈ t.parameters := by
  cases h with
  | own h => exact Or.inl h
  | step ht h => exact Or.inr ⟨_, List.mem_of_getElem? ht, h⟩

end Block

namespace Document

variable {limits : Limits} {uri content seq : String} {version : Int} {d : Document} {b : Block}
  {q : Parameter}

/-- A parameter has the value of its key in a mapping. -/
theorem get?_of_has (hd : create limits uri version content seq = .ok d) (hb : b ∈ d.blocks)
    {type : Option String} {value : Option Value} (hq : b.Has q type value) :
    value.bind (·.get? q.key) = some q.value := by
  obtain ⟨r, hr, o, -, rfl⟩ := exists_raw_of_mem_blocks hd hb
  have hcontent := content_prefix_of_mem_raws hr
  cases hq with
  | own h => exact (Block.locates_parameters hcontent seq o).value q h
  | step ht h => exact (Block.locatesStep hcontent ht).parameters.value q h

/-- The value of a field whose text stands in the range of its parameter. -/
theorem text_of_field {f : Keyed Layout} (hf : f.WellFormed) {w : List Char} {value : Value} {n : Nat}
    (hvalue : value.Holds f.value) (hw : w = Text.trim (f.tail ++ blanks n)) (hpath : IsPath w)
    (limits : Limits) : value.text limits = .ok (String.ofList w) := by
  subst hw
  rcases hf.trim_tail n with hscalar | hnil
  · rw [hscalar] at hvalue
    exact hvalue.text_eq hpath.str limits
  · exact absurd hnil hpath.ne_nil

theorem get?_holds {fs : List (Keyed Layout)} {v value : Value} (hv : v.Holds (.fields fs))
    (hnodup : (fs.map (·.key)).Nodup) {f : Keyed Layout} (hf : f ∈ fs)
    (hget : v.get? (String.ofList f.key) = some value) : value.Holds f.value := by
  have hrel := hv.get?_eq f.key
  obtain ⟨fs₁, fs₂, rfl⟩ := List.append_of_mem hf
  rw [find?_key hnodup, hget] at hrel
  cases hrel with
  | some h => exact h

/-- The key found on the first line of a field, with blanks behind it: where it stands, its text, and
what comes after its colon. -/
theorem topKey?_spread {f : Keyed Layout} (hf : f.WellFormed) {m : Nat} {k : Line.KeySpan}
    (hk : Line.topKey? (f.head 0 ++ blanks m) = some k) :
    k.key (f.head 0 ++ blanks m) = String.ofList f.key ∧
      (f.head 0 ++ blanks m).drop (k.colon + 1) = f.tail ++ blanks m := by
  have hhead : f.head 0 ++ blanks m = f.key ++ ':' :: (f.tail ++ blanks m) := by
    rw [head_zero, List.append_assoc]
    rfl
  rw [hhead, Line.topKey?_key hf.2.1] at hk
  split at hk
  case isTrue =>
    obtain rfl := Option.some.inj hk
    constructor
    · rw [Line.KeySpan.key, hhead, List.drop_zero, Nat.sub_zero, List.take_left]
    · rw [hhead, ← List.drop_drop, List.drop_left]
      rfl
  case isFalse => cases hk

/-- A parameter of a block in block style is read from the line of a field. -/
theorem text_eq_of_own (hd : create limits uri version content seq = .ok d) (hb : b ∈ d.blocks)
    (hq : q ∈ b.parameters) {fs : List (Keyed Layout)} {ms : List Line} (hread : Readable limits fs)
    (hspread : Spread (fieldLines 0 fs) ms) (htext : b.text = Text.unlines ms)
    (hpath : IsPath (d.textIn q.valueRange)) :
    q.value.text limits = .ok (String.ofList (d.textIn q.valueRange)) := by
  obtain ⟨r, before, after, v, rfl, hcontent, hholds, hlength, hlines, -⟩ :=
    exists_spread hd hb hread hspread htext
  have hprefix : r.content <+: d.lines.drop (r.first + 1) := by
    rw [hlines, List.drop_left' hlength, hcontent]
    exact List.prefix_append _ _
  rw [Block.parameters_ofOutcome fun l hl => Block.newline_not_mem hprefix hl] at hq
  obtain ⟨⟨l, n⟩, hmem, hfound⟩ := List.mem_filterMap.mp hq
  have hline : d.line n = l := ((numbers_zipIdx hprefix).line_eq hmem).2
  obtain ⟨k, value, hk, rfl, hget⟩ := Fragment.exists_ofSpan hfound
  have hl : l ∈ ms := by
    rw [← hcontent]
    exact List.fst_mem_of_mem_zipIdx hmem
  obtain ⟨m, rfl | ⟨l', hl', rfl⟩⟩ := hspread.of_mem hl
  · cases m with
    | zero => cases hk
    | succ m => cases hk
  · rcases Line.mem_fieldLines_cases hread.field hl' with ⟨f, hf, rfl⟩ | ⟨m', rfl⟩
    · have hwell := hread.field f hf
      have hmarks := Line.topKey?_marks hk
      obtain ⟨hkey, hrest⟩ := topKey?_spread hwell hk
      rw [hkey] at hget
      rw [← hline] at hmarks hpath ⊢
      rw [textIn_ofSpan hmarks, hline, hrest] at hpath ⊢
      exact text_of_field hwell (get?_holds hholds hread.nodup hf hget) rfl hpath limits
    · cases hk

/-- A parameter of an aligned step with flat fields is read from the line of one of them. -/
theorem text_eq_of_step (hd : create limits uri version content seq = .ok d) (hb : b ∈ d.blocks)
    {form : SequenceForm} {j : Nat} {t : Step} (ht : b.steps[j]? = some t) (hq : q ∈ t.parameters)
    (hread : Readable limits form.fields) (htext : b.text = Layout.text form.fields)
    (haligned : form.Aligned) (hflat : form.FlatAt j) (hpath : IsPath (d.textIn q.valueRange)) :
    q.value.text limits = .ok (String.ofList (d.textIn q.valueRange)) := by
  obtain ⟨first, before, after, v, hcarries⟩ := exists_carries hd hb hread htext
  obtain ⟨ms₁, m, ms₂, w, hsteps, hj, hw, -, rfl⟩ := hcarries.exists_stepForm haligned ht
  obtain ⟨fs₁, g, fs₂, w', hrest, hword, hget, rfl⟩ :=
    (hcarries.mem_stepParameters hflat hsteps hj hw).mp hq
  have hm := SequenceForm.mem_steps hsteps
  have hg : g ∈ m.fields := List.mem_cons_of_mem _ (by rw [hrest]; simp)
  have hwell := hread.stepField hm g hg
  have hcolumn : 2 ≤ m.column form.gap := by
    have hgap := (hread.step hm).1
    have hform : 0 < form.gap := hread.stepsField.1.resolve_right nofun
    rw [StepForm.column]
    omega
  have hline : d.line (first + 1 + (form.above ms₁).length + 1 + fs₁.length) =
      g.head (m.column form.gap) := by
    have hlines := fieldLines_stepForm hsteps hrest
    rw [fieldLines_cons, List.cons_append] at hlines
    have hfs₁ : ∀ f ∈ fs₁, f.isFlat = true := fun f hf =>
      hflat.flat_rest hsteps hj f (by rw [hrest]; exact List.mem_append_left _ hf)
    rw [length_stepForm form ms₁ m hfs₁, line, hcarries.getElem?_lines hlines]
    rfl
  have hmarks : Line.KeySpan.Marks ⟨m.column form.gap, m.column form.gap + g.key.length,
      m.column form.gap + g.key.length⟩ (g.head (m.column form.gap)) :=
    Line.stepKey?_marks (by rw [Line.stepKey?_head hwell.2.1 hcolumn, if_pos hword])
  have hrest : (g.head (m.column form.gap)).drop (m.column form.gap + g.key.length + 1) =
      g.tail ++ blanks 0 := by
    rw [Keyed.head, ← List.drop_drop, ← List.drop_drop, List.drop_left' (length_blanks _),
      List.drop_left]
    exact (List.append_nil g.tail).symm
  rw [← hline] at hmarks
  have hshown := textIn_ofSpan hmarks w'
  rw [hline, hrest] at hshown
  exact text_of_field hwell (get?_holds hw (hread.stepNodup hm) hg hget) hshown hpath limits

/-- The value of a parameter in block style has the text in its range, if that is a path. -/
theorem text_eq_of_written (hd : create limits uri version content seq = .ok d) (hb : b ∈ d.blocks)
    (hq : b.Written limits q) (hpath : IsPath (d.textIn q.valueRange)) :
    q.value.text limits = .ok (String.ofList (d.textIn q.valueRange)) := by
  cases hq with
  | own h hread hspread htext => exact text_eq_of_own hd hb h hread hspread htext hpath
  | step ht h hread htext haligned hflat =>
    exact text_eq_of_step hd hb ht h hread htext haligned hflat hpath

end Document

/-- The specification of a parameter of an action type. -/
def Catalog.parameter? (c : Catalog) (type : Option String) (key : String) : Option ParameterSpec :=
  ((namedType type).bind c.spec?).bind (·.parameter? key)

namespace Definition

open Workspace

/-! ## Where a location comes from -/

/-- A failure or a result comes from one of the attempts. -/
theorem first_cases {ε α : Type} {fs : List (Unit → Except ε (Option α))} {x : Except ε (Option α)}
    (h : first fs = x) (hx : x ≠ .ok none) : ∃ f ∈ fs, f () = x := by
  induction fs with
  | nil => exact absurd h.symm hx
  | cons f fs ih =>
    rw [first] at h
    cases hf : f () with
    | error e =>
      rw [hf] at h
      exact ⟨f, List.mem_cons_self, hf.trans h⟩
    | ok found =>
      rw [hf] at h
      cases found with
      | some a => exact ⟨f, List.mem_cons_self, hf.trans h⟩
      | none =>
        obtain ⟨g, hg, hgx⟩ := ih h
        exact ⟨g, List.mem_cons_of_mem f hg, hgx⟩

variable {limits : Limits} {c : Catalog} {i : Index} {d : Document} {p : Position} {q : Parameter}
  {x : Except Failure (Option Location)}

/-- The same among parameters, of which one is under the cursor. -/
theorem ofParameters_cases {s : ActionSpec} {qs : List Parameter} (h : ofParameters limits i s p qs = x)
    (hx : x ≠ .ok none) : ∃ q ∈ qs, q.valueRange.holds p = true ∧
      ∃ spec, s.parameter? q.key = some spec ∧ target limits i spec q = x := by
  induction qs with
  | nil => exact absurd h.symm hx
  | cons q qs ih =>
    have hlater : ofParameters limits i s p qs = x → ∃ r ∈ q :: qs, r.valueRange.holds p = true ∧
        ∃ spec, s.parameter? r.key = some spec ∧ target limits i spec r = x := by
      intro h
      obtain ⟨r, hr, hfound⟩ := ih h
      exact ⟨r, List.mem_cons_of_mem q hr, hfound⟩
    rw [ofParameters] at h
    split at h
    · exact hlater h
    · next spec hspec =>
      rw [ite_eq_iff] at hspec
      obtain ⟨hholds, hspec⟩ := hspec.resolve_right fun hnone => nomatch hnone.2
      cases ht : target limits i spec q with
      | error e =>
        rw [ht] at h
        exact ⟨q, List.mem_cons_self, hholds, spec, hspec, ht.trans h⟩
      | ok found =>
        rw [ht] at h
        cases found with
        | some l => exact ⟨q, List.mem_cons_self, hholds, spec, hspec, ht.trans h⟩
        | none => exact hlater h

/-- A parameter of a block under the cursor, and the specification by which its value is followed. -/
structure Follows (limits : Limits) (c : Catalog) (i : Index) (d : Document) (p : Position)
    (b : Block) (q : Parameter) (type : Option String) (value : Option Value) (spec : ParameterSpec)
    (x : Except Failure (Option Location)) : Prop where
  block : b ∈ d.blocks
  has : b.Has q type value
  holds : q.valueRange.holds p = true
  specified : c.parameter? type q.key = some spec
  target : target limits i spec q = x

theorem ofAction_cases {range : Range} {type : Option String} {qs : List Parameter}
    (h : ofAction limits c i p range type qs = x) (hx : x ≠ .ok none) :
    ∃ q ∈ qs, q.valueRange.holds p = true ∧
      ∃ spec, c.parameter? type q.key = some spec ∧ target limits i spec q = x := by
  unfold ofAction at h
  split at h
  · exact absurd h.symm hx
  · next s hs =>
    rw [ite_eq_iff] at hs
    obtain ⟨-, hs⟩ := hs.resolve_right fun hnone => nomatch hnone.2
    obtain ⟨q, hq, hholds, spec, hspec, htarget⟩ := ofParameters_cases h hx
    exact ⟨q, hq, hholds, spec, by rw [Catalog.parameter?, hs]; exact hspec, htarget⟩

/-- The definition of what stands at a position is a parameter's, or the file of a link. -/
theorem locate_cases (h : locate limits c i d p = x) (hx : x ≠ .ok none) :
    (∃ b q type value spec, Follows limits c i d p b q type value spec x) ∨
      ∃ s ∈ d.slides, ∃ k ∈ s.links, ∃ l, ofLink i p k = some l ∧ x = .ok (some l) := by
  obtain ⟨f, hf, hfx⟩ := first_cases h hx
  obtain ⟨s, hs, hf⟩ := List.mem_flatMap.mp hf
  rcases List.mem_append.mp hf with hf | hf
  · left
    obtain ⟨b, hb, hf⟩ := List.mem_flatMap.mp hf
    have hblock : b ∈ d.blocks := List.mem_flatMap.mpr ⟨s, hs, hb⟩
    rcases List.mem_cons.mp hf with rfl | hf
    · obtain ⟨q, hq, hholds, spec, hspec, htarget⟩ := ofAction_cases hfx hx
      exact ⟨b, q, _, _, spec, hblock, .own hq, hholds, hspec, htarget⟩
    · obtain ⟨t, ht, rfl⟩ := List.mem_map.mp hf
      obtain ⟨j, hj⟩ := List.getElem?_of_mem ht
      obtain ⟨q, hq, hholds, spec, hspec, htarget⟩ := ofAction_cases hfx hx
      exact ⟨b, q, _, _, spec, hblock, .step hj hq, hholds, hspec, htarget⟩
  · right
    obtain ⟨k, hk, rfl⟩ := List.mem_map.mp hf
    subst hfx
    cases hlink : ofLink i p k with
    | none =>
      rw [hlink] at hx
      exact absurd rfl hx
    | some l => exact ⟨s, hs, k, hk, l, hlink, rfl⟩

/-! ## Paths -/

/-- What a parameter of a file refers to is the start of the file that the text of its value names. -/
theorem target_file {spec : ParameterSpec} {l : Location} (hkind : spec.completion = some .file)
    (h : target limits i spec q = .ok (some l)) :
    l.range = Range.point 0 0 ∧
      ∃ path, q.value.text limits = .ok path ∧ i.resolve? path = some l.uri := by
  unfold target at h
  rw [hkind] at h
  dsimp only at h
  cases htext : q.value.text limits with
  | error e =>
    rw [htext] at h
    cases h
  | ok path =>
    rw [htext] at h
    obtain ⟨uri, huri, rfl⟩ := Option.map_eq_some_iff.mp (Except.ok.inj h)
    exact ⟨rfl, path, rfl, (Option.filter_eq_some_iff.mp huri).1⟩

/-- **A definition follows the value of the key under the cursor.**  A location comes from a link or
from a parameter with the cursor in the range of its value.  The value of a parameter is the one of its
key in the mapping, and a file is the one that the value names; in block style, where each key of the
block stands on a line of its own and those of a step on lines of the step, it is the one that the
text in the range names. -/
theorem locate_follows {uri content seq : String} {version : Int} {l : Location}
    (hd : Document.create limits uri version content seq = .ok d)
    (hl : locate limits c i d p = .ok (some l)) :
    ((∃ s ∈ d.slides, ∃ k ∈ s.links, ofLink i p k = some l) ∨
      ∃ b q type value spec, Follows limits c i d p b q type value spec (.ok (some l))) ∧
    ∀ b q type value spec, Follows limits c i d p b q type value spec (.ok (some l)) →
      spec.completion = some .file →
        value.bind (·.get? q.key) = some q.value ∧ l.range = Range.point 0 0 ∧
        (∃ path, q.value.text limits = .ok path ∧ i.resolve? path = some l.uri) ∧
        (b.Written limits q → IsPath (d.textIn q.valueRange) →
          i.resolve? (String.ofList (d.textIn q.valueRange)) = some l.uri) := by
  constructor
  · rcases locate_cases hl nofun with hparameter | ⟨s, hs, k, hk, l', hlink, heq⟩
    · exact Or.inr hparameter
    · obtain rfl := Option.some.inj (Except.ok.inj heq)
      exact Or.inl ⟨s, hs, k, hk, hlink⟩
  · intro b q type value spec hfollows hkind
    obtain ⟨hrange, path, htext, hresolve⟩ := target_file hkind hfollows.target
    refine ⟨Document.get?_of_has hd hfollows.block hfollows.has, hrange, ⟨path, htext, hresolve⟩,
      fun hwritten hpath => ?_⟩
    have hshown := Document.text_eq_of_written hd hfollows.block hwritten hpath
    rw [htext] at hshown
    rw [← Except.ok.inj hshown]
    exact hresolve

/-- Two files of a workspace. -/
def twoFiles : Index :=
  ⟨"file:///work/", [⟨"a.py", "file:///work/a.py"⟩, ⟨"b.py", "file:///work/b.py"⟩], []⟩

theorem isPath_second : IsPath "b.py".toList := by
  have hall : "b.py".toList.all (fun c => c.isAlpha || (c == '/' || c == '.')) = true := by decide
  refine ⟨by decide, fun c hc => ?_, by decide +kernel⟩
  simpa only [Bool.or_eq_true, beq_iff_eq] using List.all_eq_true.mp hall c hc

/-- The fields of a block with a path. -/
def pathFields : List (Keyed Layout) :=
  [⟨"type".toList, 1, .scalar "file.open".toList⟩, ⟨"path".toList, 1, .scalar "b.py".toList⟩]

/-- Those fields with an empty line among them and blanks behind the last. -/
def pathDeck : String := "\x60\x60\x60action\ntype: file.open\n\npath: b.py  \n\x60\x60\x60"

/-- A parameter with a path in its range, and the location that its value leads to. -/
def leads (d : Document) (b : Block) (p : Position) (path uri : String) (q : Parameter) : Bool :=
  q.valueRange.holds p && d.textIn q.valueRange == path.toList &&
    ((Catalog.standard "sequence").parameter? b.actionType q.key).any fun spec =>
      spec.completion == some .file &&
        (target .usual twoFiles spec q).toOption.any (· == some ⟨uri, Range.point 0 0⟩)

theorem exists_follows_of_leads {b : Block} {path uri : String} (hb : b ∈ d.blocks)
    (hq : q ∈ b.parameters) (h : leads d b p path uri q = true) :
    d.textIn q.valueRange = path.toList ∧ ∃ spec, spec.completion = some .file ∧
      Follows .usual (.standard "sequence") twoFiles d p b q b.actionType b.value? spec
        (.ok (some ⟨uri, Range.point 0 0⟩)) := by
  obtain ⟨h, hspec⟩ := Bool.and_eq_true_iff.mp h
  obtain ⟨hholds, htext⟩ := Bool.and_eq_true_iff.mp h
  obtain ⟨spec, hspec, h⟩ := (Option.any_eq_true _ _).mp hspec
  obtain ⟨hkind, htarget⟩ := Bool.and_eq_true_iff.mp h
  obtain ⟨found, hfound, heq⟩ := exists_eq_ok_of_any htarget
  rw [eq_of_beq heq] at hfound
  exact ⟨eq_of_beq htext, spec, eq_of_beq hkind, hb, .own hq, hholds, hspec, hfound⟩

theorem locate_follows_path : ∃ d b q spec, Document.create .usual "a" 1 pathDeck "sequence" = .ok d ∧
    locate .usual (.standard "sequence") twoFiles d ⟨3, 7⟩ =
      .ok (some ⟨"file:///work/b.py", Range.point 0 0⟩) ∧
    Follows .usual (.standard "sequence") twoFiles d ⟨3, 7⟩ b q b.actionType b.value? spec
      (.ok (some ⟨"file:///work/b.py", Range.point 0 0⟩)) ∧
    d.textIn q.valueRange = "b.py".toList ∧
    twoFiles.resolve? (String.ofList (d.textIn q.valueRange)) = some "file:///work/b.py" := by
  obtain ⟨d, hd, hcheck⟩ := exists_eq_ok_of_any (x := Document.create .usual "a" 1 pathDeck "sequence")
    (p := fun d => (locate .usual (.standard "sequence") twoFiles d ⟨3, 7⟩).toOption.any
        (· == some ⟨"file:///work/b.py", Range.point 0 0⟩) &&
      d.blocks.any fun b => b.text == "type: file.open\n\npath: b.py  ".toList &&
        b.parameters.any (leads d b ⟨3, 7⟩ "b.py" "file:///work/b.py")) (by decide +kernel)
  obtain ⟨hlocate, hcheck⟩ := Bool.and_eq_true_iff.mp hcheck
  obtain ⟨found, hfound, heq⟩ := exists_eq_ok_of_any hlocate
  rw [eq_of_beq heq] at hfound
  obtain ⟨b, hb, hcheck⟩ := List.any_eq_true.mp hcheck
  obtain ⟨htext, hcheck⟩ := Bool.and_eq_true_iff.mp hcheck
  obtain ⟨q, hq, hleads⟩ := List.any_eq_true.mp hcheck
  obtain ⟨hshown, spec, hkind, hfollows⟩ := exists_follows_of_leads hb hq hleads
  have hpath : IsPath (d.textIn q.valueRange) := hshown ▸ isPath_second
  have hspread : Spread (fieldLines 0 pathFields)
      ["type: file.open".toList, [], "path: b.py  ".toList] := by
    have hlines : fieldLines 0 pathFields = ["type: file.open".toList, "path: b.py".toList] := by
      decide +kernel
    rw [hlines]
    exact ((Spread.nil.line _ 2).blank 0).line _ 0
  have hwritten : b.Written .usual q := by
    refine .own hq ⟨by decide +kernel, by decide +kernel⟩ hspread ?_
    rw [eq_of_beq htext]
    decide
  obtain ⟨-, -, -, hresolve⟩ := (locate_follows hd hfound).2 b q _ _ spec hfollows hkind
  exact ⟨d, b, q, spec, hd, hfound, hfollows, hshown, hresolve hwritten hpath⟩

/-- A list at the left edge, whose member has a key that the block has as well. -/
def listPathDeck : String :=
  "\x60\x60\x60action\ntype: file.open\npath: a.py\nitems:\n- path: b.py\n\x60\x60\x60"

/-- The definition of the path in the list is the file that the block names. -/
theorem not_follows_listPath : ∃ d b q spec,
    Document.create .usual "a" 1 listPathDeck "sequence" = .ok d ∧
    locate .usual (.standard "sequence") twoFiles d ⟨4, 8⟩ =
      .ok (some ⟨"file:///work/a.py", Range.point 0 0⟩) ∧
    Follows .usual (.standard "sequence") twoFiles d ⟨4, 8⟩ b q b.actionType b.value? spec
      (.ok (some ⟨"file:///work/a.py", Range.point 0 0⟩)) ∧
    spec.completion = some .file ∧ d.textIn q.valueRange = "b.py".toList ∧
    IsPath (d.textIn q.valueRange) ∧
    twoFiles.resolve? (String.ofList (d.textIn q.valueRange)) = some "file:///work/b.py" := by
  obtain ⟨d, hd, hcheck⟩ :=
    exists_eq_ok_of_any (x := Document.create .usual "a" 1 listPathDeck "sequence")
      (p := fun d => (locate .usual (.standard "sequence") twoFiles d ⟨4, 8⟩).toOption.any
          (· == some ⟨"file:///work/a.py", Range.point 0 0⟩) &&
        d.blocks.any fun b => b.parameters.any (leads d b ⟨4, 8⟩ "b.py" "file:///work/a.py"))
      (by decide +kernel)
  obtain ⟨hlocate, hcheck⟩ := Bool.and_eq_true_iff.mp hcheck
  obtain ⟨found, hfound, heq⟩ := exists_eq_ok_of_any hlocate
  rw [eq_of_beq heq] at hfound
  obtain ⟨b, hb, hcheck⟩ := List.any_eq_true.mp hcheck
  obtain ⟨q, hq, hleads⟩ := List.any_eq_true.mp hcheck
  obtain ⟨hshown, spec, hkind, hfollows⟩ := exists_follows_of_leads hb hq hleads
  refine ⟨d, b, q, spec, hd, hfound, hfollows, hkind, hshown, ?_, ?_⟩
  · rw [hshown]
    exact isPath_second
  · rw [hshown]
    decide +kernel

end Definition
end TalkDeck
