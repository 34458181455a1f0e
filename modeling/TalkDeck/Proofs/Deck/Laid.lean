import TalkDeck.Proofs.Deck.Field
import TalkDeck.Proofs.Deck.Located

/-
Blocks that hold a layout.

`Block.Lays` says that a block opens at a line, has the lines of a layout for its content and holds
their value.  A block of a deck whose text is that of a layout is such a block, and with another
layout in its place the deck is read with that one there (`exists_lays`).  The parameters of such a
block are its fields with names, each on the line of its key (`mem_parametersFrom`).
-/

namespace TalkDeck

open Yaml Layout

variable {limits : Limits} {fs gs : List (Keyed Layout)}

/-- Fields whose text is read as a mapping. -/
structure Yaml.Layout.Readable (limits : Limits) (fs : List (Keyed Layout)) : Prop where
  wellFormed : (Layout.fields fs).wellFormed = true
  shallow : (Layout.fields fs).depth ≤ limits.nesting

namespace Yaml.Layout.Readable

theorem ne_nil (h : Readable limits fs) : fs ≠ [] := (wellFormed_fields_iff.mp h.wellFormed).1

theorem nodup (h : Readable limits fs) : (fs.map (·.key)).Nodup :=
  (wellFormed_fields_iff.mp h.wellFormed).2.1

theorem field (h : Readable limits fs) : ∀ f ∈ fs, f.WellFormed :=
  (wellFormed_fields_iff.mp h.wellFormed).2.2

theorem depth_lt (h : Readable limits fs) : fieldsDepth fs < limits.nesting := by
  have hshallow := h.shallow
  rwa [depth] at hshallow

theorem newline_not_mem (h : Readable limits fs) : ∀ l ∈ fieldLines 0 fs, '\n' ∉ l := by
  intro l hl hnewline
  have hinline := inline_lines h.wellFormed 0 l (by rw [lines]; exact hl) _ hnewline
  exact absurd hinline (by decide)

theorem lines_text (h : Readable limits fs) : Text.lines (text fs) = fieldLines 0 fs :=
  Text.lines_unlines (fieldLines_ne_nil h.ne_nil 0) h.newline_not_mem

end Yaml.Layout.Readable

/-! ## One field more, less or changed -/

namespace Yaml.Layout

theorem fieldsDepth_lt_iff {n : Nat} (hn : 0 < n) :
    fieldsDepth fs < n ↔ ∀ f ∈ fs, f.value.depth < n := by
  induction fs with
  | nil => simp [fieldsDepth, hn]
  | cons f fs ih => rw [fieldsDepth, Nat.max_lt, ih, List.forall_mem_cons]

theorem itemsDepth_lt_iff {xs : List (Dashed Layout)} {n : Nat} (hn : 0 < n) :
    itemsDepth xs < n ↔ ∀ x ∈ xs, x.value.depth < n := by
  induction xs with
  | nil => simp [itemsDepth, hn]
  | cons x xs ih => rw [itemsDepth, Nat.max_lt, ih, List.forall_mem_cons]

/-- Fields that are no deeper than some of the others. -/
theorem fieldsDepth_le (h : ∀ f ∈ gs, f.isFlat = true ∨ f ∈ fs) : fieldsDepth gs ≤ fieldsDepth fs := by
  have hfs := (fieldsDepth_lt_iff (Nat.succ_pos (fieldsDepth fs))).mp (Nat.lt_succ_self _)
  refine Nat.le_of_lt_succ ((fieldsDepth_lt_iff (Nat.succ_pos _)).mpr fun f hf => ?_)
  rcases h f hf with hflat | hmem
  · obtain ⟨key, gap, value⟩ := f
    cases value with
    | scalar t => simp [depth]
    | items xs => cases hflat
    | fields fs => cases hflat
  · exact hfs f hmem

theorem readable_iff :
    Readable limits fs ↔ fs ≠ [] ∧ (fs.map (·.key)).Nodup ∧
      ∀ f ∈ fs, f.WellFormed ∧ f.value.depth < limits.nesting := by
  constructor
  · intro h
    have hdepth := h.depth_lt
    rw [fieldsDepth_lt_iff (Nat.zero_lt_of_lt hdepth)] at hdepth
    exact ⟨h.ne_nil, h.nodup, fun f hf => ⟨h.field f hf, hdepth f hf⟩⟩
  · rintro ⟨hne, hnodup, hfs⟩
    obtain ⟨f, hf⟩ := List.exists_mem_of_ne_nil fs hne
    have hpos : 0 < limits.nesting := Nat.zero_lt_of_lt (hfs f hf).2
    refine ⟨wellFormed_fields_iff.mpr ⟨hne, hnodup, fun f hf => (hfs f hf).1⟩, ?_⟩
    rw [depth]
    exact Nat.succ_le_of_lt ((fieldsDepth_lt_iff hpos).mpr fun f hf => (hfs f hf).2)

variable {f g : Keyed Layout} {k : List Char}

theorem wellFormed_of_sublist (h : (Layout.fields fs).wellFormed = true) (hsub : gs.Sublist fs)
    (hne : gs ≠ []) : (Layout.fields gs).wellFormed = true := by
  obtain ⟨-, hnodup, hfs⟩ := wellFormed_fields_iff.mp h
  exact wellFormed_fields_iff.mpr ⟨hne, hnodup.sublist (hsub.map _), fun f hf => hfs f (hsub.subset hf)⟩

theorem Readable.of_sublist (h : Readable limits fs) (hsub : gs.Sublist fs) (hne : gs ≠ []) :
    Readable limits gs := by
  obtain ⟨-, hnodup, hfs⟩ := readable_iff.mp h
  exact readable_iff.mpr ⟨hne, hnodup.sublist (hsub.map _), fun f hf => hfs f (hsub.subset hf)⟩

theorem Readable.insert (h : Readable limits (fs ++ gs)) (hf : f.WellFormed)
    (hdepth : f.value.depth < limits.nesting) (hkey : f.key ∉ (fs ++ gs).map (·.key)) :
    Readable limits (fs ++ f :: gs) := by
  obtain ⟨-, hnodup, hfs⟩ := readable_iff.mp h
  have hperm : (fs ++ f :: gs).Perm (f :: (fs ++ gs)) := List.perm_middle
  refine readable_iff.mpr ⟨by simp, ?_, fun g hg => ?_⟩
  · rw [(hperm.map _).nodup_iff, List.map_cons, List.nodup_cons]
    exact ⟨hkey, hnodup⟩
  · rcases List.mem_cons.mp (hperm.mem_iff.mp hg) with rfl | hg
    · exact ⟨hf, hdepth⟩
    · exact hfs g hg

theorem Readable.replace (h : Readable limits (fs ++ f :: gs)) (hg : g.WellFormed)
    (hdepth : g.value.depth < limits.nesting) (hkey : g.key = f.key) :
    Readable limits (fs ++ g :: gs) := by
  obtain ⟨-, hnodup, hfs⟩ := readable_iff.mp h
  refine readable_iff.mpr ⟨by simp, ?_, fun e he => ?_⟩
  · simpa only [List.map_append, List.map_cons, hkey] using hnodup
  · rcases List.mem_append.mp he with he | he
    · exact hfs e (List.mem_append_left _ he)
    · rcases List.mem_cons.mp he with rfl | he
      · exact ⟨hg, hdepth⟩
      · exact hfs e (List.mem_append_right _ (List.mem_cons_of_mem f he))

/-- A field is found by its key. -/
theorem find?_key (h : ((fs ++ f :: gs).map (·.key)).Nodup) :
    (fs ++ f :: gs).find? (·.key == f.key) = some f := by
  have hfs : fs.find? (·.key == f.key) = none := by
    rw [List.find?_eq_none]
    intro g hg heq
    rw [List.map_append, List.map_cons, List.nodup_append] at h
    exact h.2.2 g.key (List.mem_map_of_mem hg) f.key List.mem_cons_self (eq_of_beq heq)
  rw [List.find?_append, hfs, Option.none_or, List.find?_cons_of_pos (by simp)]

/-- A field makes no difference to the other keys. -/
theorem find?_of_ne (h : f.key ≠ k) :
    (fs ++ f :: gs).find? (·.key == k) = (fs ++ gs).find? (·.key == k) := by
  rw [List.find?_append, List.find?_append, List.find?_cons_of_neg (by simpa using h)]

theorem exists_append_of_find? (h : fs.find? (·.key == k) = some f) :
    f.key = k ∧ ∃ fs₁ fs₂, fs = fs₁ ++ f :: fs₂ ∧ ∀ g ∈ fs₁, g.key ≠ k := by
  obtain ⟨hkey, fs₁, fs₂, hfs, hno⟩ := List.find?_eq_some_iff_append.mp h
  refine ⟨eq_of_beq hkey, fs₁, fs₂, hfs, fun g hg heq => ?_⟩
  have hg' := hno g hg
  rw [heq] at hg'
  simp at hg'

end Yaml.Layout

/-- The lines of a layout are read as a mapping that holds it, also with blanks behind them and lines
of blanks among them. -/
theorem Fragment.read_spread (h : Readable limits fs) {ms : List Line}
    (hms : Spread (fieldLines 0 fs) ms) :
    ∃ v, Fragment.read limits (Text.unlines ms) = .ok (.mapping v) ∧ v.Holds (.fields fs) := by
  have hne : ms ≠ [] := hms.ne_nil (fieldLines_ne_nil h.ne_nil 0)
  have hloose := hms.loosens h.newline_not_mem
  rw [← newline_cons_unlines hne] at hloose
  obtain ⟨v, hread, hholds⟩ := Value.ofText_loose h.wellFormed h.shallow hloose
  refine ⟨v, ?_, hholds⟩
  have hmap := hholds.isMap
  have hnull : v.scalar? ≠ some .null := by
    rw [Value.isMap, Value.entries?] at hmap
    rw [Value.scalar?]
    cases hcell : v.cell with
    | scalar s =>
      rw [hcell] at hmap
      cases hmap
    | list _ => simp
    | pairs _ => simp
    | map _ => simp
    | set _ => simp
  rw [Fragment.read, hread]
  simp only [if_neg hnull, if_pos hmap]

theorem Line.inert_of_spread (hfs : ∀ f ∈ fs, f.WellFormed) {ms : List Line}
    (hms : Spread (fieldLines 0 fs) ms) : ∀ m ∈ ms, m.Inert := by
  intro m hm
  obtain ⟨n, rfl | ⟨l, hl, rfl⟩⟩ := hms.of_mem hm
  · exact Line.inert_blanks n
  · exact (Line.inert_fieldLines hfs l hl).append_blanks n

/-! ## Fields as parameters -/

namespace Yaml.Keyed

/-- The parameter of a field at the left edge of line `n`. -/
def parameter (f : Keyed Layout) (n : Nat) (w : Value) : Parameter :=
  Parameter.ofSpan ⟨0, f.key.length, f.key.length⟩ w n (f.head 0)

theorem key_parameter (f : Keyed Layout) (n : Nat) (w : Value) :
    (f.parameter n w).key = String.ofList f.key := by
  show String.ofList ((f.head 0).take f.key.length) = _
  rw [head_zero, List.take_left]

end Yaml.Keyed

namespace Fragment

variable {f : Keyed Layout} {v : Value} {n : Nat}

theorem parameter?_head (h : isKey f.key = true) (v : Value) (n : Nat) :
    parameter? v n (f.head 0) =
      if isName f.key then (v.get? (String.ofList f.key)).map (f.parameter n) else none := by
  rw [parameter?, Line.topKey?_head h]
  split
  · have hkey := Keyed.key_parameter f n v
    change Line.KeySpan.key _ _ = _ at hkey
    simp only [Option.bind_eq_bind, Option.bind_some, hkey]
    cases hget : v.get? (String.ofList f.key) with
    | none => rfl
    | some w =>
      have hlength : f.key.length < (f.head 0).length := by rw [head_zero]; simp
      simp only [Option.bind_some, Line.max_length_trimRight (Line.valueStart_le hlength),
        Option.map_some, Keyed.parameter, Parameter.ofSpan, hkey]
      rfl
  · rfl

/-- The parameters of fields at the left edge, the first of which stands on line `n`. -/
def parametersFrom (v : Value) (n : Nat) (fs : List (Keyed Layout)) : List Parameter :=
  ((fieldLines 0 fs).zipIdx n).filterMap fun q => parameter? v q.2 q.1

theorem parametersFrom_append (v : Value) (n : Nat) (fs gs : List (Keyed Layout)) :
    parametersFrom v n (fs ++ gs) =
      parametersFrom v n fs ++ parametersFrom v (n + (fieldLines 0 fs).length) gs := by
  rw [parametersFrom, fieldLines_append, List.zipIdx_append, List.filterMap_append]
  rfl

/-- The lines below a key have none of their own. -/
theorem parametersFrom_cons (h : f.WellFormed) (v : Value) (n : Nat) (fs : List (Keyed Layout)) :
    parametersFrom v n (f :: fs) =
      (parameter? v n (f.head 0)).toList ++ parametersFrom v (n + 1 + (f.below 0).length) fs := by
  have hbelow : ((f.below 0).zipIdx (n + 1)).filterMap (fun q => parameter? v q.2 q.1) = [] := by
    rw [List.filterMap_eq_nil_iff]
    intro q hq
    obtain ⟨m, hm⟩ := exists_space_of_mem_below h (List.fst_mem_of_mem_zipIdx hq)
    rw [hm]
    rfl
  rw [parametersFrom, fieldLines_cons, List.zipIdx_cons, List.zipIdx_append, List.filterMap_cons,
    List.filterMap_append, hbelow, List.nil_append, parametersFrom]
  cases parameter? v n (f.head 0) <;> rfl

/-- A parameter is that of a field with a name, on the line after the fields before it. -/
theorem mem_parametersFrom (h : ∀ f ∈ fs, f.WellFormed) {p : Parameter} :
    p ∈ parametersFrom v n fs ↔ ∃ fs₁ f fs₂ w, fs = fs₁ ++ f :: fs₂ ∧ isName f.key = true ∧
      v.get? (String.ofList f.key) = some w ∧
      p = f.parameter (n + (fieldLines 0 fs₁).length) w := by
  constructor
  · intro hp
    induction fs generalizing n with
    | nil =>
      rw [parametersFrom, fieldLines] at hp
      cases hp
    | cons f fs ih =>
      have hf := h f List.mem_cons_self
      rw [parametersFrom_cons hf, List.mem_append, Option.mem_toList, parameter?_head hf.2.1] at hp
      rcases hp with hp | hp
      · split at hp
        case isTrue hname =>
          obtain ⟨w, hw, rfl⟩ := Option.map_eq_some_iff.mp hp
          exact ⟨[], f, fs, w, rfl, hname, hw, by rw [fieldLines]; rfl⟩
        case isFalse => cases hp
      · obtain ⟨fs₁, g, fs₂, w, rfl, hname, hw, rfl⟩ :=
          ih (fun g hg => h g (List.mem_cons_of_mem f hg)) hp
        refine ⟨f :: fs₁, g, fs₂, w, rfl, hname, hw, ?_⟩
        rw [fieldLines_cons, List.length_cons, List.length_append]
        congr 1
        omega
  · rintro ⟨fs₁, f, fs₂, w, rfl, hname, hw, rfl⟩
    have hf := h f (List.mem_append_right _ List.mem_cons_self)
    rw [parametersFrom_append, parametersFrom_cons hf, parameter?_head hf.2.1, if_pos hname, hw]
    exact List.mem_append_right _ (List.mem_append_left _ List.mem_cons_self)

/-- The last parameter is that of the last field with a name. -/
theorem getLast?_parametersFrom {fs₁ fs₂ : List (Keyed Layout)} {w : Value}
    (h : ∀ g ∈ fs₁ ++ f :: fs₂, g.WellFormed) (hname : isName f.key = true)
    (hw : v.get? (String.ofList f.key) = some w) (hlast : ∀ g ∈ fs₂, isName g.key = false) (n : Nat) :
    (parametersFrom v n (fs₁ ++ f :: fs₂)).getLast? =
      some (f.parameter (n + (fieldLines 0 fs₁).length) w) := by
  have hf := h f (List.mem_append_right _ List.mem_cons_self)
  have hnone : ∀ m, parametersFrom v m fs₂ = [] := by
    intro m
    rw [List.eq_nil_iff_forall_not_mem]
    intro p hp
    obtain ⟨gs₁, g, gs₂, w, rfl, hname, -⟩ := (mem_parametersFrom fun g hg =>
      h g (List.mem_append_right _ (List.mem_cons_of_mem f hg))).mp hp
    rw [hlast g (List.mem_append_right _ List.mem_cons_self)] at hname
    cases hname
  rw [parametersFrom_append, parametersFrom_cons hf, parameter?_head hf.2.1, if_pos hname, hw, hnone,
    List.append_nil]
  exact List.getLast?_concat

end Fragment

namespace Block

variable {seq : String} {b : Block} {first : Nat} {v : Value}

/-- The block opens at a line, has the lines of a layout for its content, and holds their value. -/
def Lays (seq : String) (b : Block) (first : Nat) (fs : List (Keyed Layout)) (v : Value) : Prop :=
  ∃ r : Raw, r.first = first ∧ r.content = fieldLines 0 fs ∧ v.Holds (.fields fs) ∧
    b = ofOutcome seq r (.mapping v)

namespace Lays

theorem holds (h : Lays seq b first fs v) : v.Holds (.fields fs) := by
  obtain ⟨r, -, -, hholds, -⟩ := h
  exact hholds

theorem range_start (h : Lays seq b first fs v) : b.range.start = ⟨first, 0⟩ := by
  obtain ⟨r, rfl, -, -, rfl⟩ := h
  rfl

theorem value?_eq (h : Lays seq b first fs v) : b.value? = some v := by
  obtain ⟨r, -, -, -, rfl⟩ := h
  rfl

theorem error?_eq (h : Lays seq b first fs v) : b.error? = none := by
  obtain ⟨r, -, -, -, rfl⟩ := h
  rfl

theorem actionType_eq (h : Lays seq b first fs v) :
    b.actionType = (v.get? "type").bind (·.str?) := by
  obtain ⟨r, -, -, -, rfl⟩ := h
  rfl

theorem typeRange_eq (h : Lays seq b first fs v) (htype : b.actionType.isSome = true) :
    b.typeRange = typeRange? ((fieldLines 0 fs).zipIdx (first + 1)) := by
  obtain ⟨r, rfl, hcontent, -, rfl⟩ := h
  rw [← hcontent]
  exact if_pos htype

theorem contentRange_eq (h : Lays seq b first fs v) :
    b.contentRange = ⟨⟨first + 1, 0⟩, ⟨first + 1 + ((fieldLines 0 fs).length - 1),
      ((fieldLines 0 fs).getLast?.getD []).length⟩⟩ := by
  obtain ⟨r, rfl, hcontent, -, rfl⟩ := h
  rw [← hcontent]
  rfl

theorem parameters_eq (h : Lays seq b first fs v) (hfs : Readable limits fs) :
    b.parameters = Fragment.parametersFrom v (first + 1) fs := by
  obtain ⟨r, rfl, hcontent, -, rfl⟩ := h
  rw [parameters_ofOutcome (by rw [hcontent]; exact hfs.newline_not_mem), hcontent]
  rfl

theorem steps_eq (h : Lays seq b first fs v) {members : List (Option Value)}
    (htype : b.actionType = some seq) (hsteps : (v.get? "steps").bind (·.items?) = some members) :
    b.steps = Step.ofBlock ((fieldLines 0 fs).zipIdx (first + 1)) members := by
  obtain ⟨r, rfl, hcontent, -, rfl⟩ := h
  have hvalue : ((Fragment.Outcome.mapping v).value?.bind (·.get? "steps")).bind (·.items?) =
      some members := hsteps
  have htype' : ((Fragment.Outcome.mapping v).value?.bind (·.get? "type")).bind (·.str?) = some seq :=
    htype
  unfold ofOutcome
  simp only [htype', hvalue, if_true, hcontent]

end Lays
end Block

namespace Document

variable {uri content seq : String} {version : Int} {d : Document} {b : Block}

theorem content_prefix_of_mem_raws {all : List Line} {r : Block.Raw} (h : r ∈ raws all) :
    r.content <+: all.drop (r.first + 1) := by
  rw [raws_eq] at h
  obtain ⟨p, -, hr⟩ := List.mem_flatMap.mp h
  exact (Block.mem_scan (List.take_prefix _ _) hr).2.2

/-- A block with the lines of a layout and any blanks among them: the lines around it in the deck, and
what the deck is read as with those of another layout there. -/
theorem exists_spread (hd : create limits uri version content seq = .ok d) (hb : b ∈ d.blocks)
    (hfs : Readable limits fs) {ms : List Line} (hms : Spread (fieldLines 0 fs) ms)
    (htext : b.text = Text.unlines ms) :
    ∃ r before after v, b = Block.ofOutcome seq r (.mapping v) ∧ r.content = ms ∧
      v.Holds (.fields fs) ∧ before.length = r.first + 1 ∧ d.lines = before ++ (ms ++ after) ∧
      ∀ gs ns, Readable limits gs → Spread (fieldLines 0 gs) ns → ∃ d' r' v',
        create limits uri version (String.ofList (Text.unlines (before ++ (ns ++ after)))) seq =
            .ok d' ∧
          r'.first = r.first ∧ r'.content = ns ∧ v'.Holds (.fields gs) ∧
          Block.ofOutcome seq r' (.mapping v') ∈ d'.blocks := by
  obtain ⟨r, hr, o, hread, hbr⟩ := exists_raw_of_mem_blocks hd hb
  have htext' : Text.unlines r.content = Text.unlines ms := by
    rw [← htext, hbr]
    rfl
  obtain ⟨v, hread', hholds⟩ := Fragment.read_spread hfs hms
  rw [htext', hread'] at hread
  obtain rfl := Except.ok.inj hread
  have hcontent : r.content = ms := by
    have hlines := Text.lines_unlines (hms.ne_nil (fieldLines_ne_nil hfs.ne_nil 0))
      (hms.newline_not_mem hfs.newline_not_mem)
    have hne : r.content ≠ [] := by
      intro hnil
      obtain ⟨f, rest, rfl⟩ := List.exists_cons_of_ne_nil hfs.ne_nil
      obtain ⟨n, hn⟩ := hms.exists_mem (by rw [fieldLines_cons]; exact List.mem_cons_self)
      rw [← htext', hnil] at hlines
      rw [← hlines] at hn
      have hhead := List.mem_singleton.mp hn
      simp [Keyed.head] at hhead
    have hnewline : ∀ l ∈ r.content, '\n' ∉ l := fun l hl =>
      Block.newline_not_mem (content_prefix_of_mem_raws hr) hl
    rw [← Text.lines_unlines hne hnewline, htext', hlines]
  obtain ⟨before, after, hlines, hlength, hreplace⟩ := exists_replace hd hr (by
    rw [hcontent]
    exact Line.inert_of_spread hfs.field hms)
  refine ⟨r, before, after, v, hbr, hcontent, hholds, hlength, ?_, ?_⟩
  · rw [← hcontent]
    exact hlines
  · intro gs ns hgs hns
    obtain ⟨v', hread', hholds'⟩ := Fragment.read_spread hgs hns
    obtain ⟨d', hd', r', hfirst, hcontent', hmem⟩ := hreplace ns (.mapping v')
      (Line.inert_of_spread hgs.field hns) (hns.newline_not_mem hgs.newline_not_mem) hread'
    exact ⟨d', r', v', hd', hfirst, hcontent', hholds', hmem⟩

/-- A block with the text of a layout: the lines around it in the deck, and what the deck is read as
with another layout there. -/
theorem exists_lays (hd : create limits uri version content seq = .ok d) (hb : b ∈ d.blocks)
    (hfs : Readable limits fs) (htext : b.text = text fs) :
    ∃ first before after v, b.Lays seq first fs v ∧ before.length = first + 1 ∧
      d.lines = before ++ (fieldLines 0 fs ++ after) ∧
      ∀ gs, Readable limits gs → ∃ d' b' v',
        create limits uri version
            (String.ofList (Text.unlines (before ++ (fieldLines 0 gs ++ after)))) seq = .ok d' ∧
          b' ∈ d'.blocks ∧ b'.Lays seq first gs v' := by
  obtain ⟨r, before, after, v, hbr, hcontent, hholds, hlength, hlines, hreplace⟩ :=
    exists_spread hd hb hfs (.refl _) htext
  refine ⟨r.first, before, after, v, ⟨r, rfl, hcontent, hholds, hbr⟩, hlength, hlines, fun gs hgs => ?_⟩
  obtain ⟨d', r', v', hd', hfirst, hcontent', hholds', hmem⟩ := hreplace gs _ hgs (.refl _)
  exact ⟨d', _, v', hd', hmem, r', hfirst, hcontent', hholds', rfl⟩

end Document
end TalkDeck
