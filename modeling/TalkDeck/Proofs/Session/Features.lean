import TalkDeck.Completion
import TalkDeck.Hover
import TalkDeck.Proofs.Outline.Folding

/-
Where the answers to requests point.

A hover, a symbol and a fold show ranges of the deck itself (`Hover.range_mem`,
`Outline.mem_ranges_symbols`).  A completion stands on the line of the cursor, within the line or up to
the cursor (`Completion.sendable_itemsAt`), and a word typed before the cursor is no longer than the text
before it (`Completion.length_typedAt?`).
-/

namespace TalkDeck

variable {c : Catalog} {d : Document} {p : Position}

/-! ## Completion -/

namespace Line

open Text

theorem blankLead_drop_le {l : Line} {start n : Nat} {x : Char} (hx : l[n]? = some x)
    (hblank : isBlank x = false) (hstart : start ≤ n) : blankLead (l.drop start) ≤ n - start := by
  have hget : (l.drop start)[n - start]? = some x := by
    rw [List.getElem?_drop, Nat.add_sub_cancel' hstart, hx]
  generalize l.drop start = cs at hget
  generalize n - start = k at hget
  induction cs generalizing k with
  | nil => cases hget
  | cons y cs ih =>
    unfold blankLead
    by_cases hy : isBlank y = true
    · cases k with
      | zero =>
        obtain rfl := Option.some.inj hget
        rw [hblank] at hy
        cases hy
      | succ k =>
        rw [List.takeWhile_cons_of_pos hy, List.length_cons]
        exact Nat.succ_le_succ (ih k hget)
    · rw [List.takeWhile_cons_of_neg hy]
      exact Nat.zero_le k

/-- A `type:` with a blank before it is at or after the first one of the line. -/
theorem typeAfterBlank?_spec {offset n : Nat} {blankBefore : Bool} {cs : List Char}
    (h : typeAfterBlank? offset blankBefore cs = some n) :
    ∃ k m, n = offset + k ∧ cs[k + 4]? = some ':' ∧ m ≤ k ∧
      typeIndex? offset cs = some (offset + m) := by
  induction cs generalizing offset blankBefore with
  | nil => cases h
  | cons x cs ih =>
    rw [typeAfterBlank?] at h
    rw [typeIndex?]
    split at h
    · next hword =>
      obtain rfl := Option.some.inj h
      rw [Bool.and_eq_true] at hword
      obtain ⟨rest, hrest⟩ := Option.isSome_iff_exists.mp hword.2
      refine ⟨0, 0, rfl, ?_, Nat.le_refl 0, if_pos hword.2⟩
      rw [strip?_eq_some_iff.mp hrest]
      rfl
    · obtain ⟨k, m, rfl, hcolon, hle, hindex⟩ := ih h
      refine ⟨k + 1, ?_⟩
      split
      · exact ⟨0, by omega, hcolon, Nat.zero_le _, rfl⟩
      · exact ⟨m + 1, by omega, hcolon, by omega, by rw [hindex]; congr 1; omega⟩

/-- The value of an earlier `type:` starts before that of the one after a blank. -/
theorem valueStart_typeIndex_lt {l : Line} {n : Nat} (h : typeAfterBlank? 0 false l = some n)
    (hfirst : typeIndex? 0 l ≠ some n) :
    l.valueStart ((typeIndex? 0 l).getD 0 + 4) < l.valueStart (n + 4) := by
  obtain ⟨k, m, rfl, hcolon, hle, hindex⟩ := typeAfterBlank?_spec h
  rw [hindex] at hfirst ⊢
  rw [Option.getD_some, Nat.zero_add, Nat.zero_add]
  rcases Nat.lt_or_eq_of_le hle with hlt | rfl
  · have hblank : blankLead (l.drop (m + 4 + 1)) ≤ k + 4 - (m + 4 + 1) :=
      blankLead_drop_le hcolon (by decide) (by omega)
    unfold valueStart
    omega
  · exact absurd rfl hfirst

/-- The first `type:` of the line has its value no later than the one after a blank. -/
theorem valueStart_typeIndex_le {l : Line} {start : Nat} (h : l.stepTypeStart? = some start) :
    l.valueStart ((typeIndex? 0 l).getD 0 + 4) ≤ start := by
  obtain ⟨n, hn, rfl⟩ := Option.map_eq_some_iff.mp h
  by_cases hfirst : typeIndex? 0 l = some n
  · rw [hfirst]
    exact Nat.le_refl _
  · exact Nat.le_of_lt (valueStart_typeIndex_lt hn hfirst)

theorem colon_lt_of_isTypeLine {l : Line} (h : l.isTypeLine = true) : blankLead l + 4 < l.length := by
  obtain ⟨rest, hrest⟩ := Option.isSome_iff_exists.mp h
  have hlength := congrArg List.length (strip?_eq_some_iff.mp hrest)
  rw [trimLeft_eq_drop, List.length_drop, List.length_append,
    show typeWord.length = 5 from rfl] at hlength
  omega

end Line

/-- The range of what is being written. -/
def Aim.range : Aim → Range
  | .typeValue _ r => r
  | .paramName _ _ r => r
  | .paramValue _ _ _ r => r

namespace Context

open Text

variable {l : Line}

theorem withinLine_typeFrom {start shown : Nat} (hshown : shown ≤ start) (hstart : start ≤ l.length) :
    (typeFrom l p start shown).range.WithinLine p.line l.length := by
  have hlength : (trim (l.drop start)).length ≤ (l.drop start).length := by
    refine Nat.le_trans (trimRight_isPrefix _).length_le ?_
    exact (List.dropWhile_suffix isBlank).length_le
  rw [List.length_drop] at hlength
  exact ⟨shown, shown + (trim (l.drop start)).length, rfl, Nat.le_add_right _ _, by omega⟩

theorem eq_of_valueAt? {type : String} {k : Line.KeySpan} {aim : Aim}
    (h : valueAt? type l p k = some aim) :
    aim = .paramValue type (k.key l) (String.ofList (trim (k.value l)))
      (Range.onLine p.line (l.valueStart k.colon)
        (l.valueStart k.colon + (trimRight (k.value l)).length)) := by
  unfold valueAt? at h
  dsimp only at h
  split at h
  · cases h
  · exact (Option.some.inj h).symm

/-- What is being written is the value of a key, or what stands in for it. -/
theorem value_or_fallback {type : Option String} {key : Option Line.KeySpan} {existing : List String}
    {aim : Aim}
    (h : (do valueAt? (← type) l p (← key) : Option Aim).getD (fallback type existing l p) = aim) :
    aim = fallback type existing l p ∨ ∃ t k, key = some k ∧ valueAt? t l p k = some aim := by
  cases hvalue : (do valueAt? (← type) l p (← key) : Option Aim) with
  | none =>
    rw [hvalue, Option.getD_none] at h
    exact Or.inl h.symm
  | some aim' =>
    rw [hvalue, Option.getD_some] at h
    subst h
    obtain ⟨t, -, hvalue⟩ := Option.bind_eq_some_iff.mp hvalue
    obtain ⟨k, hk, hvalue⟩ := Option.bind_eq_some_iff.mp hvalue
    exact Or.inr ⟨t, k, hk, hvalue⟩

theorem withinLine_valueAt? {type : String} {k : Line.KeySpan} (hk : k.Marks l) {aim : Aim}
    (h : valueAt? type l p k = some aim) : aim.range.WithinLine p.line l.length := by
  rw [eq_of_valueAt? h]
  have hstart := Line.valueStart_le hk.colon_lt.2
  exact ⟨_, _, rfl, Nat.le_add_right _ _, Line.trimmedStop_le hstart⟩

theorem withinLine_fallback (type : Option String) (existing : List String) :
    (fallback type existing l p).range.WithinLine p.line l.length := by
  cases type with
  | none => exact ⟨0, l.length, rfl, Nat.zero_le _, Nat.le_refl _⟩
  | some t => exact ⟨0, l.length, rfl, Nat.zero_le _, Nat.le_refl _⟩

theorem withinLine_getD {type : Option String} {key : Option Line.KeySpan} {existing : List String}
    (hkey : ∀ k, key = some k → k.Marks l) :
    ((do valueAt? (← type) l p (← key) : Option Aim).getD (fallback type existing l p)).range.WithinLine
      p.line l.length := by
  rcases value_or_fallback rfl with hfallback | ⟨t, k, hk, hvalue⟩
  · rw [hfallback]
    exact withinLine_fallback type existing
  · exact withinLine_valueAt? (hkey k hk) hvalue

theorem withinLine_stepAim (s : Step) : (stepAim s l p).range.WithinLine p.line l.length := by
  unfold stepAim
  split
  · next start hstart =>
    exact withinLine_typeFrom (Line.valueStart_typeIndex_le hstart) (Line.stepTypeStart?_le hstart)
  · exact withinLine_getD fun k hk => Line.stepKey?_marks hk

theorem withinLine_blockAim (b : Block) : (blockAim b l p).range.WithinLine p.line l.length := by
  unfold blockAim
  split
  · next htype =>
    exact withinLine_typeFrom (Nat.le_refl _) (Line.valueStart_le (Line.colon_lt_of_isTypeLine htype))
  · exact withinLine_getD fun k hk => Line.keyAt?_marks hk

/-- What is being written at a position is written on its line. -/
theorem withinLine_detect {sequenceType : String} {aim : Aim}
    (h : (∃ b, detect sequenceType d p = .block b aim) ∨
      ∃ b s, detect sequenceType d p = .step b s aim) :
    aim.range.WithinLine p.line (d.line p.line).length := by
  unfold detect at h
  split at h
  · simp at h
  · next b _ =>
    dsimp only at h
    split at h
    · next s _ =>
      have haim : stepAim s (d.line p.line) p = aim := by simpa using h
      rw [← haim]
      exact withinLine_stepAim s
    · have haim : blockAim b (d.line p.line) p = aim := by simpa using h
      rw [← haim]
      exact withinLine_blockAim b

end Context

namespace Completion

open Text

variable {i : CompletionItem} {items : List CompletionItem} {range : Range}

/-- What was typed is at the end of the text. -/
theorem length_typedAt? {scheme : List Char} {inWord : Char → Bool} {cs word : List Char}
    (h : typedAt? scheme inWord cs = some word) : word.length ≤ cs.length := by
  induction cs with
  | nil => cases h
  | cons x cs ih =>
    rw [typedAt?] at h
    split at h
    · next found hfound =>
      obtain rfl := Option.some.inj h
      split at hfound
      · obtain ⟨hstrip, -⟩ := Option.filter_eq_some_iff.mp hfound
        have hlength := congrArg List.length (strip?_eq_some_iff.mp hstrip)
        have hsuffix := (List.dropWhile_suffix (· != ']') (l := cs)).length_le
        rw [List.length_append] at hlength
        rw [List.length_cons]
        omega
      · cases hfound
    · exact Nat.le_succ_of_le (ih h)

theorem range_of_mem_types {typed : String} {without : Option String}
    (h : i ∈ types c typed range without) : i.edit.range = range := by
  obtain ⟨spec, -, rfl⟩ := List.mem_map.mp h
  rfl

theorem range_of_mem_renderTypes {typed : String} (h : i ∈ renderTypes typed range) :
    i.edit.range = range := by
  obtain ⟨spec, -, rfl⟩ := List.mem_map.mp h
  rfl

theorem range_of_mem_ofAim {without : Option String} {aim : Aim} (h : ofAim c without aim = some items)
    (hi : i ∈ items) : i.edit.range = aim.range := by
  cases aim with
  | typeValue typed range =>
    obtain rfl := Option.some.inj h
    exact range_of_mem_types hi
  | paramName type existing range =>
    obtain ⟨spec, -, h⟩ := Option.bind_eq_some_iff.mp h
    dsimp only at h
    split at h
    · cases h
    · obtain rfl := Option.some.inj h
      obtain ⟨q, -, rfl⟩ := List.mem_map.mp hi
      rfl
  | paramValue type name typed range =>
    obtain ⟨spec, -, h⟩ := Option.bind_eq_some_iff.mp h
    obtain ⟨q, -, h⟩ := Option.bind_eq_some_iff.mp h
    dsimp only at h
    split at h
    · obtain rfl := Option.some.inj h
      obtain ⟨v, -, rfl⟩ := List.mem_map.mp hi
      rfl
    · split at h
      · obtain rfl := Option.some.inj h
        obtain ⟨v, -, rfl⟩ := List.mem_map.mp hi
        rfl
      · cases h

theorem sendable_itemsAt {s : Settings} (hd : d.Short) (hp : p.Sendable)
    (h : itemsAt c s d p = some items) (hi : i ∈ items) : i.edit.range.Sendable := by
  have htyped : ∀ word : List Char,
      (Range.onLine p.line (p.character - word.length) p.character).Sendable := by
    intro word
    exact Range.sendable_onLine hp.line_le (Nat.le_trans (Nat.sub_le _ _) hp.character_le)
      hp.character_le
  have haim : ∀ {aim : Aim} {without : Option String},
      aim.range.WithinLine p.line (d.line p.line).length → ofAim c without aim = some items →
        i.edit.range.Sendable := by
    intro aim without hwithin hitems
    obtain ⟨a, b, hrange, hab, hb⟩ := hwithin
    have hline := hd.length_line_le p.line
    rw [range_of_mem_ofAim hitems hi, hrange]
    exact Range.sendable_onLine hp.line_le (by omega) (by omega)
  unfold itemsAt at h
  dsimp only at h
  split at h
  · next word _ =>
    obtain rfl := Option.some.inj h
    rw [range_of_mem_types hi]
    exact htyped word
  · split at h
    · next word _ =>
      obtain rfl := Option.some.inj h
      rw [range_of_mem_renderTypes hi]
      exact htyped word
    · split at h
      · cases h
      · next b aim hdetect => exact haim (Context.withinLine_detect (Or.inl ⟨b, hdetect⟩)) h
      · next b t aim hdetect => exact haim (Context.withinLine_detect (Or.inr ⟨b, t, hdetect⟩)) h

end Completion

/-! ## Hovers -/

namespace Hover

variable {h : Hover}

theorem range_of_ofType {type : Option String} {range : Range} (hh : ofType c type range = some h) :
    h.range = range := by
  obtain ⟨t, -, hh⟩ := Option.bind_eq_some_iff.mp hh
  obtain ⟨s, -, hh⟩ := Option.bind_eq_some_iff.mp hh
  obtain rfl := Option.some.inj hh
  rfl

theorem range_of_ofParam {type : Option String} {name : String} {range : Range}
    (hh : ofParam c type name range = some h) : h.range = range := by
  obtain ⟨t, -, hh⟩ := Option.bind_eq_some_iff.mp hh
  obtain ⟨s, -, hh⟩ := Option.bind_eq_some_iff.mp hh
  obtain ⟨q, -, hh⟩ := Option.bind_eq_some_iff.mp hh
  obtain rfl := Option.some.inj hh
  rfl

theorem range_of_partAt? {type : Option String} {typeRange : Option Range} {ps : List Parameter}
    (hh : partAt? c type typeRange ps p = some (some h)) :
    typeRange = some h.range ∨ ∃ q ∈ ps, h.range ∈ q.ranges := by
  unfold partAt? at hh
  split at hh
  · next r hr =>
    obtain ⟨hr, -⟩ := Option.filter_eq_some_iff.mp hr
    rw [range_of_ofType (Option.some.inj hh)]
    exact Or.inl hr
  · obtain ⟨q, hq, hh⟩ := Option.map_eq_some_iff.mp hh
    rw [range_of_ofParam hh]
    exact Or.inr ⟨q, List.mem_of_find?_eq_some hq, List.mem_cons_self⟩

theorem range_of_inLink? {ls : List Inline} (hh : inLink? c p ls = some h) :
    ∃ l ∈ ls, h.range ∈ l.ranges := by
  induction ls with
  | nil => cases hh
  | cons l ls ih =>
    have hlater : inLink? c p ls = some h → ∃ x ∈ l :: ls, h.range ∈ x.ranges := by
      intro hh
      obtain ⟨x, hx, hrange⟩ := ih hh
      exact ⟨x, List.mem_cons_of_mem l hx, hrange⟩
    rw [inLink?] at hh
    split at hh
    · split at hh
      · rw [range_of_ofType hh]
        exact ⟨l, List.mem_cons_self, List.mem_cons_of_mem _ List.mem_cons_self⟩
      · split at hh
        · obtain rfl := Option.some.inj hh
          exact ⟨l, List.mem_cons_self, List.mem_cons_self⟩
        · exact hlater hh
    · exact hlater hh

theorem range_of_inDirective? {ls : List Inline} (hh : inDirective? p ls = some h) :
    ∃ l ∈ ls, h.range ∈ l.ranges := by
  obtain ⟨l, hl, hh⟩ := Option.bind_eq_some_iff.mp hh
  refine ⟨l, List.mem_of_find?_eq_some hl, ?_⟩
  dsimp only at hh
  split at hh
  · obtain rfl := Option.some.inj hh
    exact List.mem_cons_of_mem _ List.mem_cons_self
  · obtain rfl := Option.some.inj hh
    exact List.mem_cons_self

theorem range_of_inBlock? (hh : inBlock? c d p = some h) : ∃ b ∈ d.blocks, h.range ∈ b.ranges := by
  obtain ⟨b, hb, hh⟩ := Option.bind_eq_some_iff.mp hh
  refine ⟨b, List.mem_of_find?_eq_some hb, ?_⟩
  split at hh
  · next found hfound =>
    subst hh
    rcases range_of_partAt? hfound with hr | ⟨q, hq, hr⟩
    · exact Block.mem_ranges_of_type hr
    · exact Block.mem_ranges_of_parameter hq hr
  · rw [Option.join_eq_some_iff] at hh
    obtain ⟨t, ht, hh⟩ := List.exists_of_findSome?_eq_some hh
    refine Block.mem_ranges_of_step ht ?_
    rcases range_of_partAt? hh with hr | ⟨q, hq, hr⟩
    · exact Step.mem_ranges_of_type hr
    · exact Step.mem_ranges_of_parameter hq hr

end Hover

theorem Hover.range_mem {h : Hover} (hh : hoverAt c d p = some h) : h.range ∈ d.ranges := by
  unfold hoverAt at hh
  cases hlink : inLink? c p (d.slides.flatMap (·.links)) with
  | some found =>
    rw [hlink] at hh
    obtain rfl := Option.some.inj hh
    obtain ⟨l, hl, hrange⟩ := range_of_inLink? hlink
    obtain ⟨s, hs, hl⟩ := List.mem_flatMap.mp hl
    exact Document.mem_ranges_of_inline hs (List.mem_append_left _ hl) hrange
  | none =>
    rw [hlink] at hh
    cases hdirective : inDirective? p (d.slides.flatMap (·.directives)) with
    | some found =>
      rw [hdirective] at hh
      obtain rfl := Option.some.inj hh
      obtain ⟨l, hl, hrange⟩ := range_of_inDirective? hdirective
      obtain ⟨s, hs, hl⟩ := List.mem_flatMap.mp hl
      exact Document.mem_ranges_of_inline hs (List.mem_append_right _ hl) hrange
    | none =>
      rw [hdirective] at hh
      obtain ⟨b, hb, hrange⟩ := range_of_inBlock? hh
      exact Document.mem_ranges_of_block hb hrange

/-! ## Symbols and folds -/

def LeafSymbol.ranges (s : LeafSymbol) : List Range := [s.range, s.selection]

def MemberSymbol.ranges (m : MemberSymbol) : List Range :=
  m.toLeafSymbol.ranges ++ m.steps.flatMap (·.ranges)

def SlideSymbol.ranges (s : SlideSymbol) : List Range :=
  s.toLeafSymbol.ranges ++ s.members.flatMap (·.ranges)

namespace Outline

variable {r : Range}

/-- A symbol of something with a range and perhaps a type selects one of the two. -/
theorem mem_getD {range : Range} {typeRange : Option Range} (h : r ∈ [range, typeRange.getD range]) :
    r = range ∨ typeRange = some r := by
  rcases List.mem_pair.mp h with h | rfl
  · exact Or.inl h
  · cases typeRange with
    | none => exact Or.inl rfl
    | some t => exact Or.inr rfl

theorem mem_ranges_ofStep {t : Step} (h : r ∈ (ofStep t).ranges) : r ∈ t.ranges := by
  rcases mem_getD h with rfl | hr
  · exact List.mem_cons_self
  · exact Step.mem_ranges_of_type hr

theorem mem_ranges_ofBlock {b : Block} (h : r ∈ (ofBlock b).ranges) : r ∈ b.ranges := by
  rcases List.mem_append.mp h with h | h
  · rcases mem_getD h with rfl | hr
    · exact List.mem_cons_self
    · exact Block.mem_ranges_of_type hr
  · obtain ⟨x, hx, h⟩ := List.mem_flatMap.mp h
    obtain ⟨t, ht, rfl⟩ := List.mem_map.mp hx
    exact Block.mem_ranges_of_step ht (mem_ranges_ofStep h)

theorem mem_ranges_symbols {y : SlideSymbol} (hy : y ∈ symbols d) (h : r ∈ y.ranges) :
    r ∈ d.ranges := by
  obtain ⟨s, hs, rfl⟩ := List.mem_map.mp hy
  rcases List.mem_append.mp h with h | h
  · have hr : r = s.range := by
      rcases List.mem_pair.mp h with h | h
      · exact h
      · exact h
    rw [hr]
    exact Document.mem_ranges_of_slide hs
  · obtain ⟨m, hm, h⟩ := List.mem_flatMap.mp h
    rcases List.mem_append.mp hm with hm | hm
    · obtain ⟨b, hb, rfl⟩ := List.mem_map.mp hm
      exact Document.mem_ranges_of_block (List.mem_flatMap.mpr ⟨s, hs, hb⟩) (mem_ranges_ofBlock h)
    · obtain ⟨l, hl, rfl⟩ := List.mem_map.mp hm
      have hr : r ∈ l.ranges := by
        rcases List.mem_append.mp h with h | h
        · exact h
        · cases h
      exact Document.mem_ranges_of_inline hs (List.mem_append_right _ hl) hr

/-- An editor can be told about both lines of the fold. -/
def Fold.Sendable (f : Fold) : Prop := f.first ≤ Position.limit ∧ f.last ≤ Position.limit

theorem sendable_ofRange (h : r.Sendable) : (Fold.ofRange r).Sendable :=
  ⟨h.start.line_le, h.stop.line_le⟩

theorem sendable_folds {uri content sequenceType : String} {version : Int}
    (hd : Document.create limits uri version content sequenceType = .ok d) (hshort : d.Short) {f : Fold}
    (hf : f ∈ folds d) : f.Sendable := by
  obtain ⟨r, hfits, -, rfl⟩ := exists_range_of_mem_folds hd hf
  exact sendable_ofRange (hshort.sendable_of_fits hfits)

end Outline
end TalkDeck
