import TalkDeck.Proofs.Deck.Line
import TalkDeck.Proofs.Deck.Replace
import TalkDeck.Proofs.Yaml.Values

/-
The lines of a layout as lines of a deck.

A field is the line of its key and the lines of its value below it, which stand further in
(`fieldLines_cons`).  No such line opens or closes code or a slide (`inert_fieldLines`), only the
lines of fields at the left edge have keys there (`mem_fieldLines_cases`, `topKey?_head`), and the
first `type:` at the left edge is that of the field with this key (`typeRange?_fieldLines`).
-/

namespace TalkDeck

namespace Text

variable {p : Char → Bool} {k : List Char}

/-- A run in a key with its colon does not go beyond the key. -/
theorem takeWhile_key (hp : p ':' = false) (rest : List Char) :
    (k ++ ':' :: rest).takeWhile p = k.takeWhile p := by
  rw [List.takeWhile_append]
  split
  case isTrue hall =>
    rw [List.takeWhile_cons_of_neg (by simp [hp]), List.append_nil]
    exact (List.Sublist.eq_of_length (List.takeWhile_sublist p) hall).symm
  case isFalse => rfl

theorem drop_takeWhile_key (rest : List Char) :
    (k ++ ':' :: rest).drop (k.takeWhile p).length = k.dropWhile p ++ ':' :: rest := by
  have hk := List.takeWhile_append_dropWhile (p := p) (l := k)
  conv => lhs; rw [← hk, List.append_assoc]
  rw [hk, List.drop_left]

end Text

namespace Yaml

open Layout

namespace Layout

/-- A key that can be found in a line: a name with dots that does not open with one. -/
def isName (k : List Char) : Bool := k.head?.any Text.isWord && k.all Text.isDotted

end Layout

namespace Keyed

variable {f : Keyed Layout}

/-- What stands after the colon on the line of the key. -/
def tail (f : Keyed Layout) : List Char :=
  match f.value with
  | .scalar t => blanks f.gap ++ t
  | _ => []

/-- The line of the key, which stands in column `c`. -/
def head (c : Nat) (f : Keyed Layout) : Line := blanks c ++ (f.key ++ ':' :: f.tail)

/-- The lines of the value below the key. -/
def below (c : Nat) (f : Keyed Layout) : List Line :=
  match f.value with
  | .scalar _ => []
  | v => lines (c + f.gap) v

/-- A field that can be read. -/
def WellFormed (f : Keyed Layout) : Prop :=
  Spaced f.gap f.value ∧ isKey f.key = true ∧ f.value.wellFormed = true

/-- Whether all of the field stands on one line. -/
def isFlat (f : Keyed Layout) : Bool := f.value.isScalar

theorem below_of_isFlat (h : f.isFlat = true) (c : Nat) : f.below c = [] := by
  obtain ⟨key, gap, v⟩ := f
  cases v with
  | scalar t => rfl
  | items xs => cases h
  | fields fs => cases h

theorem mem_lines_of_mem_below {c : Nat} {l : Line} (h : l ∈ f.below c) :
    l ∈ lines (c + f.gap) f.value ∧ f.value.isScalar = false := by
  obtain ⟨key, gap, v⟩ := f
  cases v with
  | scalar t => cases h
  | items xs => exact ⟨h, rfl⟩
  | fields gs => exact ⟨h, rfl⟩

end Keyed

namespace Layout

variable {f : Keyed Layout} {fs gs : List (Keyed Layout)}

theorem fieldLines_cons (c : Nat) (f : Keyed Layout) (fs : List (Keyed Layout)) :
    fieldLines c (f :: fs) = f.head c :: (f.below c ++ fieldLines c fs) := by
  obtain ⟨key, gap, v⟩ := f
  rw [fieldLines]
  cases v <;> simp [keyed, Keyed.head, Keyed.tail, Keyed.below]

theorem mem_fieldLines_iff_head {c : Nat} {l : Line} :
    l ∈ fieldLines c fs ↔ ∃ f ∈ fs, l = f.head c ∨ l ∈ f.below c := by
  induction fs with
  | nil => simp [fieldLines]
  | cons f fs ih =>
    rw [fieldLines_cons, List.mem_cons, List.mem_append, ih, List.exists_mem_cons_iff, or_assoc]

theorem fieldLines_append (c : Nat) (fs gs : List (Keyed Layout)) :
    fieldLines c (fs ++ gs) = fieldLines c fs ++ fieldLines c gs := by
  induction fs with
  | nil => rw [fieldLines]; rfl
  | cons f fs ih =>
    rw [List.cons_append, fieldLines_cons, ih, fieldLines_cons, List.cons_append, List.append_assoc]

theorem fieldLines_cons_of_isFlat (h : f.isFlat = true) (c : Nat) (fs : List (Keyed Layout)) :
    fieldLines c (f :: fs) = f.head c :: fieldLines c fs := by
  rw [fieldLines_cons, Keyed.below_of_isFlat h, List.nil_append]

theorem fieldLines_of_isFlat (h : ∀ f ∈ fs, f.isFlat = true) (c : Nat) :
    fieldLines c fs = fs.map (·.head c) := by
  induction fs with
  | nil => rw [fieldLines]; rfl
  | cons f fs ih =>
    rw [fieldLines_cons_of_isFlat (h f List.mem_cons_self),
      ih fun g hg => h g (List.mem_cons_of_mem f hg), List.map_cons]

theorem fieldLines_ne_nil (h : fs ≠ []) (c : Nat) : fieldLines c fs ≠ [] := by
  obtain ⟨f, fs, rfl⟩ := List.exists_cons_of_ne_nil h
  rw [fieldLines_cons]
  exact List.cons_ne_nil _ _

/-- Text does not follow its key or its dash at once. -/
theorem Spaced.pos_of_isText {gap : Nat} {t : List Char} (h : Spaced gap (.scalar t))
    (ht : isText t = true) : 0 < gap :=
  h.resolve_right fun heq => Token.ne_nil_of_isText ht (Layout.scalar.inj heq)

/-! ## Lines further in -/

/-- The lines of a value in column `c` open with `c` blanks. -/
theorem exists_blanks_of_mem_lines {v : Layout} (h : v.wellFormed = true) {c : Nat} {l : Line}
    (hl : l ∈ lines c v) : ∃ m, l = blanks c ++ m := by
  induction v using induct generalizing c l with
  | scalar t =>
    rw [lines, List.mem_singleton] at hl
    exact ⟨t, hl⟩
  | items xs ih =>
    obtain ⟨-, hxs⟩ := wellFormed_items_iff.mp h
    rw [lines, mem_itemLines] at hl
    obtain ⟨x, hx, hl⟩ := hl
    rcases mem_dashed hl with hl | ⟨l', hl', rfl⟩
    · obtain ⟨m, rfl⟩ := ih x hx (hxs x hx).2 hl
      exact ⟨blanks (1 + x.gap) ++ m, by rw [Nat.add_assoc, blanks_add, List.append_assoc]⟩
    · obtain ⟨m, rfl⟩ := ih x hx (hxs x hx).2 hl'
      exact ⟨_, set_blanks c x.gap m⟩
  | fields fs ih =>
    obtain ⟨-, -, hfs⟩ := wellFormed_fields_iff.mp h
    rw [lines, mem_fieldLines_iff_head] at hl
    obtain ⟨f, hf, rfl | hl⟩ := hl
    · exact ⟨_, rfl⟩
    · obtain ⟨m, rfl⟩ := ih f hf (hfs f hf).2.2 (Keyed.mem_lines_of_mem_below hl).1
      exact ⟨blanks f.gap ++ m, by rw [blanks_add, List.append_assoc]⟩

/-- The lines below a key open with a blank. -/
theorem exists_space_of_mem_below (h : f.WellFormed) {c : Nat} {l : Line} (hl : l ∈ f.below c) :
    ∃ m, l = ' ' :: m := by
  obtain ⟨hspaced, -, hv⟩ := h
  obtain ⟨hbelow, hscalar⟩ := Keyed.mem_lines_of_mem_below hl
  have hgap : 0 < f.gap := by
    refine hspaced.resolve_right fun hnothing => ?_
    rw [hnothing] at hscalar
    cases hscalar
  obtain ⟨m, rfl⟩ := exists_blanks_of_mem_lines hv hbelow
  obtain ⟨n, hn⟩ := Nat.exists_eq_succ_of_ne_zero (Nat.ne_of_gt (Nat.lt_add_left c hgap))
  exact ⟨blanks n ++ m, by rw [hn]; rfl⟩

/-! ## The first character of a key -/

theorem exists_cons_of_key {k : List Char} (h : isKey k = true) :
    ∃ c r, k = c :: r ∧ Scanner.isIndicator c = false ∧ Text.isBlank c = false := by
  obtain ⟨c, r, rfl, hindicator, -⟩ := Token.exists_cons_of_isKey h
  exact ⟨c, r, rfl, hindicator, ((Token.isKey_iff.mp h).1 c List.mem_cons_self).2.1⟩

theorem ne_of_isIndicator {c d : Char} (hc : Scanner.isIndicator c = false)
    (hd : Scanner.isIndicator d = true) : c ≠ d := by
  rintro rfl
  rw [hd] at hc
  cases hc

theorem solid_of_isKey {k : List Char} (h : isKey k = true) :
    ∀ c ∈ k, Text.isBlank c = false ∧ c ≠ ':' := fun c hc => ((Token.isKey_iff.mp h).1 c hc).2

theorem head_zero (f : Keyed Layout) : f.head 0 = f.key ++ ':' :: f.tail := rfl

theorem exists_cons_of_head (h : isKey f.key = true) :
    ∃ c m, f.head 0 = c :: m ∧ Scanner.isIndicator c = false ∧ Text.isBlank c = false := by
  obtain ⟨c, r, hk, hc⟩ := exists_cons_of_key h
  exact ⟨c, r ++ ':' :: f.tail, by rw [head_zero, hk]; rfl, hc⟩

end Layout
end Yaml

namespace Line

open Text Yaml Layout

variable {f : Keyed Layout} {fs : List (Keyed Layout)}

/-! ## Lines that neither open nor close anything -/

theorem inert_space (m : Line) : Inert (' ' :: m) := ⟨rfl, rfl⟩

theorem inert_blanks (n : Nat) : Inert (blanks n) := by
  cases n with
  | zero => exact ⟨rfl, rfl⟩
  | succ n => exact inert_space (blanks n)

theorem isSome_strip?_append_blanks {lead : List Char} (h : ' ' ∉ lead) (l : Line) (n : Nat) :
    (strip? lead (l ++ blanks n)).isSome = (strip? lead l).isSome := by
  induction lead generalizing l with
  | nil => rfl
  | cons p ps ih =>
    obtain ⟨hp, hps⟩ := not_or.mp (mt List.mem_cons.mpr h)
    cases l with
    | nil =>
      cases n with
      | zero => rfl
      | succ n => exact congrArg Option.isSome (if_neg (Ne.symm hp))
    | cons c cs =>
      rw [List.cons_append, strip?, strip?]
      split
      · exact ih hps cs
      · rfl

/-- Blanks behind a line make no difference to what it opens or closes. -/
theorem Inert.append_blanks {l : Line} (h : Inert l) (n : Nat) : Inert (l ++ blanks n) := by
  obtain ⟨hfence, hdelimiter⟩ := h
  refine ⟨(isSome_strip?_append_blanks (by decide) l n).trans hfence, ?_⟩
  have hblank : allBlank (blanks n) = true := List.all_eq_true.mpr fun c hc => by
    rw [List.eq_of_mem_replicate hc]
    rfl
  have hrest : allBlank ((l ++ blanks n).dropWhile (· == '-')) = allBlank (l.dropWhile (· == '-')) := by
    rw [List.dropWhile_append]
    split
    case isTrue hnil =>
      rw [List.isEmpty_iff.mp hnil]
      exact List.all_eq_true.mpr fun c hc =>
        List.all_eq_true.mp hblank c ((List.dropWhile_sublist _).subset hc)
    case isFalse =>
      rw [allBlank, List.all_append]
      exact (congrArg (_ && ·) hblank).trans (Bool.and_true _)
  rw [isDelimiter, isSome_strip?_append_blanks (by decide), hrest]
  exact hdelimiter

theorem inert_head (h : isKey f.key = true) : Inert (f.head 0) := by
  obtain ⟨c, m, hhead, hindicator, -⟩ := exists_cons_of_head h
  have hquote : Char.ofNat 0x60 ≠ c := (ne_of_isIndicator hindicator (by decide)).symm
  have hdash : '-' ≠ c := (ne_of_isIndicator hindicator (by decide)).symm
  rw [hhead]
  constructor
  · simp [isFence, fence, List.replicate, strip?, hquote]
  · simp [isDelimiter, strip?, hdash]

/-- At the left edge stand the lines of the keys only. -/
theorem mem_fieldLines_cases (h : ∀ f ∈ fs, f.WellFormed) {l : Line} (hl : l ∈ fieldLines 0 fs) :
    (∃ f ∈ fs, l = f.head 0) ∨ ∃ m, l = ' ' :: m := by
  obtain ⟨f, hf, rfl | hl⟩ := mem_fieldLines_iff_head.mp hl
  · exact Or.inl ⟨f, hf, rfl⟩
  · exact Or.inr (exists_space_of_mem_below (h f hf) hl)

theorem inert_fieldLines (h : ∀ f ∈ fs, f.WellFormed) : ∀ l ∈ fieldLines 0 fs, l.Inert := by
  intro l hl
  rcases mem_fieldLines_cases h hl with ⟨f, hf, rfl⟩ | ⟨m, rfl⟩
  · exact inert_head (h f hf).2.1
  · exact inert_space m

/-! ## Keys at the left edge -/

/-- A key without blanks and its colon: it is found if it is a name. -/
theorem keyAt?_key {l : Line} {start : Nat} {k rest : List Char} (hl : l.drop start = k ++ ':' :: rest)
    (hk : ∀ c ∈ k, isBlank c = false ∧ c ≠ ':') :
    keyAt? start l = if isName k then some ⟨start, start + k.length, start + k.length⟩ else none := by
  have hcolon : isDotted ':' = false := by decide +kernel
  unfold keyAt?
  simp only [hl, takeWhile_key hcolon, drop_takeWhile_key]
  by_cases hall : k.all isDotted = true
  · have hrun : k.takeWhile isDotted = k := List.takeWhile_eq_self_iff.mpr (List.all_eq_true.mp hall)
    have hrest : k.dropWhile isDotted = [] := List.dropWhile_eq_nil_iff.mpr (List.all_eq_true.mp hall)
    have hgap : blankLead (':' :: rest) = 0 := rfl
    simp only [hrun, hrest, List.nil_append, hgap, List.drop_zero, List.head?_cons, beq_self_eq_true,
      Bool.and_true, Nat.add_zero, isName, hall]
  · -- The run ends at a character of the key, which is neither blank nor a colon.
    have hne : k.dropWhile isDotted ≠ [] := fun hnil =>
      hall (List.all_eq_true.mpr (List.dropWhile_eq_nil_iff.mp hnil))
    obtain ⟨c, r, hc⟩ := List.exists_cons_of_ne_nil hne
    obtain ⟨hblank, hcolon'⟩ := hk c ((List.dropWhile_sublist isDotted).subset (by
      rw [hc]; exact List.mem_cons_self))
    have hgap : blankLead (c :: (r ++ ':' :: rest)) = 0 := by
      rw [blankLead, List.takeWhile_cons_of_neg (by simp [hblank])]
      rfl
    have hhead : (some c == some ':') = false := by simpa using hcolon'
    simp only [hc, List.cons_append, hgap, List.drop_zero, List.head?_cons, hhead, Bool.and_false,
      isName, hall, if_false, Bool.false_eq_true]

theorem topKey?_key {k : List Char} (h : isKey k = true) (rest : List Char) :
    topKey? (k ++ ':' :: rest) = if isName k then some ⟨0, k.length, k.length⟩ else none := by
  have hline : (k ++ ':' :: rest).drop 0 = k ++ ':' :: rest := rfl
  have hkey := keyAt?_key hline (solid_of_isKey h)
  obtain ⟨c, r, rfl, hindicator, hblank⟩ := exists_cons_of_key h
  have hlead : dashLead (c :: r ++ ':' :: rest) = 0 := by
    have hzero : blankLead (c :: (r ++ ':' :: rest)) = 0 := by
      rw [blankLead, List.takeWhile_cons_of_neg (by simp [hblank])]
      rfl
    have hdash : c ≠ '-' := ne_of_isIndicator hindicator (by decide)
    rw [List.cons_append, dashLead]
    simp only [hzero, List.drop_zero]
    split
    · next heq => exact absurd (List.cons.inj heq).1 hdash
    · rfl
  have hfirst : (c :: r ++ ':' :: rest).head?.any isBlank = false := hblank
  rw [topKey?, hlead, hfirst, if_neg (by simp), hkey]
  simp only [Nat.zero_add]

theorem topKey?_head (h : isKey f.key = true) :
    (f.head 0).topKey? = if isName f.key then some ⟨0, f.key.length, f.key.length⟩ else none :=
  topKey?_key h f.tail

/-! ## The type -/

/-- Only the key `type` makes a line open with `type:`. -/
theorem strip?_typeWord {k rest : List Char} (hk : ∀ c ∈ k, c ≠ ':') (hne : k ≠ "type".toList) :
    strip? typeWord (k ++ ':' :: rest) = none := by
  rw [Option.eq_none_iff_forall_ne_some]
  intro r hr
  have hsplit := congrArg (List.takeWhile (· != ':')) (strip?_eq_some_iff.mp hr)
  have hall : k.takeWhile (· != ':') = k :=
    List.takeWhile_eq_self_iff.mpr fun c hc => by simpa using hk c hc
  rw [takeWhile_key (by decide), hall] at hsplit
  exact hne hsplit

theorem typeStart?_head (h : isKey f.key = true) (hne : f.key ≠ "type".toList) :
    (f.head 0).typeStart? = none := by
  rw [typeStart?, head_zero, strip?_typeWord (fun c hc => (solid_of_isKey h c hc).2) hne]

theorem typeStart?_space (m : Line) : typeStart? (' ' :: m) = none := rfl

theorem blankLead_blanks (n : Nat) {t : List Char} (ht : t.head?.any isBlank = false) :
    blankLead (blanks n ++ t) = n := by
  have hall : ∀ c ∈ blanks n, isBlank c = true := by
    intro c hc
    rw [List.eq_of_mem_replicate hc]
    rfl
  have hrest : t.takeWhile isBlank = [] := by
    cases t with
    | nil => rfl
    | cons c t => exact List.takeWhile_cons_of_neg (by simpa using ht)
  rw [blankLead, List.takeWhile_append_of_pos hall, hrest, List.append_nil, length_blanks]

theorem trimRight_eq_self {t : List Char} (ht : t.getLast?.any isBlank = false) : trimRight t = t := by
  cases hrev : t.reverse with
  | nil =>
    rw [List.reverse_eq_nil_iff.mp hrev]
    rfl
  | cons c r =>
    have hlast : t.getLast? = some c := by rw [List.getLast?_eq_head?_reverse, hrev]; rfl
    rw [hlast] at ht
    rw [trimRight, hrev, List.dropWhile_cons_of_neg (by simpa using ht), ← hrev,
      List.reverse_reverse]

end Line

namespace Yaml
namespace Layout

theorem head?_of_isText {t : List Char} (h : isText t = true) : t.head?.any Text.isBlank = false := by
  obtain ⟨-, -, -, hhead, -⟩ := Token.isText_iff.mp h
  cases t with
  | nil => rfl
  | cons c t => simpa using hhead

theorem getLast?_of_isText {t : List Char} (h : isText t = true) :
    t.getLast?.any Text.isBlank = false := by
  obtain ⟨-, -, -, -, hlast, -⟩ := Token.isText_iff.mp h
  cases hl : t.getLast? with
  | none => rfl
  | some c =>
    rw [hl] at hlast
    simpa using hlast

end Layout
end Yaml

namespace Line

open Text Yaml Layout

/-- Where a text after a colon begins and ends. -/
theorem value_of_isText {l : Line} {colon gap : Nat} {t : List Char} (ht : isText t = true)
    (hl : l.drop (colon + 1) = blanks gap ++ t) :
    l.valueStart colon = colon + 1 + gap ∧
      l.trimmedStop (colon + 1 + gap) = colon + 1 + gap + t.length := by
  constructor
  · rw [valueStart, hl, blankLead_blanks gap (head?_of_isText ht)]
  · rw [trimmedStop, ← List.drop_drop, hl, List.drop_left' (length_blanks gap),
      trimRight_eq_self (getLast?_of_isText ht)]

theorem typeStart?_type {gap : Nat} {t : List Char} (ht : isText t = true) :
    Line.typeStart? (Keyed.head 0 ⟨"type".toList, gap, .scalar t⟩) = some (5 + gap) := by
  have hline : Keyed.head 0 ⟨"type".toList, gap, .scalar t⟩ = typeWord ++ (blanks gap ++ t) := rfl
  have hne : (blanks gap ++ t).isEmpty = false := by
    simp [Token.ne_nil_of_isText ht]
  have hblank : allBlank (blanks gap ++ t) = false := by
    obtain ⟨c, hc⟩ : ∃ c, t.head? = some c := by
      cases t with
      | nil => cases ht
      | cons c t => exact ⟨c, rfl⟩
    have hhead := head?_of_isText ht
    rw [hc] at hhead
    rw [allBlank, List.all_eq_false]
    exact ⟨c, List.mem_append_right _ (List.mem_of_mem_head? hc), by simpa using hhead⟩
  rw [hline, typeStart?, strip?_eq_some_iff.mpr rfl]
  simp only [hne, hblank, Bool.false_eq_true, if_false]
  rw [(value_of_isText ht rfl).1]

end Line

namespace Block

open Yaml Layout

variable {fs : List (Keyed Layout)}

theorem typeRange?_eq_none (h : ∀ f ∈ fs, f.WellFormed) (hne : ∀ f ∈ fs, f.key ≠ "type".toList)
    (n : Nat) : typeRange? ((fieldLines 0 fs).zipIdx n) = none := by
  have hlines : ∀ l ∈ fieldLines 0 fs, l.typeStart? = none := by
    intro l hl
    obtain ⟨f, hf, rfl | hl⟩ := mem_fieldLines_iff_head.mp hl
    · exact Line.typeStart?_head (h f hf).2.1 (hne f hf)
    · obtain ⟨m, rfl⟩ := exists_space_of_mem_below (h f hf) hl
      exact Line.typeStart?_space m
  rw [typeRange?, List.findSome?_eq_none_iff]
  rintro ⟨l, m⟩ hq
  simp only [hlines l (List.fst_mem_of_mem_zipIdx hq), Option.map_none]

/-- The type at the left edge is that of the field with this key. -/
theorem typeRange?_fieldLines (h : ∀ f ∈ fs, f.WellFormed)
    (hne : ∀ f ∈ fs, f.key ≠ "type".toList) {gap : Nat} {t : List Char} (ht : isText t = true)
    (gs : List (Keyed Layout)) (n : Nat) :
    typeRange? ((fieldLines 0 (fs ++ ⟨"type".toList, gap, .scalar t⟩ :: gs)).zipIdx n) =
      some (Range.onLine (n + (fieldLines 0 fs).length) (5 + gap) (5 + gap + t.length)) := by
  have hfirst := typeRange?_eq_none h hne n
  rw [typeRange?] at hfirst
  have hdrop : (Keyed.head 0 ⟨"type".toList, gap, .scalar t⟩).drop (4 + 1) = blanks gap ++ t := rfl
  rw [typeRange?, fieldLines_append, List.zipIdx_append, List.findSome?_append, hfirst, fieldLines_cons,
    List.zipIdx_cons, List.findSome?_cons_of_isSome]
  all_goals simp only [Line.typeStart?_type ht, Option.map_some, Option.isSome_some,
    (Line.value_of_isText ht hdrop).2]
  rfl

end Block
end TalkDeck
