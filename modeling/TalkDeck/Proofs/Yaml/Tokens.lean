import TalkDeck.Proofs.Yaml.Signs

/-
The tokens of a layout.

By induction over a layout its lines deliver its tokens, except for the ends of the blocks that are
still open, which come with whatever is next (`Yields`).  At the end of the text all blocks are
closed, so a block's text, with any gaps in it, has the tokens of its fields between the start and the
end of the stream (`scan_loose`).
-/

namespace TalkDeck
namespace Yaml

open Token Scanner

namespace Layout

mutual

/-- The kinds of the tokens of a layout. -/
def kinds : Layout → List Token.Kind
  | .scalar t => if t.isEmpty then [] else [.scalar t true]
  | .items xs => .blockSequenceStart :: (itemKinds xs ++ [.blockEnd])
  | .fields fs => .blockMappingStart :: (fieldKinds fs ++ [.blockEnd])

def itemKinds : List (Dashed Layout) → List Token.Kind
  | [] => []
  | ⟨_, x⟩ :: xs => .blockEntry :: (kinds x ++ itemKinds xs)

def fieldKinds : List (Keyed Layout) → List Token.Kind
  | [] => []
  | ⟨key, _, v⟩ :: fs => .key :: .scalar key true :: .value :: (kinds v ++ fieldKinds fs)

end

/-! ## Where values begin -/

theorem LineEnds.isWideGap {cs : List Char} (h : LineEnds cs) : isWideGap (cs.headD nul) = true := by
  rcases h with rfl | ⟨r, rfl⟩
  · rfl
  · rfl

theorem LineEnds.flat_append (ls : List Line) {tail : List Char} (h : LineEnds tail) :
    LineEnds (flat ls ++ tail) := by
  cases ls with
  | nil => exact h
  | cons l ls => exact Or.inr ⟨_, rfl⟩

theorem lineEnds_of_tail {i : Int} {tail : List Char} (h : Tail i tail) : LineEnds tail := by
  rcases h with rfl | ⟨d, cs, rfl, -, -⟩
  · exact Or.inl rfl
  · exact Or.inr ⟨_, rfl⟩

/-- A gap stands after a dash. -/
theorem isWideGap_dash {gap : Nat} {x : Layout} (h : Spaced gap x) (c : Nat) {tail : List Char}
    (htail : LineEnds tail) : isWideGap ((blanks gap ++ (body c x ++ tail)).headD nul) = true := by
  rcases h with hpos | rfl
  · obtain ⟨gap, rfl⟩ := Nat.exists_eq_succ_of_ne_zero (Nat.ne_of_gt hpos)
    rfl
  · cases gap with
    | zero =>
      rw [body_scalar]
      exact htail.isWideGap
    | succ gap => rfl

/-- A gap stands after a colon. -/
theorem isWideGap_colon {gap : Nat} {v : Layout} (h : Spaced gap v) (hv : v.wellFormed = true)
    (c : Nat) {tail : List Char} (htail : LineEnds tail) :
    isWideGap ((after c gap v ++ tail).headD nul) = true := by
  cases v with
  | scalar t =>
    rcases h with hpos | hnone
    · obtain ⟨gap, rfl⟩ := Nat.exists_eq_succ_of_ne_zero (Nat.ne_of_gt hpos)
      rfl
    · cases hnone
      cases gap with
      | zero => exact htail.isWideGap
      | succ gap => rfl
  | items xs =>
    rw [after, flat_lines hv]
    · rfl
    · simp
  | fields fs =>
    rw [after, flat_lines hv]
    · rfl
    · simp

theorem opens_items {xs : List (Dashed Layout)} (h : (items xs).wellFormed = true) (c : Nat)
    {tail : List Char} (htail : LineEnds tail) : Opens (body c (.items xs) ++ tail) := by
  obtain ⟨hne, hxs⟩ := wellFormed_items_iff.mp h
  obtain ⟨⟨gap, x⟩, xs, rfl⟩ := List.exists_cons_of_ne_nil hne
  obtain ⟨hspaced, hx⟩ := hxs _ List.mem_cons_self
  have hgap := isWideGap_dash hspaced (c + 1 + gap) (htail.flat_append (itemLines c xs))
  rw [body_items hx, List.cons_append, List.append_assoc, List.append_assoc]
  refine ⟨⟨'-', _, rfl, by decide, by decide, by decide⟩, ?_, ?_⟩
  · intro heq
    rw [List.take_succ_cons, List.cons.injEq] at heq
    obtain ⟨d, r, hr⟩ : ∃ d r, blanks gap ++ (body (c + 1 + gap) x ++ (flat (itemLines c xs) ++ tail)) =
        d :: r := by
      refine List.exists_cons_of_ne_nil fun hnil => ?_
      rw [hnil] at heq
      cases heq.2
    rw [hr, List.take_succ_cons, List.cons.injEq] at heq
    rw [hr, List.headD_cons, heq.2.1] at hgap
    cases hgap
  · intro heq
    cases heq

theorem opens_fields {fs : List (Keyed Layout)} (hne : fs ≠ [])
    (hfs : ∀ f ∈ fs, isKey f.key = true) (c : Nat) (tail : List Char) :
    Opens (body c (.fields fs) ++ tail) := by
  obtain ⟨⟨key, gap, v⟩, fs, rfl⟩ := List.exists_cons_of_ne_nil hne
  have hkey : isKey key = true := hfs _ List.mem_cons_self
  obtain ⟨hchars, -, -, -⟩ := isKey_iff.mp hkey
  obtain ⟨a, k, rfl, hindicator, hdot⟩ := exists_cons_of_isKey hkey
  have hsign : ∀ d, isIndicator d = true → a ≠ d := by
    rintro d hd rfl
    rw [hd] at hindicator
    cases hindicator
  rw [body_fields]
  refine ⟨⟨a, _, rfl, (hchars a List.mem_cons_self).1, hsign _ (by decide), hsign _ (by decide)⟩,
    ?_, ?_⟩
  · intro heq
    exact hsign '-' (by decide) (List.cons.inj heq).1
  · intro heq
    exact hdot (List.cons.inj heq).1

/-- A token begins where a value does. -/
theorem starts_body {v : Layout} (h : v.wellFormed = true) (hv : v ≠ .scalar []) (c : Nat)
    {tail : List Char} (htail : LineEnds tail) : Starts (body c v ++ tail) := by
  cases v with
  | scalar t =>
    rw [body_scalar]
    rcases wellFormed_scalar_iff.mp h with rfl | ht
    · exact absurd rfl hv
    · exact starts_of_isText ht tail
  | items xs => exact (opens_items h c htail).first
  | fields fs =>
    obtain ⟨hne, -, hfs⟩ := wellFormed_fields_iff.mp h
    exact (opens_fields hne (fun f hf => (hfs f hf).2.1) c tail).first

theorem Tail.mono {i j : Int} {tail : List Char} (h : Tail i tail) (hij : i ≤ j) : Tail j tail := by
  rcases h with rfl | ⟨d, cs, rfl, hcs, hd⟩
  · exact Or.inl rfl
  · exact Or.inr ⟨d, cs, rfl, hcs, by omega⟩

/-- What comes after the first members of a sequence in column `c`. -/
theorem tail_items {xs : List (Dashed Layout)} {c : Nat} {i : Int} {tail : List Char}
    (h : ∀ x ∈ xs, Spaced x.gap x.value ∧ x.value.wellFormed = true) (htail : Tail i tail)
    (hi : i < c) : Tail c (flat (itemLines c xs) ++ tail) := by
  by_cases hne : xs = []
  · subst hne
    exact Tail.mono htail (by omega)
  · have hwf : (items xs).wellFormed = true := wellFormed_items_iff.mpr ⟨hne, h⟩
    have hflat := flat_lines hwf c
    rw [lines] at hflat
    refine Or.inr ⟨c, body c (.items xs) ++ tail, ?_, opens_items hwf c (lineEnds_of_tail htail),
      Int.le_refl _⟩
    rw [hflat, List.cons_append, List.append_assoc]

/-- What comes after the first members of a mapping in column `c`. -/
theorem tail_fields {fs : List (Keyed Layout)} {c : Nat} {i : Int} {tail : List Char}
    (h : ∀ f ∈ fs, isKey f.key = true) (htail : Tail i tail) (hi : i < c) :
    Tail c (flat (fieldLines c fs) ++ tail) := by
  by_cases hne : fs = []
  · subst hne
    exact Tail.mono htail (by omega)
  · refine Or.inr ⟨c, body c (.fields fs) ++ tail, ?_, opens_fields hne h c tail, Int.le_refl _⟩
    rw [flat_fieldLines hne, List.cons_append, List.append_assoc]

theorem blanks_append_inj {d e : Nat} {cs ds : List Char} (hcs : Starts cs) (hds : Starts ds)
    (h : blanks d ++ cs = blanks e ++ ds) : d = e ∧ cs = ds := by
  obtain ⟨a, r, rfl, -, ha, -⟩ := hcs
  obtain ⟨b, q, rfl, -, hb, -⟩ := hds
  induction d generalizing e with
  | zero =>
    cases e with
    | zero => exact ⟨rfl, h⟩
    | succ e => exact absurd (List.cons.inj h).1 ha
  | succ d ih =>
    cases e with
    | zero => exact absurd (List.cons.inj h).1.symm hb
    | succ e =>
      obtain ⟨rfl, hrest⟩ := ih (List.cons.inj h).2
      exact ⟨rfl, hrest⟩

end Layout

namespace Scanner

open Layout

theorem Stands.leads {s : Scanner} {stack : List Int} {d : Nat} {cs : List Char} {w : List Kind}
    (h : Stands s stack ('\n' :: (blanks d ++ cs)) w) (hcs : Starts cs) :
    Idle s stack ∧ Leads s true d cs ∧ w = [] := by
  generalize htail : '\n' :: (blanks d ++ cs) = tail at h
  cases h with
  | line hidle hlead =>
    obtain ⟨rfl, rfl⟩ := blanks_append_inj hcs hlead.1 (List.cons.inj htail).2
    exact ⟨hidle, hlead, rfl⟩
  | last => cases htail
  | waiting => cases htail

/-! ## Values -/

/-- A scanner in the block of column `i` reads values with tokens of these kinds and then stands
before `tail`, with the blocks further in still to be closed. -/
def Yields (s : Scanner) (i : Int) (is : List Int) (tail : List Char) (ks : List Kind) : Prop :=
  ∃ (s' : Scanner) (ds : List Kind) (cols : List Int) (w : List Kind), Delivers s ds s' ∧
    Stands s' (cols ++ i :: is) tail w ∧ (∀ x ∈ cols, i < x) ∧
    ds ++ w ++ List.replicate cols.length .blockEnd = ks

theorem Yields.prepend {s t : Scanner} {i : Int} {is : List Int} {tail : List Char}
    {ds ks : List Kind} (h : Delivers s ds t) (hy : Yields t i is tail ks) :
    Yields s i is tail (ds ++ ks) := by
  obtain ⟨s', es, cols, w, hdelivers, hstands, hcols, rfl⟩ := hy
  exact ⟨s', ds ++ es, cols, w, h.trans hdelivers, hstands, hcols, by simp⟩

/-- The innermost block is closed with the blocks further in. -/
theorem Yields.close {s : Scanner} {i j : Int} {is : List Int} {tail : List Char} {ks : List Kind}
    (h : Yields s j (i :: is) tail ks) (hij : i < j) : Yields s i is tail (ks ++ [.blockEnd]) := by
  obtain ⟨s', ds, cols, w, hdelivers, hstands, hcols, rfl⟩ := h
  refine ⟨s', ds, cols ++ [j], w, hdelivers, by simpa using hstands, ?_, ?_⟩
  · intro x hx
    rcases List.mem_append.mp hx with hx | hx
    · have hlt := hcols x hx
      omega
    · rw [List.mem_singleton.mp hx]
      exact hij
  · simp [List.replicate_succ']

theorem Yields.nothing {s : Scanner} {i : Int} {is : List Int} {n : Nat} {tail : List Char}
    (h : Idle s (i :: is)) (hrest : Loosens (blanks n ++ tail) s.cursor.rest) (htail : Tail i tail) :
    Yields s i is tail [] :=
  ⟨s, [], [], [], Delivers.refl s, stands_nothing h hrest htail, by simp, rfl⟩

/-- The lines of a layout yield its tokens, wherever it stands further in than its block. -/
def Reads (v : Layout) : Prop :=
  ∀ {s : Scanner} {keyAllowed : Bool} {c : Nat} {i : Int} {is : List Int} {tail : List Char},
    Idle s (i :: is) → Leads s keyAllowed c (body c v ++ tail) →
    (keyAllowed = true ∨ v.isScalar = true) → i < c → 0 ≤ i ∨ v.isScalar = false → Tail i tail →
    Yields s i is tail (kinds v)

theorem reads_text {t : List Char} (ht : isText t = true) : Reads (.scalar t) := by
  intro s keyAllowed c i is tail hidle hlead _ hi hzero htail
  rw [body_scalar] at hlead
  have hpos : 0 < c := by
    rcases hzero with hzero | hscalar
    · omega
    · cases hscalar
  obtain ⟨s', ds, w, hdelivers, hstands, hks⟩ := deliver_text hidle hlead ht hi hpos htail
  refine ⟨s', ds, [], w, hdelivers, hstands, by simp, ?_⟩
  have hne : t.isEmpty = false := by simpa using ne_nil_of_isText ht
  rw [kinds, hne, List.length_nil, List.replicate_zero, List.append_nil, hks]
  rfl

/-- The value after a dash. -/
theorem yields_dashed {s : Scanner} {c gap : Nat} {is : List Int} {x : Layout} {tail : List Char}
    (hx : x.wellFormed = true) (hreads : x ≠ .scalar [] → Reads x) (hidle : Idle s (c :: is))
    (hallowed : s.keyAllowed = true)
    (hrest : Loosens (blanks gap ++ (body (c + 1 + gap) x ++ tail)) s.cursor.rest)
    (hcolumn : s.cursor.mark.column = c + 1) (htail : Tail c tail) :
    Yields s c is tail (kinds x) := by
  by_cases hnone : x = .scalar []
  · subst hnone
    rw [body_scalar] at hrest
    exact Yields.nothing hidle hrest htail
  · have hlead := leads_of_blanks hrest hidle.flow (starts_body hx hnone _ (lineEnds_of_tail htail))
    rw [hcolumn] at hlead
    exact hreads hnone hidle hlead (Or.inl hallowed) (by omega) (Or.inl (by omega)) htail

/-- The value under a key. -/
theorem yields_keyed {s : Scanner} {c gap n : Nat} {is : List Int} {v : Layout} {tail : List Char}
    (hv : v.wellFormed = true) (hspaced : Spaced gap v) (hreads : v ≠ .scalar [] → Reads v)
    (hidle : Idle s (c :: is)) (hrest : Loosens (after c gap v ++ tail) s.cursor.rest)
    (hcolumn : s.cursor.mark.column = c + n + 1) (htail : Tail c tail) :
    Yields s c is tail (kinds v) := by
  by_cases hscalar : v.isScalar = true
  · obtain ⟨t, rfl⟩ : ∃ t, v = .scalar t := by
      cases v with
      | scalar t => exact ⟨t, rfl⟩
      | items xs => cases hscalar
      | fields fs => cases hscalar
    rw [after, List.append_assoc] at hrest
    by_cases hnone : t = []
    · subst hnone
      exact Yields.nothing hidle hrest htail
    · have hne : Layout.scalar t ≠ .scalar [] := fun heq => hnone (Layout.scalar.inj heq)
      have hstart := starts_body hv hne (c + n + 1 + gap) (lineEnds_of_tail htail)
      rw [body_scalar] at hstart
      have hlead := leads_of_blanks hrest hidle.flow hstart
      rw [hcolumn, ← body_scalar (c + n + 1 + gap) t] at hlead
      exact hreads hne hidle hlead (Or.inr rfl) (by omega) (Or.inl (by omega)) htail
  · have hscalar : v.isScalar = false := by simpa using hscalar
    have hne : v ≠ .scalar [] := by
      rintro rfl
      cases hscalar
    have hgap : 0 < gap := by
      rcases hspaced with hpos | hnone
      · exact hpos
      · exact absurd hnone hne
    have hafter : after c gap v = flat (lines (c + gap) v) := by
      cases v with
      | scalar t => cases hscalar
      | items xs => rfl
      | fields fs => rfl
    rw [hafter, flat_lines hv, List.cons_append, List.append_assoc] at hrest
    have hlead := leads_of_line (n := 0) hrest hidle.flow
      (starts_body hv hne _ (lineEnds_of_tail htail))
    exact hreads hne hidle hlead (Or.inl rfl) (by omega) (Or.inr hscalar) htail

/-- The first member of a sequence, or one after others. -/
theorem yields_item {s : Scanner} {cols js : List Int} {j : Int} {c gap : Nat} {x : Layout}
    {xs : List (Dashed Layout)} {tail : List Char} (hidle : Idle s (cols ++ j :: js))
    (hlead : Leads s true c (body c (.items (⟨gap, x⟩ :: xs)) ++ tail))
    (hcols : ∀ y ∈ cols, (c : Int) < y) (hj : j ≤ c) {base : List Int}
    (hbase : opened j js c = (c : Int) :: base) (hspaced : Spaced gap x) (hx : x.wellFormed = true)
    (hreads : x ≠ .scalar [] → Reads x) (htail : Tail c (flat (itemLines c xs) ++ tail)) :
    Yields s c base (flat (itemLines c xs) ++ tail)
      (List.replicate cols.length .blockEnd ++ (opening j c .blockSequenceStart ++ [.blockEntry]) ++
        kinds x) := by
  rw [body_items hx, List.cons_append, List.append_assoc, List.append_assoc] at hlead
  obtain ⟨s', hdelivers, hidle', hallowed, hrest, hcolumn⟩ := deliver_dash hidle hlead
    (isWideGap_dash hspaced _ (lineEnds_of_tail htail)) hcols hj
  rw [hbase] at hidle'
  exact Yields.prepend hdelivers (yields_dashed hx hreads hidle' hallowed hrest hcolumn htail)

/-- The first field of a mapping, or one after others. -/
theorem yields_field {s : Scanner} {cols js : List Int} {j : Int} {c gap : Nat} {key : List Char}
    {v : Layout} {fs : List (Keyed Layout)} {tail : List Char} (hidle : Idle s (cols ++ j :: js))
    (hlead : Leads s true c (body c (.fields (⟨key, gap, v⟩ :: fs)) ++ tail))
    (hcols : ∀ y ∈ cols, (c : Int) < y) (hj : j ≤ c) {base : List Int}
    (hbase : opened j js c = (c : Int) :: base) (hspaced : Spaced gap v) (hkey : isKey key = true)
    (hv : v.wellFormed = true) (hreads : v ≠ .scalar [] → Reads v)
    (htail : Tail c (flat (fieldLines c fs) ++ tail)) :
    Yields s c base (flat (fieldLines c fs) ++ tail)
      (List.replicate cols.length .blockEnd ++
        (opening j c .blockMappingStart ++ [.key, .scalar key true, .value]) ++ kinds v) := by
  rw [body_fields, List.append_assoc, List.cons_append, List.append_assoc] at hlead
  obtain ⟨s', hdelivers, hidle', -, hrest, hcolumn⟩ := deliver_key hidle hlead hkey
    (isWideGap_colon hspaced hv c (lineEnds_of_tail htail)) hcols hj
  rw [hbase] at hidle'
  exact Yields.prepend hdelivers (yields_keyed hv hspaced hreads hidle' hrest hcolumn htail)

/-- The members of a sequence after the first ones. -/
theorem yields_items {xs : List (Dashed Layout)} {c : Nat} {i : Int} {tail : List Char}
    (hxs : ∀ x ∈ xs, Spaced x.gap x.value ∧ x.value.wellFormed = true)
    (hreads : ∀ x ∈ xs, x.value ≠ .scalar [] → Reads x.value) (htail : Tail i tail) (hi : i < c)
    {s : Scanner} {base : List Int} {ks : List Kind}
    (h : Yields s c base (flat (itemLines c xs) ++ tail) ks) :
    Yields s c base tail (ks ++ itemKinds xs) := by
  induction xs generalizing ks with
  | nil => simpa [itemLines, itemKinds] using h
  | cons x xs ih =>
    obtain ⟨gap, x⟩ := x
    obtain ⟨s', ds, cols, w, hdelivers, hstands, hcols, rfl⟩ := h
    have hwf : (Layout.items (⟨gap, x⟩ :: xs)).wellFormed = true :=
      wellFormed_items_iff.mpr ⟨List.cons_ne_nil _ _, hxs⟩
    have hflat : flat (itemLines c (⟨gap, x⟩ :: xs)) ++ tail =
        '\n' :: (blanks c ++ (body c (.items (⟨gap, x⟩ :: xs)) ++ tail)) := by
      have hlines := flat_lines hwf c
      rw [lines] at hlines
      rw [hlines, List.cons_append, List.append_assoc]
    rw [hflat] at hstands
    obtain ⟨hidle, hlead, rfl⟩ :=
      hstands.leads (opens_items hwf c (lineEnds_of_tail htail)).first
    obtain ⟨hspaced, hx⟩ := hxs _ List.mem_cons_self
    have hrest : ∀ y ∈ xs, Spaced y.gap y.value ∧ y.value.wellFormed = true :=
      fun y hy => hxs y (List.mem_cons_of_mem _ hy)
    have hbase : opened c base c = (c : Int) :: base := by simp [opened]
    have hfirst := yields_item hidle hlead hcols (Int.le_refl _) hbase
      hspaced hx (hreads _ List.mem_cons_self) (tail_items hrest htail hi)
    have hall := ih hrest (fun y hy => hreads y (List.mem_cons_of_mem _ hy))
      (Yields.prepend hdelivers hfirst)
    simpa [opening, itemKinds] using hall

/-- The fields of a mapping after the first ones. -/
theorem yields_fields {fs : List (Keyed Layout)} {c : Nat} {i : Int} {tail : List Char}
    (hfs : ∀ f ∈ fs, Spaced f.gap f.value ∧ isKey f.key = true ∧ f.value.wellFormed = true)
    (hreads : ∀ f ∈ fs, f.value ≠ .scalar [] → Reads f.value) (htail : Tail i tail) (hi : i < c)
    {s : Scanner} {base : List Int} {ks : List Kind}
    (h : Yields s c base (flat (fieldLines c fs) ++ tail) ks) :
    Yields s c base tail (ks ++ fieldKinds fs) := by
  induction fs generalizing ks with
  | nil => simpa [fieldLines, fieldKinds] using h
  | cons f fs ih =>
    obtain ⟨key, gap, v⟩ := f
    obtain ⟨s', ds, cols, w, hdelivers, hstands, hcols, rfl⟩ := h
    have hkeys : ∀ f ∈ (⟨key, gap, v⟩ : Keyed Layout) :: fs, isKey f.key = true :=
      fun f hf => (hfs f hf).2.1
    have hflat : flat (fieldLines c (⟨key, gap, v⟩ :: fs)) ++ tail =
        '\n' :: (blanks c ++ (body c (.fields (⟨key, gap, v⟩ :: fs)) ++ tail)) := by
      rw [flat_fieldLines (List.cons_ne_nil _ _), List.cons_append, List.append_assoc]
    rw [hflat] at hstands
    obtain ⟨hidle, hlead, rfl⟩ :=
      hstands.leads (opens_fields (List.cons_ne_nil _ _) hkeys c tail).first
    obtain ⟨hspaced, hkey, hv⟩ := hfs _ List.mem_cons_self
    have hbase : opened c base c = (c : Int) :: base := by simp [opened]
    have hfirst := yields_field hidle hlead hcols (Int.le_refl _) hbase
      hspaced hkey hv (hreads _ List.mem_cons_self)
      (tail_fields (fun f hf => hkeys f (List.mem_cons_of_mem _ hf)) htail hi)
    have hall := ih (fun f hf => hfs f (List.mem_cons_of_mem _ hf))
      (fun f hf => hreads f (List.mem_cons_of_mem _ hf)) (Yields.prepend hdelivers hfirst)
    simpa [opening, fieldKinds] using hall

theorem reads_items {xs : List (Dashed Layout)} (h : (Layout.items xs).wellFormed = true)
    (hreads : ∀ x ∈ xs, x.value ≠ .scalar [] → Reads x.value) : Reads (.items xs) := by
  intro s keyAllowed c i is tail hidle hlead hallowed hi _ htail
  obtain ⟨hne, hxs⟩ := wellFormed_items_iff.mp h
  obtain ⟨⟨gap, x⟩, xs, rfl⟩ := List.exists_cons_of_ne_nil hne
  obtain rfl : keyAllowed = true := hallowed.resolve_right (by simp [isScalar])
  obtain ⟨hspaced, hx⟩ := hxs _ List.mem_cons_self
  have hrest : ∀ y ∈ xs, Spaced y.gap y.value ∧ y.value.wellFormed = true :=
    fun y hy => hxs y (List.mem_cons_of_mem _ hy)
  have hidle' : Idle s ([] ++ i :: is) := hidle
  have hbase : opened i is c = (c : Int) :: i :: is := by simp [opened, hi]
  have hfirst := yields_item hidle' hlead (by simp) (by omega) hbase hspaced hx
    (hreads _ List.mem_cons_self) (tail_items hrest htail hi)
  have hall := yields_items hrest (fun y hy => hreads y (List.mem_cons_of_mem _ hy)) htail hi hfirst
  simpa [opening, hi, kinds, itemKinds] using hall.close hi

theorem reads_fields {fs : List (Keyed Layout)} (h : (Layout.fields fs).wellFormed = true)
    (hreads : ∀ f ∈ fs, f.value ≠ .scalar [] → Reads f.value) : Reads (.fields fs) := by
  intro s keyAllowed c i is tail hidle hlead hallowed hi _ htail
  obtain ⟨hne, -, hfs⟩ := wellFormed_fields_iff.mp h
  obtain ⟨⟨key, gap, v⟩, fs, rfl⟩ := List.exists_cons_of_ne_nil hne
  obtain rfl : keyAllowed = true := hallowed.resolve_right (by simp [isScalar])
  obtain ⟨hspaced, hkey, hv⟩ := hfs _ List.mem_cons_self
  have hrest : ∀ f ∈ fs, Spaced f.gap f.value ∧ isKey f.key = true ∧ f.value.wellFormed = true :=
    fun f hf => hfs f (List.mem_cons_of_mem _ hf)
  have hidle' : Idle s ([] ++ i :: is) := hidle
  have hbase : opened i is c = (c : Int) :: i :: is := by simp [opened, hi]
  have hfirst := yields_field hidle' hlead (by simp) (by omega) hbase hspaced hkey hv
    (hreads _ List.mem_cons_self) (tail_fields (fun f hf => (hrest f hf).2.1) htail hi)
  have hall := yields_fields hrest (fun f hf => hreads f (List.mem_cons_of_mem _ hf)) htail hi hfirst
  simpa [opening, hi, kinds, fieldKinds] using hall.close hi

theorem reads_of_wellFormed {v : Layout} (h : v.wellFormed = true) (hv : v ≠ .scalar []) :
    Reads v := by
  induction v using Layout.induct with
  | scalar t =>
    rcases wellFormed_scalar_iff.mp h with rfl | ht
    · exact absurd rfl hv
    · exact reads_text ht
  | items xs ih =>
    obtain ⟨-, hxs⟩ := wellFormed_items_iff.mp h
    exact reads_items h fun x hx => ih x hx (hxs x hx).2
  | fields fs ih =>
    obtain ⟨-, -, hfs⟩ := wellFormed_fields_iff.mp h
    exact reads_fields h fun f hf => ih f hf (hfs f hf).2.2

/-! ## The end of the text -/

/-- Once the end is found, what waits is delivered. -/
theorem run_finished {s : Scanner} (hfinished : s.finished = true) {fuel : Nat}
    (hfuel : s.queue.length ≤ fuel) (done : List Token) :
    run fuel s done = ⟨done.reverse ++ s.queue, none⟩ := by
  generalize hqueue : s.queue = q at hfuel
  induction q generalizing s fuel done with
  | nil =>
    cases fuel with
    | zero => exact congrArg (Feed.mk · none) (List.append_nil _).symm
    | succ fuel =>
      have hmust : s.mustFetch = .ok (false, s) := by rw [mustFetch, if_pos hfinished]
      rw [run_succ, hmust]
      simp only [hqueue, List.append_nil]
  | cons t q ih =>
    obtain ⟨fuel, rfl⟩ := Nat.exists_eq_succ_of_ne_zero (Nat.ne_zero_of_lt hfuel)
    have hmust : s.mustFetch = .ok (false, s) := by rw [mustFetch, if_pos hfinished]
    have hrest := ih (s := { s with queue := q, delivered := s.delivered + 1 }) hfinished
      (t :: done) rfl (by simpa using hfuel)
    rw [Nat.succ_eq_add_one, run_deliver hmust hqueue, hrest]
    simp

theorem exists_split (column : Int) (cols : List Int) {last : Int} (hlast : last ≤ column) :
    ∃ as j js, cols ++ [last] = as ++ j :: js ∧ (∀ x ∈ as, column < x) ∧ j ≤ column ∧
      j :: js = cols.drop as.length ++ [last] := by
  induction cols with
  | nil => exact ⟨[], last, [], rfl, by simp, hlast, rfl⟩
  | cons x cols ih =>
    by_cases hx : column < x
    · obtain ⟨as, j, js, heq, has, hj, hjs⟩ := ih
      refine ⟨x :: as, j, js, by rw [List.cons_append, heq, List.cons_append], ?_, hj, hjs⟩
      intro y hy
      rcases List.mem_cons.mp hy with rfl | hy
      · exact hx
      · exact has y hy
    · exact ⟨[], x, cols ++ [last], rfl, by simp, by omega, rfl⟩

theorem dropPending_free {s : Scanner}
    (h : ∀ k, s.pending.lookup s.flow = some k → k.required = false) :
    ∃ pending, s.dropPending = .ok { s with pending } := by
  rw [dropPending]
  split
  · exact ⟨s.pending, rfl⟩
  case h_2 k hk =>
    rw [if_neg (by simp [h k hk])]
    exact ⟨_, rfl⟩

/-- Behind the last value there is nothing but the end. -/
theorem Stands.fetch_end {s : Scanner} {stack : List Int} {w : List Kind} (h : Stands s stack [] w) :
    s.flow = 0 ∧ s.indent :: s.indents = stack ∧ s.queue.map (·.kind) = w ∧
      s.mustFetch = .ok (true, s) ∧
      (∃ m keyAllowed, s.skipToToken.dropStale = .ok { s with cursor := ⟨[], m⟩, keyAllowed }) ∧
      ∀ k, s.pending.lookup s.flow = some k → k.required = false := by
  generalize htail : ([] : List Char) = tail at h
  cases h with
  | line => cases htail
  | @last stack ns d hidle hrest =>
    have hgap : s.cursor.rest = emptyLines ns ++ (blanks d ++ []) := by rw [hrest, List.append_nil]
    have hskip := skipToToken_gap hgap hidle.flow (Or.inl rfl)
    have hdrop : s.skipToToken.dropStale = .ok s.skipToToken := by
      rw [hskip, dropStale_of_fresh (by simp [hidle.pending])]
    exact ⟨hidle.flow, hidle.stack, by rw [hidle.queue]; rfl, mustFetch_idle hidle,
      ⟨_, _, hdrop.trans (congrArg Except.ok hskip)⟩, by simp [hidle.pending]⟩
  | waiting hflow hgoing hrest hqueue hpending hnumber hfree hfresh =>
    have hskip := skipToToken_blanks (s := s) (n := 0) hrest hflow (Or.inl rfl)
    have hcursor : s.cursor = ⟨[], s.cursor.mark⟩ := by rw [← hrest]
    have hdrop : s.dropStale = .ok s := dropStale_of_fresh (by simpa [hpending] using hfresh)
    refine ⟨hflow, rfl, by rw [hqueue]; rfl, ?_, ⟨s.cursor.mark, s.keyAllowed, ?_⟩, ?_⟩
    · rw [mustFetch_of_dropStale hgoing (by simp [hqueue]) hdrop]
      simp [hpending, hnumber]
    · rw [hskip, Mark.right_zero, ← hcursor]
      exact hdrop
    · intro k' hk'
      rw [hpending, hflow] at hk'
      cases hk'
      exact hfree

/-- At the end of the text the blocks still open are closed. -/
theorem exists_scanToken_end {s : Scanner} {m : Mark} {cols : List Int} (hcursor : s.cursor = ⟨[], m⟩)
    (hflow : s.flow = 0) (hstack : s.indent :: s.indents = cols ++ [-1]) (hcols : ∀ x ∈ cols, -1 < x)
    (hfree : ∀ k, s.pending.lookup s.flow = some k → k.required = false) :
    ∃ s', s.scanToken = .ok s' ∧ s'.finished = true ∧ s'.queue =
      s.queue ++ List.replicate cols.length ⟨.blockEnd, m, m⟩ ++ [⟨.streamEnd, m, m⟩] := by
  have hunwind := unwind_eq hcols (Int.le_refl _) hflow hstack
  obtain ⟨pending, hpending⟩ :=
    dropPending_free (s := s.unwind (-1)) (by rw [hunwind]; exact hfree)
  refine ⟨{ (s.unwind (-1)).pushHere .streamEnd with
    keyAllowed := false, pending := [], finished := true }, ?_, rfl, ?_⟩
  · rw [scanToken_end (by rw [hcursor]), scanEnd, hpending]
    rfl
  · rw [hunwind, hcursor]
    rfl

/-- The last fetch closes the blocks further in before it finds the end, and the others there. -/
theorem exists_fetch_end {s : Scanner} {m : Mark} {keyAllowed : Bool} {cols : List Int}
    (hdrop : s.skipToToken.dropStale = .ok { s with cursor := ⟨[], m⟩, keyAllowed })
    (hflow : s.flow = 0) (hstack : s.indent :: s.indents = cols ++ [-1]) (hcols : ∀ x ∈ cols, -1 < x)
    (hfree : ∀ k, s.pending.lookup s.flow = some k → k.required = false) :
    ∃ s', s.fetch = .ok s' ∧ s'.finished = true ∧ s'.queue =
      s.queue ++ List.replicate cols.length ⟨.blockEnd, m, m⟩ ++ [⟨.streamEnd, m, m⟩] := by
  obtain ⟨as, j, js, hsplit, has, hj, hjs⟩ :=
    exists_split m.column cols (show (-1 : Int) ≤ m.column by omega)
  have hlength : as.length + (cols.drop as.length).length = cols.length := by
    have hle := congrArg List.length hsplit
    have hle' := congrArg List.length hjs
    simp only [List.length_append, List.length_cons, List.length_nil, List.length_drop] at hle hle' ⊢
    omega
  have hunwind := unwind_eq (s := { s with cursor := ⟨[], m⟩, keyAllowed }) has hj hflow
    (hstack.trans hsplit)
  obtain ⟨s', hscan, hfinished, hqueue⟩ := exists_scanToken_end
    (s := { s with
      cursor := ⟨[], m⟩
      keyAllowed
      queue := s.queue ++ List.replicate as.length ⟨.blockEnd, m, m⟩
      indent := j
      indents := js })
    rfl hflow hjs (fun x hx => hcols x (List.mem_of_mem_drop hx)) hfree
  refine ⟨s', ?_, hfinished, ?_⟩
  · rw [fetch, hdrop]
    show scanToken (unwind (m.column : Int) { s with cursor := ⟨[], m⟩, keyAllowed }) = _
    rw [hunwind]
    exact hscan
  · rw [hqueue, List.append_assoc s.queue, List.replicate_append_replicate, hlength]

/-- The end closes all blocks. -/
theorem run_end {s : Scanner} {cols : List Int} {w : List Kind} (h : Stands s (cols ++ [-1]) [] w)
    (hcols : ∀ x ∈ cols, -1 < x) {fuel : Nat} (hfuel : s.credit + 2 ≤ fuel) :
    ∃ ts : List Token, ts.map (·.kind) = w ++ List.replicate cols.length .blockEnd ++ [.streamEnd] ∧
      ∀ done, run fuel s done = ⟨done.reverse ++ ts, none⟩ := by
  obtain ⟨hflow, hstack, hkinds, hmust, ⟨m, keyAllowed, hdrop⟩, hfree⟩ := h.fetch_end
  obtain ⟨s', hfetch, hfinished, hqueue⟩ := exists_fetch_end hdrop hflow hstack hcols hfree
  refine ⟨s'.queue, ?_, fun done => ?_⟩
  · rw [hqueue, ← hkinds]
    simp
  · have hindents := congrArg List.length hstack
    have hwait := congrArg List.length hqueue
    simp only [List.length_append, List.length_cons, List.length_nil, List.length_replicate]
      at hindents hwait
    have hcredit : s.credit = 8 * s.cursor.rest.length + 2 * s.indents.length + s.queue.length := rfl
    obtain ⟨fuel, rfl⟩ := Nat.exists_eq_succ_of_ne_zero (Nat.ne_zero_of_lt hfuel)
    rw [Nat.succ_eq_add_one, run_fetch hmust hfetch, run_finished hfinished (by omega)]

end Scanner

/-- The tokens of a block's text, with any gaps in it. -/
theorem Token.scan_loose {fs : List (Keyed Layout)} (h : (Layout.fields fs).wellFormed = true)
    {text : List Char} (hloose : Layout.Loosens (Layout.flat (Layout.fieldLines 0 fs)) ('\n' :: text)) :
    ∃ ts : List Token, Token.scan text = ⟨ts, none⟩ ∧
      ts.map (·.kind) = .streamStart :: (Layout.kinds (.fields fs) ++ [.streamEnd]) := by
  obtain ⟨hne, -, hfs⟩ := Layout.wellFormed_fields_iff.mp h
  have hstart : Starts (Layout.body 0 (.fields fs)) := by
    simpa using (Layout.opens_fields hne (fun f hf => (hfs f hf).2.1) 0 []).first
  obtain ⟨s, hs⟩ : ∃ s : Scanner, s = ⟨Cursor.ofText text, 0, -1, [], true, [], [], 1, false⟩ := ⟨_, rfl⟩
  have hidle : Idle s [-1] := by
    rw [hs]
    exact ⟨rfl, rfl, rfl, rfl, rfl⟩
  have hlead : Leads s true 0 (Layout.body 0 (.fields fs) ++ []) := by
    rw [Layout.flat_fieldLines hne] at hloose
    rw [List.append_nil]
    exact leads_of_start (by rw [hs]) (by rw [hs]) hidle.flow hloose hstart
  obtain ⟨s', ds, cols, w, hdelivers, hstands, hcols, hkinds⟩ := reads_of_wellFormed h
    (by simp) hidle hlead (Or.inl rfl) (by omega) (Or.inr rfl) (Or.inl rfl)
  obtain ⟨n, ts, hts, hcredit, hrun⟩ := hdelivers
  have hs0 : s.credit = 8 * text.length := by rw [hs]; rfl
  have hfuel : s'.credit + 2 ≤ 8 * text.length + 31 - n := by omega
  obtain ⟨us, hus, hend⟩ := run_end hstands hcols hfuel
  have hfirst : Token.scan text =
      run (8 * text.length + 31) s [⟨.streamStart, ⟨0, 0, 0⟩, ⟨0, 0, 0⟩⟩] := by
    rw [Token.scan, hs]
    exact run_deliver (s := Scanner.start text) (e := ⟨.streamStart, ⟨0, 0, 0⟩, ⟨0, 0, 0⟩⟩)
      rfl rfl _ _
  refine ⟨⟨.streamStart, ⟨0, 0, 0⟩, ⟨0, 0, 0⟩⟩ :: (ts ++ us), ?_, ?_⟩
  · have hsteps : 8 * text.length + 31 = n + (8 * text.length + 31 - n) := by
      omega
    rw [hfirst, hsteps, hrun, hend]
    simp
  · rw [List.map_cons, List.map_append, hts, hus, ← hkinds]
    simp

end Yaml
end TalkDeck
