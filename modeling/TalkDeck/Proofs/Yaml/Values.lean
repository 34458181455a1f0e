import TalkDeck.Proofs.Deck.Reading
import TalkDeck.Proofs.Yaml.Construct

/-
The value of a layout.

`Value.Holds` says that a value has the members of a layout, and these the members of theirs.  The
text of well-formed fields is read as such a value (`ofText_loose`), whose tree is the layout's
(`Holds.tree_eq`).
-/

namespace TalkDeck
namespace Yaml

open Layout

namespace Value

/-! ## Values that hold a layout -/

mutual

/-- The place holds the value of the layout. -/
def HoldsAt (cells : Array Cell) : Layout → Nat → Prop
  | .scalar t, n => n < cells.size ∧
    ∃ s, cells.getD n (.scalar .null) = .scalar s ∧ Scalar.ofPlain? t = some s
  | .items xs, n => n < cells.size ∧
    ∃ ms, cells.getD n (.scalar .null) = .list ms ∧ ItemsHold cells n xs ms
  | .fields fs, n => n < cells.size ∧
    ∃ es, cells.getD n (.scalar .null) = .map es ∧ FieldsHold cells n fs es

def ItemsHold (cells : Array Cell) (n : Nat) : List (Dashed Layout) → List Nat → Prop
  | [], ms => ms = []
  | ⟨_, x⟩ :: xs, ms => ∃ m ms', ms = m :: ms' ∧ (n < m ∧ HoldsAt cells x m) ∧ ItemsHold cells n xs ms'

def FieldsHold (cells : Array Cell) (n : Nat) :
    List (Keyed Layout) → List (Scalar × Nat) → Prop
  | [], es => es = []
  | ⟨key, _, v⟩ :: fs, es =>
    ∃ k m es', es = (k, m) :: es' ∧
      (k = .str (String.ofList key) ∧ n < m ∧ HoldsAt cells v m) ∧ FieldsHold cells n fs es'

end

theorem itemsHold_iff {cells : Array Cell} {n : Nat} {xs : List (Dashed Layout)} {ms : List Nat} :
    ItemsHold cells n xs ms ↔ List.Forall₂ (fun x m => n < m ∧ HoldsAt cells x.value m) xs ms := by
  induction xs generalizing ms with
  | nil => rw [ItemsHold, List.forall₂_nil_left_iff]
  | cons x xs ih =>
    rw [ItemsHold, List.forall₂_cons_left_iff]
    constructor
    · rintro ⟨m, ms', rfl, hm, hms⟩
      exact ⟨m, ms', hm, ih.mp hms, rfl⟩
    · rintro ⟨m, ms', hm, hms, rfl⟩
      exact ⟨m, ms', rfl, hm, ih.mpr hms⟩

theorem fieldsHold_iff {cells : Array Cell} {n : Nat} {fs : List (Keyed Layout)}
    {es : List (Scalar × Nat)} :
    FieldsHold cells n fs es ↔ List.Forall₂
      (fun f e => e.1 = .str (String.ofList f.key) ∧ n < e.2 ∧ HoldsAt cells f.value e.2) fs es := by
  induction fs generalizing es with
  | nil => rw [FieldsHold, List.forall₂_nil_left_iff]
  | cons f fs ih =>
    rw [FieldsHold, List.forall₂_cons_left_iff]
    constructor
    · rintro ⟨k, m, es', rfl, he, hes⟩
      exact ⟨(k, m), es', he, ih.mp hes, rfl⟩
    · rintro ⟨⟨k, m⟩, es', he, hes, rfl⟩
      exact ⟨k, m, es', rfl, he, ih.mpr hes⟩

/-- The value holds the layout. -/
def Holds (v : Value) (w : Layout) : Prop := HoldsAt v.cells w v.root

section Holds

variable {v : Value} {xs : List (Dashed Layout)} {fs : List (Keyed Layout)}

theorem Holds.items?_eq (h : v.Holds (.items xs)) :
    ∃ ms, v.items? = some ms ∧
      List.Forall₂ (fun x m => ∃ w : Value, m = some w ∧ w.Holds x.value) xs ms := by
  rw [Holds, HoldsAt] at h
  obtain ⟨-, ms, hcell, hms⟩ := h
  refine ⟨ms.map fun n => some ⟨v.cells, n⟩, by rw [items?, cell, hcell], ?_⟩
  rw [List.forall₂_map_right_iff]
  exact (itemsHold_iff.mp hms).imp fun x m ⟨_, hm⟩ => ⟨_, rfl, hm⟩

theorem Holds.entries?_eq (h : v.Holds (.fields fs)) :
    ∃ es, v.entries? = some es ∧ List.Forall₂
      (fun f e => e.1 = .str (String.ofList f.key) ∧ e.2.Holds f.value) fs es := by
  rw [Holds, HoldsAt] at h
  obtain ⟨-, es, hcell, hes⟩ := h
  refine ⟨es.map fun e => (e.1, ⟨v.cells, e.2⟩), by rw [entries?, cell, hcell], ?_⟩
  rw [List.forall₂_map_right_iff]
  exact (fieldsHold_iff.mp hes).imp fun f e ⟨hkey, _, he⟩ => ⟨hkey, he⟩

theorem Holds.isMap (h : v.Holds (.fields fs)) : v.isMap = true := by
  obtain ⟨es, hes, -⟩ := h.entries?_eq
  rw [Value.isMap, hes]
  rfl

/-- A key of the layout is a key of the value, with the value of the first field of that key. -/
theorem Holds.get?_eq (h : v.Holds (.fields fs)) (key : List Char) :
    Option.Rel (fun (f : Keyed Layout) (w : Value) => w.Holds f.value)
      (fs.find? (·.key == key)) (v.get? (String.ofList key)) := by
  obtain ⟨es, hentries, hes⟩ := h.entries?_eq
  rw [get?, hentries, Option.bind_some]
  clear hentries h
  induction hes with
  | nil => exact .none
  | @cons f e fs es hfe _ ih =>
    obtain ⟨k, w⟩ := e
    obtain ⟨rfl, hvalue⟩ := hfe
    by_cases heq : f.key = key
    · subst heq
      simp only [List.find?_cons, beq_self_eq_true, Option.map_some]
      exact .some hvalue
    · have hkey : (f.key == key) = false := by rw [beq_eq_false_iff_ne]; exact heq
      have hstr : (Scalar.str (String.ofList f.key) == Scalar.str (String.ofList key)) = false := by
        rw [beq_eq_false_iff_ne]
        intro hstr
        exact heq (String.ofList_injective (Scalar.str.inj hstr))
      simp only [List.find?_cons, hkey, hstr]
      exact ih

end Holds

/-! ## The tree of a value -/

/-- Containers around a place, all with lower numbers. -/
def Above (path : List (Option Nat)) (n : Nat) : Prop := ∀ o ∈ path, ∃ i < n, o = some i

theorem Above.findIdx?_eq {path : List (Option Nat)} {n : Nat} (h : Above path n) :
    path.findIdx? (· == some n) = none := by
  rw [List.findIdx?_eq_none_iff]
  intro o ho
  obtain ⟨i, hi, rfl⟩ := h o ho
  simp
  omega

theorem Above.cons {path : List (Option Nat)} {n m : Nat} (h : Above path n) (hm : n < m) :
    Above (some n :: path) m := by
  intro o ho
  rcases List.mem_cons.mp ho with rfl | ho
  · exact ⟨n, hm, rfl⟩
  · obtain ⟨i, hi, rfl⟩ := h o ho
    exact ⟨i, by omega, rfl⟩

theorem ItemsHold.map_eq_itemTrees {cells : Array Cell} {n : Nat} {xs : List (Dashed Layout)}
    {ms : List Nat} (h : ItemsHold cells n xs ms) {f : Nat → Tree}
    (hf : ∀ x ∈ xs, ∀ m, n < m → HoldsAt cells x.value m → f m = x.value.tree) :
    ms.map f = itemTrees xs := by
  rw [itemsHold_iff] at h
  induction h with
  | nil => rw [itemTrees, List.map_nil]
  | @cons x m xs ms hxm _ ih =>
    rw [List.map_cons, hf x List.mem_cons_self m hxm.1 hxm.2,
      ih fun y hy => hf y (List.mem_cons_of_mem x hy), itemTrees]

theorem FieldsHold.map_eq_fieldTrees {cells : Array Cell} {n : Nat} {fs : List (Keyed Layout)}
    {es : List (Scalar × Nat)} (h : FieldsHold cells n fs es) {f : Nat → Tree}
    (hf : ∀ g ∈ fs, ∀ m, n < m → HoldsAt cells g.value m → f m = g.value.tree) :
    es.map (fun e => (e.1, f e.2)) = fieldTrees fs := by
  rw [fieldsHold_iff] at h
  induction h with
  | nil => rw [fieldTrees, List.map_nil]
  | @cons g e fs es hge _ ih =>
    obtain ⟨hkey, hlt, hvalue⟩ := hge
    rw [List.map_cons, hkey, hf g List.mem_cons_self e.2 hlt hvalue,
      ih fun g' hg => hf g' (List.mem_cons_of_mem g hg), fieldTrees]

/-- Members have higher numbers, so no place is met twice on a path. -/
theorem unfold_eq {cells : Array Cell} {w : Layout} {n : Nat} (h : HoldsAt cells w n) {fuel : Nat}
    {path : List (Option Nat)} (hpath : Above path n) (hfuel : cells.size < fuel + n) :
    unfold cells fuel path n = w.tree := by
  induction w using Layout.induct generalizing n fuel path with
  | scalar t =>
    rw [HoldsAt] at h
    obtain ⟨hn, s, hcell, hs⟩ := h
    obtain ⟨fuel, rfl⟩ : ∃ k, fuel = k + 1 := Nat.exists_eq_succ_of_ne_zero (by omega)
    rw [unfold, hpath.findIdx?_eq]
    simp only [hcell]
    rw [Layout.tree, hs]
    rfl
  | items xs ih =>
    rw [HoldsAt] at h
    obtain ⟨hn, ms, hcell, hms⟩ := h
    obtain ⟨fuel, rfl⟩ : ∃ k, fuel = k + 1 := Nat.exists_eq_succ_of_ne_zero (by omega)
    have hall : ms.map (unfold cells fuel (some n :: path)) = itemTrees xs :=
      hms.map_eq_itemTrees fun x hx m hlt hm => ih x hx hm (hpath.cons hlt) (by omega)
    rw [unfold, hpath.findIdx?_eq]
    simp only [hcell, hall]
    rw [Layout.tree]
  | fields fs ih =>
    rw [HoldsAt] at h
    obtain ⟨hn, es, hcell, hes⟩ := h
    obtain ⟨fuel, rfl⟩ : ∃ k, fuel = k + 1 := Nat.exists_eq_succ_of_ne_zero (by omega)
    have hall : es.map (fun e => (e.1, unfold cells fuel (some n :: path) e.2)) = fieldTrees fs :=
      hes.map_eq_fieldTrees fun f hf m hlt hm => ih f hf hm (hpath.cons hlt) (by omega)
    rw [unfold, hpath.findIdx?_eq]
    simp only [hcell]
    rw [Layout.tree, ← hall]

theorem Holds.tree_eq {v : Value} {w : Layout} (h : v.Holds w) : v.tree = w.tree := by
  rw [Value.tree]
  exact unfold_eq h (by simp [Above]) (by omega)

end Value

/-! ## Texts -/

/-- Reading a date and a time gives those, or a fault. -/
theorem Scalar.readTimestamp_ne_str {t : List Char} {s : String} :
    Scalar.readTimestamp t ≠ .ok (.str s) := by
  have htime : ∀ (x : Except Fault Date) (p q r : Prop) [Decidable p] [Decidable q] [Decidable r]
      (e e' e'' : Fault) (g : Date → DateTime),
      (x >>= fun date => if p then .error e else if q then .error e' else if r then .error e''
        else pure (Scalar.dateTime (g date))) ≠ .ok (Scalar.str s) := by
    intro x p q r _ _ _ e e' e'' g h
    obtain ⟨date, -, h⟩ := bind_eq_ok_iff.mp h
    split at h
    · cases h
    · split at h
      · cases h
      · split at h
        · cases h
        · cases h
  intro h
  rw [readTimestamp] at h
  split at h
  · cases h
  · dsimp only at h
    split at h
    · obtain ⟨date, -, h⟩ := bind_eq_ok_iff.mp h
      cases h
    · split at h
      · obtain ⟨offset, -, h⟩ := bind_eq_ok_iff.mp h
        exact htime _ _ _ _ _ _ _ _ h
      · obtain ⟨offset, -, h⟩ := bind_eq_ok_iff.mp h
        exact htime _ _ _ _ _ _ _ _ h
      · obtain ⟨zone, -, h⟩ := bind_eq_ok_iff.mp h
        obtain ⟨offset, -, h⟩ := bind_eq_ok_iff.mp h
        exact htime _ _ _ _ _ _ _ _ h

theorem Scalar.map_toOption_ne_str {α : Type} (f : α → Scalar) (hf : ∀ a s, f a ≠ .str s)
    (x : Except Fault α) (s : String) : (f <$> x).toOption ≠ some (.str s) := by
  cases x with
  | error e => simp [Functor.map, Except.map, Except.toOption]
  | ok a =>
    intro h
    exact hf a s (Option.some.inj h)

/-- A text that stands for text stands for itself. -/
theorem Scalar.eq_of_ofPlain? {t : List Char} {s : String} (h : ofPlain? t = some (.str s)) :
    s = String.ofList t := by
  obtain ⟨read, hread, h⟩ := Option.bind_eq_some_iff.mp h
  rw [Construction.scalarReader?] at hread
  split at hread
  · obtain rfl := Option.some.inj hread
    exact (Scalar.str.inj (Option.some.inj h)).symm
  · split at hread
    · obtain rfl := Option.some.inj hread
      cases h
    · split at hread
      · obtain rfl := Option.some.inj hread
        exact absurd h (map_toOption_ne_str .bool (by simp) _ s)
      · split at hread
        · obtain rfl := Option.some.inj hread
          exact absurd h (map_toOption_ne_str .int (by simp) _ s)
        · split at hread
          · obtain rfl := Option.some.inj hread
            exact absurd h (map_toOption_ne_str .float (by simp) _ s)
          · split at hread
            · obtain rfl := Option.some.inj hread
              dsimp only at h
              split at h
              · cases h
              · cases h
            · split at hread
              · obtain rfl := Option.some.inj hread
                dsimp only at h
                cases hx : readTimestamp t with
                | error e =>
                  rw [hx] at h
                  cases h
                | ok x =>
                  rw [hx] at h
                  obtain rfl := Option.some.inj h
                  exact absurd hx readTimestamp_ne_str
              · cases hread

/-- The text that a layout stands for, if it stands for one. -/
def Layout.str? : Layout → Option String
  | .scalar t =>
    match Scalar.ofPlain? t with
    | some (.str s) => some s
    | _ => none
  | _ => none

theorem Layout.str?_eq_some {w : Layout} {s : String} (h : w.str? = some s) : w = .scalar s.toList := by
  cases w with
  | items xs => cases h
  | fields fs => cases h
  | scalar t =>
    rw [str?] at h
    split at h
    · next s' hs' =>
      obtain rfl := Option.some.inj h
      rw [Scalar.eq_of_ofPlain? hs', String.toList_ofList]
    · cases h

theorem Layout.str?_scalar {t : List Char} (h : Scalar.tagOf t = Tag.str) :
    (Layout.scalar t).str? = some (String.ofList t) := by
  rw [str?, Construction.ofPlain?_str h]

namespace Value

section Lookup

variable {v : Value} {w : Layout} {fs : List (Keyed Layout)}

theorem Holds.str?_eq (h : v.Holds w) : v.str? = w.str? := by
  cases w with
  | scalar t =>
    rw [Holds, HoldsAt] at h
    obtain ⟨-, s, hcell, hs⟩ := h
    rw [Layout.str?, hs, str?, cell, hcell]
    cases s <;> rfl
  | items xs =>
    rw [Holds, HoldsAt] at h
    obtain ⟨-, ms, hcell, -⟩ := h
    rw [str?, cell, hcell]
    rfl
  | fields fs =>
    rw [Holds, HoldsAt] at h
    obtain ⟨-, es, hcell, -⟩ := h
    rw [str?, cell, hcell]
    rfl

theorem Holds.exists_get? (h : v.Holds (.fields fs)) {f : Keyed Layout} (hf : f ∈ fs) :
    ∃ w, v.get? (String.ofList f.key) = some w := by
  have hrel := h.get?_eq f.key
  obtain ⟨g, hg⟩ := Option.isSome_iff_exists.mp
    (List.find?_isSome (p := fun g : Keyed Layout => g.key == f.key).mpr
      ⟨f, hf, beq_self_eq_true f.key⟩)
  rw [hg] at hrel
  generalize v.get? (String.ofList f.key) = o at hrel
  cases hrel with
  | some _ => exact ⟨_, rfl⟩

theorem Holds.has_iff (h : v.Holds (.fields fs)) (key : String) :
    v.has key = true ↔ key.toList ∈ fs.map (·.key) := by
  constructor
  · intro hhas
    have hrel := h.get?_eq key.toList
    rw [String.ofList_toList] at hrel
    obtain ⟨w, hw⟩ := Option.isSome_iff_exists.mp hhas
    rw [hw] at hrel
    generalize hf : fs.find? (·.key == key.toList) = o at hrel
    cases hrel with
    | @some f _ _ =>
      have hkey := List.find?_some hf
      rw [beq_iff_eq] at hkey
      rw [← hkey]
      exact List.mem_map_of_mem (List.mem_of_find?_eq_some hf)
  · intro hmem
    obtain ⟨f, hf, hkey⟩ := List.mem_map.mp hmem
    obtain ⟨w, hw⟩ := h.exists_get? hf
    rw [hkey, String.ofList_toList] at hw
    rw [has, hw]
    rfl

theorem Holds.str_get? (h : v.Holds (.fields fs)) (key : String) :
    (v.get? key).bind (·.str?) = (fs.find? (·.key == key.toList)).bind (·.value.str?) := by
  have hrel := h.get?_eq key.toList
  rw [String.ofList_toList] at hrel
  generalize v.get? key = o, fs.find? (·.key == key.toList) = o' at hrel
  cases hrel with
  | none => rfl
  | some hw => exact hw.str?_eq

end Lookup

/-! ## Reading a layout -/

/-- Cells that are as their nodes say hold what the nodes stand for. -/
theorem holdsAt_of_shows {nodes : Array Node} {cells : Array Cell} {made : Nat → Prop}
    (hsize : cells.size = nodes.size)
    (hfits : ∀ n, made n → Construction.Fits nodes made n (cells.getD n (.scalar .null)))
    {w : Layout} {n : Nat} (hw : Graph.Shows nodes w n) (hn : made n) : HoldsAt cells w n := by
  have hfit := hfits n hn
  induction w using Layout.induct generalizing n with
  | scalar t =>
    rw [Graph.Shows] at hw
    obtain ⟨⟨mark, hnode⟩, -⟩ := hw
    rw [HoldsAt, hsize]
    exact ⟨Graph.lt_size_of_getElem? hnode, hfit.eq_scalar hnode⟩
  | items xs ih =>
    rw [Graph.Shows] at hw
    obtain ⟨ms, mark, hnode, hshow⟩ := hw
    obtain ⟨hcell, hmade⟩ := hfit.eq_list hnode
    rw [HoldsAt, hsize]
    refine ⟨Graph.lt_size_of_getElem? hnode, ms, hcell, itemsHold_iff.mpr ?_⟩
    rw [Graph.itemsShow_iff, List.forall₂_iff_zip] at hshow
    rw [List.forall₂_iff_zip]
    refine ⟨hshow.1, fun {x m} hxm => ?_⟩
    obtain ⟨hx, hm⟩ := List.of_mem_zip hxm
    obtain ⟨hlt, hshows⟩ := hshow.2 hxm
    exact ⟨hlt, ih x hx hshows (hmade m hm) (hfits m (hmade m hm))⟩
  | fields fs ih =>
    rw [Graph.Shows] at hw
    obtain ⟨ps, mark, hnode, -, hshow⟩ := hw
    obtain ⟨es, hcell, hes⟩ := hfit.eq_map hnode
    rw [HoldsAt, hsize]
    refine ⟨Graph.lt_size_of_getElem? hnode, es, hcell, fieldsHold_iff.mpr ?_⟩
    rw [Graph.fieldsShow_iff] at hshow
    clear hcell hnode hfit
    induction hshow generalizing es with
    | nil =>
      rw [List.forall₂_nil_left_iff.mp hes]
      exact .nil
    | @cons f p fs ps hfp _ ihf =>
      obtain ⟨⟨key, value⟩, es, ⟨hvalue, hm, hkey⟩, hrest, rfl⟩ := List.forall₂_cons_left_iff.mp hes
      obtain rfl : value = p.2 := hvalue
      obtain ⟨-, hat, -, hlt, hshows⟩ := hfp
      exact .cons ⟨Construction.key_eq hkey hat, hlt, ih f List.mem_cons_self hshows hm (hfits _ hm)⟩
        (ihf (fun g hg => ih g (List.mem_cons_of_mem f hg)) es hrest)

end Value

namespace Layout

/-! ## The characters of a layout -/

/-- All characters of a line take one column each. -/
def Inline (l : Line) : Prop := ∀ ch ∈ l, isInline ch = true

theorem inline_blanks (n : Nat) : Inline (blanks n) := fun _ => isInline_of_mem_blanks

theorem Inline.append {l m : Line} (hl : Inline l) (hm : Inline m) : Inline (l ++ m) := by
  intro ch hch
  rcases List.mem_append.mp hch with hch | hch
  · exact hl ch hch
  · exact hm ch hch

theorem inline_scalar {t : List Char} (h : (scalar t).wellFormed = true) : Inline t := by
  rcases wellFormed_scalar_iff.mp h with rfl | ht
  · intro ch hch
    cases hch
  · exact (Token.isText_iff.mp ht).1

theorem inline_key {k : List Char} (h : isKey k = true) : Inline k :=
  fun ch hch => ((Token.isKey_iff.mp h).1 ch hch).1

theorem inline_dashed {c : Nat} {ls : List Line} (h : ∀ l ∈ ls, Inline l) :
    ∀ l ∈ dashed c ls, Inline l := by
  intro l hl
  rcases mem_dashed hl with hl | ⟨m, hm, rfl⟩
  · exact h l hl
  · intro ch hch
    rcases List.mem_or_eq_of_mem_set hch with hch | rfl
    · exact h m hm ch hch
    · decide

theorem inline_lines {v : Layout} (h : v.wellFormed = true) (c : Nat) : ∀ l ∈ lines c v, Inline l := by
  intro l hl
  induction v using Layout.induct generalizing c l with
  | scalar t =>
    rw [lines, List.mem_singleton] at hl
    rw [hl]
    exact (inline_blanks c).append (inline_scalar h)
  | items xs ih =>
    obtain ⟨-, hxs⟩ := wellFormed_items_iff.mp h
    rw [lines, mem_itemLines] at hl
    obtain ⟨x, hx, hl⟩ := hl
    exact inline_dashed (fun m hm => ih x hx (hxs x hx).2 _ m hm) l hl
  | fields fs ih =>
    obtain ⟨-, -, hfs⟩ := wellFormed_fields_iff.mp h
    rw [lines, mem_fieldLines] at hl
    obtain ⟨f, hf, hl⟩ := hl
    obtain ⟨-, hkey, hv⟩ := hfs f hf
    have hhead : Inline (blanks c ++ f.key ++ [':']) :=
      ((inline_blanks c).append (inline_key hkey)).append (by simp [Inline]; decide)
    rcases mem_keyed hl with ⟨t, ht, rfl⟩ | rfl | ⟨hl, -⟩
    · rw [ht] at hv
      exact (hhead.append (inline_blanks _)).append (inline_scalar hv)
    · exact hhead
    · exact ih f hf hv _ l hl

theorem isAcceptable_of_mem_flat {fs : List (Keyed Layout)}
    (h : (Layout.fields fs).wellFormed = true) :
    ∀ ch ∈ flat (fieldLines 0 fs), Value.isAcceptable ch = true := by
  have hlines := inline_lines h 0
  rw [lines] at hlines
  intro ch hch
  obtain ⟨l, hl, hch⟩ := List.mem_flatMap.mp hch
  rcases List.mem_cons.mp hch with rfl | hch
  · decide
  · have hinline := hlines l hl ch hch
    simp only [isInline, Bool.and_eq_true] at hinline
    exact hinline.1.1.1

end Layout

/-- The text of well-formed fields, with any gaps in it, is read as a value that holds them. -/
theorem Value.ofText_loose {limits : Limits} {fs : List (Keyed Layout)}
    (h : (Layout.fields fs).wellFormed = true)
    (hdepth : (Layout.fields fs).depth ≤ limits.nesting) {text : List Char}
    (hloose : Layout.Loosens (Layout.flat (Layout.fieldLines 0 fs)) ('\n' :: text)) :
    ∃ v, Value.ofText limits text = .ok (some v) ∧ v.Holds (.fields fs) := by
  obtain ⟨ts, hscan, hts⟩ := Token.scan_loose h hloose
  obtain ⟨es, hevents, hes⟩ := Event.ofTokens_text hts
  obtain ⟨nodes, hgraph, hroot, hall⟩ := Graph.ofEvents_text h hdepth hes
  obtain ⟨cells, made, hvalue, hsize, hmade, hfits⟩ := Value.ofGraph_eq limits hall hroot
  refine ⟨⟨cells, 0⟩, ?_, Value.holdsAt_of_shows hsize hfits hroot hmade⟩
  have hnone : text.find? (!Value.isAcceptable ·) = none := by
    rw [List.find?_eq_none]
    intro ch hch
    rcases hloose.mem (List.mem_cons_of_mem '\n' hch) with hch | rfl | rfl
    · rw [Layout.isAcceptable_of_mem_flat h ch hch]
      simp
    · decide
    · decide
  rw [Value.ofText, hnone, hscan, hevents, hgraph]
  simp only [bind, Except.bind, hvalue, pure, Except.pure]

end Yaml
end TalkDeck
