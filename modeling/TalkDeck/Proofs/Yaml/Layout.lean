import TalkDeck.Deck.Fragment

/-
Values written in block style: one line for each key and each dash, deeper values further in, and
text that needs no quotes.  A layout says how such a text is laid out, `lines` writes it, and
`tree` is the value it stands for; the files beside this one show that reading the lines gives the
tree.
-/

namespace TalkDeck
namespace Yaml

/-- A value under a key.  `gap` is the number of blanks between the colon and a text, and how much
further in than the key a collection stands. -/
structure Keyed (α : Type) where
  key : List Char
  gap : Nat
  value : α

/-- A value after a dash, with the number of blanks between the two. -/
structure Dashed (α : Type) where
  gap : Nat
  value : α

inductive Layout where
  /-- A text on the rest of its line.  No text stands for null. -/
  | scalar (text : List Char)
  | items (xs : List (Dashed Layout))
  | fields (fs : List (Keyed Layout))

namespace Layout

/-- The members of a collection come before the collection. -/
@[elab_as_elim]
theorem induct {P : Layout → Prop} (scalar : ∀ t, P (.scalar t))
    (items : ∀ xs, (∀ x ∈ xs, P x.value) → P (.items xs))
    (fields : ∀ fs, (∀ f ∈ fs, P f.value) → P (.fields fs)) : ∀ v, P v
  | .scalar t => scalar t
  | .items xs => items xs fun x hx => by
      have hsize : sizeOf x.value < 1 + sizeOf xs := by
        have hlt := List.sizeOf_lt_of_mem hx
        obtain ⟨gap, value⟩ := x
        simp only [Dashed.mk.sizeOf_spec] at hlt
        simp only
        omega
      exact induct scalar items fields x.value
  | .fields fs => fields fs fun f hf => by
      have hsize : sizeOf f.value < 1 + sizeOf fs := by
        have hlt := List.sizeOf_lt_of_mem hf
        obtain ⟨key, gap, value⟩ := f
        simp only [Keyed.mk.sizeOf_spec] at hlt
        simp only
        omega
      exact induct scalar items fields f.value
termination_by v => v

/-! ## The lines of a layout -/

def blanks (n : Nat) : List Char := List.replicate n ' '

def isScalar : Layout → Bool
  | .scalar _ => true
  | _ => false

/-- Whether there is nothing to write. -/
def isNothing : Layout → Bool
  | .scalar t => t.isEmpty
  | _ => false

/-- Lines with a dash in column `c` of the first. -/
def dashed (c : Nat) : List Line → List Line
  | [] => []
  | l :: ls => l.set c '-' :: ls

/-- A key with its colon, and the value after it: a text on the same line, and anything else on
lines of its own. -/
def keyed (head : Line) (gap : Nat) (ls : List Line) : Layout → List Line
  | .scalar t => [head ++ blanks gap ++ t]
  | _ => head :: ls

mutual

/-- The lines of a value that stands in column `c`. -/
def lines (c : Nat) : Layout → List Line
  | .scalar t => [blanks c ++ t]
  | .items xs => itemLines c xs
  | .fields fs => fieldLines c fs

def itemLines (c : Nat) : List (Dashed Layout) → List Line
  | [] => []
  | ⟨gap, x⟩ :: xs => dashed c (lines (c + 1 + gap) x) ++ itemLines c xs

def fieldLines (c : Nat) : List (Keyed Layout) → List Line
  | [] => []
  | ⟨key, gap, v⟩ :: fs =>
    keyed (blanks c ++ key ++ [':']) gap (lines (c + gap) v) v ++ fieldLines c fs

end

/-- The text of a block with these fields. -/
def text (fs : List (Keyed Layout)) : List Char := Text.unlines (fieldLines 0 fs)

/-! ## Layouts that can be read -/

/-- A character that stands on a line and takes one column. -/
def isInline (c : Char) : Bool :=
  Value.isAcceptable c && !isBreak c && c != '\t' && c.toNat != 0xFEFF

/-- A key: no blank and no colon, not to be taken for a sign, and short enough to be found. -/
def isKey (k : List Char) : Bool :=
  k.all (fun c => isInline c && !Text.isBlank c && c != ':') && decide (k.length ≤ 1024) &&
    k.head?.any (fun c => !Scanner.isIndicator c && c != '.') && decide (Scalar.tagOf k = Tag.str)

/-- Whether no colon ends a word and no number sign begins one. -/
def flows : List Char → Bool
  | [] => true
  | [c] => c != ':'
  | c :: d :: cs => !(c == ':' && d == ' ') && !(c == ' ' && d == '#') && flows (d :: cs)

end Layout

/-- The value of a text without quotes, unless it is malformed. -/
def Scalar.ofPlain? (t : List Char) : Option Scalar :=
  (Construction.scalarReader? (tagOf t)).bind fun read =>
    (read ⟨tagOf t, .scalar t, ⟨0, 0, 0⟩⟩ t).toOption

namespace Layout

/-- A text that is read as one scalar up to the end of its line. -/
def isText (t : List Char) : Bool :=
  t.all isInline && Scanner.opensPlain false (t.headD nul) (t.getD 1 nul) && flows t &&
    t.head?.any (!Text.isBlank ·) && t.getLast?.any (!Text.isBlank ·) && (Scalar.ofPlain? t).isSome

mutual

/-- Whether the lines of a layout can be read. -/
def wellFormed : Layout → Bool
  | .scalar t => t.isEmpty || isText t
  | .items xs => !xs.isEmpty && itemsWellFormed xs
  | .fields fs => !fs.isEmpty && decide ((fs.map (·.key)).Nodup) && fieldsWellFormed fs

def itemsWellFormed : List (Dashed Layout) → Bool
  | [] => true
  | ⟨gap, x⟩ :: xs =>
    (decide (0 < gap) || x.isNothing) && wellFormed x && itemsWellFormed xs

def fieldsWellFormed : List (Keyed Layout) → Bool
  | [] => true
  | ⟨key, gap, v⟩ :: fs =>
    (decide (0 < gap) || v.isNothing) && isKey key && wellFormed v && fieldsWellFormed fs

end

mutual

/-- How deep the collections of a layout nest. -/
def depth : Layout → Nat
  | .scalar _ => 0
  | .items xs => itemsDepth xs + 1
  | .fields fs => fieldsDepth fs + 1

def itemsDepth : List (Dashed Layout) → Nat
  | [] => 0
  | ⟨_, x⟩ :: xs => max (depth x) (itemsDepth xs)

def fieldsDepth : List (Keyed Layout) → Nat
  | [] => 0
  | ⟨_, _, v⟩ :: fs => max (depth v) (fieldsDepth fs)

end

/-! ## The value of a layout -/

mutual

def tree : Layout → Tree
  | .scalar t => .scalar ((Scalar.ofPlain? t).getD .null)
  | .items xs => .list (itemTrees xs)
  | .fields fs => .map (fieldTrees fs)

def itemTrees : List (Dashed Layout) → List Tree
  | [] => []
  | ⟨_, x⟩ :: xs => tree x :: itemTrees xs

def fieldTrees : List (Keyed Layout) → List (Scalar × Tree)
  | [] => []
  | ⟨key, _, v⟩ :: fs => (.str (String.ofList key), tree v) :: fieldTrees fs

end

example :
    text [⟨"type".toList, 1, .scalar "sequence".toList⟩,
      ⟨"steps".toList, 2, .items [⟨1, .fields [⟨"type".toList, 1, .scalar "a.b".toList⟩,
        ⟨"n".toList, 1, .scalar "-1".toList⟩]⟩]⟩] =
      "type: sequence\nsteps:\n  - type: a.b\n    n: -1".toList := by decide

example : wellFormed (.fields [⟨"type".toList, 1, .scalar "sequence".toList⟩,
      ⟨"steps".toList, 2, .items [⟨1, .fields [⟨"type".toList, 1, .scalar "a.b".toList⟩,
        ⟨"n".toList, 1, .scalar "-1".toList⟩]⟩]⟩]) = true := by decide +kernel

/-! ## Well-formed members -/

/-- A gap is needed before anything but an empty text. -/
def Spaced (gap : Nat) (v : Layout) : Prop := 0 < gap ∨ v = .scalar []

theorem spaced_iff {gap : Nat} {v : Layout} :
    (decide (0 < gap) || v.isNothing) = true ↔ Spaced gap v := by
  cases v <;> simp [Spaced, isNothing]

theorem itemsWellFormed_iff {xs : List (Dashed Layout)} :
    itemsWellFormed xs = true ↔ ∀ x ∈ xs, Spaced x.gap x.value ∧ x.value.wellFormed = true := by
  induction xs with
  | nil => simp [itemsWellFormed]
  | cons x xs ih =>
    rw [itemsWellFormed, Bool.and_eq_true, Bool.and_eq_true, spaced_iff, ih, List.forall_mem_cons]

theorem fieldsWellFormed_iff {fs : List (Keyed Layout)} :
    fieldsWellFormed fs = true ↔
      ∀ f ∈ fs, Spaced f.gap f.value ∧ isKey f.key = true ∧ f.value.wellFormed = true := by
  induction fs with
  | nil => simp [fieldsWellFormed]
  | cons f fs ih =>
    rw [fieldsWellFormed, Bool.and_eq_true, Bool.and_eq_true, Bool.and_eq_true, spaced_iff, ih,
      List.forall_mem_cons]
    simp only [and_assoc]

theorem wellFormed_items_iff {xs : List (Dashed Layout)} :
    (items xs).wellFormed = true ↔
      xs ≠ [] ∧ ∀ x ∈ xs, Spaced x.gap x.value ∧ x.value.wellFormed = true := by
  rw [wellFormed, Bool.and_eq_true, itemsWellFormed_iff]
  simp

theorem wellFormed_fields_iff {fs : List (Keyed Layout)} :
    (fields fs).wellFormed = true ↔
      fs ≠ [] ∧ (fs.map (·.key)).Nodup ∧
        ∀ f ∈ fs, Spaced f.gap f.value ∧ isKey f.key = true ∧ f.value.wellFormed = true := by
  rw [wellFormed, Bool.and_eq_true, Bool.and_eq_true, fieldsWellFormed_iff, decide_eq_true_iff,
    and_assoc]
  simp

theorem wellFormed_scalar_iff {t : List Char} :
    (scalar t).wellFormed = true ↔ t = [] ∨ isText t = true := by
  rw [wellFormed, Bool.or_eq_true, List.isEmpty_iff]

/-! ## Members of the lines -/

theorem mem_itemLines {c : Nat} {xs : List (Dashed Layout)} {l : Line} :
    l ∈ itemLines c xs ↔ ∃ x ∈ xs, l ∈ dashed c (lines (c + 1 + x.gap) x.value) := by
  induction xs with
  | nil => simp [itemLines]
  | cons x xs ih =>
    rw [itemLines, List.mem_append, ih]
    simp only [List.mem_cons, exists_eq_or_imp]

theorem mem_fieldLines {c : Nat} {fs : List (Keyed Layout)} {l : Line} :
    l ∈ fieldLines c fs ↔ ∃ f ∈ fs,
      l ∈ keyed (blanks c ++ f.key ++ [':']) f.gap (lines (c + f.gap) f.value) f.value := by
  induction fs with
  | nil => simp [fieldLines]
  | cons f fs ih =>
    rw [fieldLines, List.mem_append, ih]
    simp only [List.mem_cons, exists_eq_or_imp]

theorem mem_dashed {c : Nat} {ls : List Line} {l : Line} (h : l ∈ dashed c ls) :
    l ∈ ls ∨ ∃ m ∈ ls, l = m.set c '-' := by
  cases ls with
  | nil => cases h
  | cons m ls =>
    rcases List.mem_cons.mp h with rfl | h
    · exact Or.inr ⟨m, List.mem_cons_self, rfl⟩
    · exact Or.inl (List.mem_cons_of_mem m h)

theorem mem_keyed {head : Line} {gap : Nat} {ls : List Line} {v : Layout} {l : Line}
    (h : l ∈ keyed head gap ls v) :
    (∃ t, v = .scalar t ∧ l = head ++ blanks gap ++ t) ∨ l = head ∨ l ∈ ls ∧ v.isScalar = false := by
  cases v with
  | scalar t => exact Or.inl ⟨t, rfl, List.mem_singleton.mp h⟩
  | items xs => exact Or.inr ((List.mem_cons.mp h).imp_right fun h => ⟨h, rfl⟩)
  | fields fs => exact Or.inr ((List.mem_cons.mp h).imp_right fun h => ⟨h, rfl⟩)

/-! ## The lines as one text -/

@[simp]
theorem length_blanks (n : Nat) : (blanks n).length = n := List.length_replicate

theorem blanks_add (m n : Nat) : blanks (m + n) = blanks m ++ blanks n :=
  List.replicate_append_replicate.symm

/-- Lines that follow another, each with the line end before it. -/
def flat (ls : List Line) : List Char := ls.flatMap ('\n' :: ·)

@[simp]
theorem flat_nil : flat [] = [] := rfl

@[simp]
theorem flat_cons (l : Line) (ls : List Line) : flat (l :: ls) = '\n' :: (l ++ flat ls) := rfl

@[simp]
theorem flat_append (ls ms : List Line) : flat (ls ++ ms) = flat ls ++ flat ms :=
  List.flatMap_append

theorem newline_cons_unlines {ls : List Line} (h : ls ≠ []) :
    '\n' :: Text.unlines ls = flat ls := by
  induction ls with
  | nil => exact absurd rfl h
  | cons l ls ih =>
    cases ls with
    | nil => simp [Text.unlines, Text.joinWith]
    | cons m ms =>
      have hrest := ih (List.cons_ne_nil m ms)
      rw [flat_cons, ← hrest]
      simp [Text.unlines, Text.joinWith]

/-- What is written in column `c` and after it. -/
def body (c : Nat) (v : Layout) : List Char := (flat (lines c v)).drop (c + 1)

/-- What is written after the colon of a key in column `c`. -/
def after (c gap : Nat) : Layout → List Char
  | .scalar t => blanks gap ++ t
  | v => flat (lines (c + gap) v)

theorem flat_keyed (c gap : Nat) (key : List Char) (v : Layout) :
    flat (keyed (blanks c ++ key ++ [':']) gap (lines (c + gap) v) v) =
      '\n' :: (blanks c ++ (key ++ ':' :: after c gap v)) := by
  cases v <;> simp [keyed, after]

theorem set_blanks (c gap : Nat) (l : Line) :
    (blanks (c + 1 + gap) ++ l).set c '-' = blanks c ++ '-' :: (blanks gap ++ l) := by
  have hsplit : blanks (c + 1 + gap) ++ l = blanks c ++ ' ' :: (blanks gap ++ l) := by
    rw [blanks_add, blanks_add]
    simp [blanks]
  rw [hsplit, List.set_append_right _ _ (by simp)]
  simp

theorem lines_eq_cons {v : Layout} (h : v.wellFormed = true) (c : Nat) :
    ∃ l ls, lines c v = (blanks c ++ l) :: ls := by
  induction v using induct generalizing c with
  | scalar t => exact ⟨t, [], by rw [lines]⟩
  | items xs ih =>
    obtain ⟨hne, hxs⟩ := wellFormed_items_iff.mp h
    obtain ⟨⟨gap, x⟩, xs, rfl⟩ := List.exists_cons_of_ne_nil hne
    obtain ⟨l, ls, hl⟩ := ih _ List.mem_cons_self (hxs _ List.mem_cons_self).2 (c + 1 + gap)
    refine ⟨'-' :: (blanks gap ++ l), ls ++ itemLines c xs, ?_⟩
    rw [lines, itemLines, hl, dashed, set_blanks]
    rfl
  | fields fs ih =>
    obtain ⟨hne, -, -⟩ := wellFormed_fields_iff.mp h
    obtain ⟨⟨key, gap, v⟩, fs, rfl⟩ := List.exists_cons_of_ne_nil hne
    rw [lines, fieldLines]
    cases v with
    | scalar t => exact ⟨key ++ ':' :: (blanks gap ++ t), fieldLines c fs, by simp [keyed]⟩
    | items xs => exact ⟨key ++ [':'], lines (c + gap) (.items xs) ++ fieldLines c fs, by simp [keyed]⟩
    | fields gs => exact ⟨key ++ [':'], lines (c + gap) (.fields gs) ++ fieldLines c fs, by simp [keyed]⟩

theorem flat_lines {v : Layout} (h : v.wellFormed = true) (c : Nat) :
    flat (lines c v) = '\n' :: (blanks c ++ body c v) := by
  obtain ⟨l, ls, hl⟩ := lines_eq_cons h c
  rw [body, hl, flat_cons, List.append_assoc, List.drop_succ_cons, List.drop_left' (length_blanks c)]

theorem body_scalar (c : Nat) (t : List Char) : body c (.scalar t) = t := by
  rw [body, lines, flat_cons, flat_nil, List.append_nil, List.drop_succ_cons,
    List.drop_left' (length_blanks c)]

theorem body_items {x : Layout} (h : x.wellFormed = true) (c gap : Nat) (xs : List (Dashed Layout)) :
    body c (.items (⟨gap, x⟩ :: xs)) =
      '-' :: (blanks gap ++ body (c + 1 + gap) x ++ flat (itemLines c xs)) := by
  obtain ⟨l, ls, hl⟩ := lines_eq_cons h (c + 1 + gap)
  have hbody : body (c + 1 + gap) x = l ++ flat ls := by
    rw [body, hl, flat_cons, List.append_assoc, List.drop_succ_cons,
      List.drop_left' (length_blanks _)]
  rw [hbody, body, lines, itemLines, hl, dashed, set_blanks, List.cons_append, flat_cons,
    List.append_assoc, List.drop_succ_cons, List.drop_left' (length_blanks c), flat_append]
  simp

theorem body_fields (c gap : Nat) (key : List Char) (v : Layout) (fs : List (Keyed Layout)) :
    body c (.fields (⟨key, gap, v⟩ :: fs)) =
      key ++ ':' :: (after c gap v ++ flat (fieldLines c fs)) := by
  rw [body, lines, fieldLines, flat_append, flat_keyed, List.cons_append, List.drop_succ_cons,
    List.append_assoc, List.drop_left' (length_blanks c)]
  simp

theorem flat_fieldLines {fs : List (Keyed Layout)} (hne : fs ≠ []) (c : Nat) :
    flat (fieldLines c fs) = '\n' :: (blanks c ++ body c (.fields fs)) := by
  obtain ⟨⟨key, gap, v⟩, fs, rfl⟩ := List.exists_cons_of_ne_nil hne
  rw [body_fields, fieldLines, flat_append, flat_keyed]
  simp

end Layout
end Yaml
end TalkDeck
