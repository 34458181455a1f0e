import TalkDeck.Yaml.Display

/-
Which values have a text.

Showing a tree takes a number of nested calls that its shape alone decides (`Tree.calls`).  A tree has a
text exactly if that many calls are allowed and no integer in it is too long, whatever it stands in
(`Tree.isOk_inner_iff`).  A value that is one scalar takes no nested call (`Value.Showable`).
-/

namespace TalkDeck
namespace Yaml

theorem isOk_map {ε α β : Type} (x : Except ε α) (f : α → β) :
    (do return f (← x) : Except ε β).isOk = x.isOk := by
  cases x <;> rfl

theorem isOk_map₂ {ε α β γ : Type} (x : Except ε α) (y : Except ε β) (f : α → β → γ) :
    (do let a ← x; let b ← y; return f a b : Except ε γ).isOk = (x.isOk && y.isOk) := by
  cases x with
  | error e => rfl
  | ok a => cases y <;> rfl

theorem isOk_map₃ {ε α β γ δ : Type} (x : Except ε α) (y : Except ε β) (z : Except ε γ)
    (f : α → β → γ → δ) :
    (do let a ← x; let b ← y; let c ← z; return f a b c : Except ε δ).isOk =
      (x.isOk && (y.isOk && z.isOk)) := by
  cases x with
  | error e => rfl
  | ok a => exact isOk_map₂ y z (f a)

namespace Scalar

/-- No integer that has too many digits. -/
def Short : Scalar → Prop
  | int i => i.natAbs < tenTo Numeral.maxDigits
  | _ => True

theorem isOk_inner_iff {s : Scalar} : s.inner.isOk = true ↔ s.Short := by
  cases s with
  | int i =>
    rw [inner, Short]
    split
    · next h => exact ⟨nofun, fun hlt => absurd h (Nat.not_le.mpr hlt)⟩
    · next h => exact ⟨fun _ => Nat.not_le.mp h, fun _ => rfl⟩
  | _ => exact ⟨fun _ => trivial, fun _ => rfl⟩

theorem isOk_plain_iff {s : Scalar} : s.plain.isOk = true ↔ s.Short := by
  cases s with
  | int i =>
    rw [plain]
    · exact isOk_inner_iff
    · exact nofun
    · exact nofun
    · exact nofun
  | _ => exact ⟨fun _ => trivial, fun _ => rfl⟩

theorem isOk_within_iff {s : Scalar} {room : Nat} :
    (s.within room).isOk = true ↔ s.calls ≤ room ∧ s.Short := by
  rw [within]
  split
  · next h => exact ⟨nofun, fun hfits => absurd h (Nat.not_lt.mpr hfits.1)⟩
  · next h => rw [isOk_inner_iff, and_iff_right (Nat.not_lt.mp h)]

theorem isOk_mapM_within_iff {ss : List Scalar} {room : Nat} :
    (ss.mapM (within room)).isOk = true ↔
      (ss.map calls).foldr max 0 ≤ room ∧ ∀ s ∈ ss, s.Short := by
  induction ss with
  | nil => exact ⟨fun _ => ⟨Nat.zero_le _, nofun⟩, fun _ => rfl⟩
  | cons s ss ih =>
    rw [List.mapM_cons, isOk_map₂ (f := List.cons), Bool.and_eq_true, isOk_within_iff, ih,
      List.map_cons, List.foldr_cons, Nat.max_le, List.forall_mem_cons, and_and_and_comm]

end Scalar

namespace Tree

mutual

/-- The nested calls that showing a tree takes. -/
def calls : Tree → Nat
  | .scalar s => s.calls
  | .list items => itemsCalls items + 1
  | .pair a b => max (calls a) (calls b) + 1
  | .map entries => entriesCalls entries + 1
  | .set members => if members.isEmpty then 1 else (members.map Scalar.calls).foldr max 0 + 2
  | .record _ fields => fieldsCalls fields + 2
  | .cycle _ => 1

def itemsCalls : List Tree → Nat
  | [] => 0
  | t :: ts => max (calls t) (itemsCalls ts)

def entriesCalls : List (Scalar × Tree) → Nat
  | [] => 0
  | (k, t) :: es => max k.calls (max (calls t) (entriesCalls es))

def fieldsCalls : List (String × Tree) → Nat
  | [] => 0
  | (_, t) :: fs => max (calls t) (fieldsCalls fs)

end

mutual

/-- The scalars in a tree, keys among them. -/
def scalars : Tree → List Scalar
  | .scalar s => [s]
  | .list items => itemsScalars items
  | .pair a b => scalars a ++ scalars b
  | .map entries => entriesScalars entries
  | .set members => members
  | .record _ fields => fieldsScalars fields
  | .cycle _ => []

def itemsScalars : List Tree → List Scalar
  | [] => []
  | t :: ts => scalars t ++ itemsScalars ts

def entriesScalars : List (Scalar × Tree) → List Scalar
  | [] => []
  | (k, t) :: es => k :: (scalars t ++ entriesScalars es)

def fieldsScalars : List (String × Tree) → List Scalar
  | [] => []
  | (_, t) :: fs => scalars t ++ fieldsScalars fs

end

theorem calls_pos (t : Tree) : 0 < t.calls := by
  cases t with
  | scalar s =>
    rw [calls]
    unfold Scalar.calls
    split
    · split
      · decide
      · split <;> decide
    · decide
  | set members =>
    rw [calls]
    split
    · decide
    · exact Nat.succ_pos _
  | _ => simp [calls]

mutual

/-- A tree has a text exactly if enough calls are allowed and no integer in it is too long. -/
theorem isOk_inner_iff (around : List String) (room : Nat) (t : Tree) :
    (t.inner around room).isOk = true ↔ t.calls ≤ room ∧ ∀ s ∈ t.scalars, s.Short := by
  cases room with
  | zero =>
    have hpos := t.calls_pos
    rw [inner]
    exact ⟨nofun, fun h => absurd h.1 (Nat.not_le.mpr hpos)⟩
  | succ room =>
    match t with
    | .scalar s =>
      rw [inner, Scalar.isOk_within_iff, calls, scalars, List.forall_mem_singleton]
    | .list items =>
      rw [inner, isOk_map, isOk_innerItems_iff, calls, scalars, Nat.add_le_add_iff_right]
    | .pair a b =>
      rw [inner, isOk_map₂, Bool.and_eq_true, isOk_inner_iff, isOk_inner_iff, calls, scalars,
        Nat.add_le_add_iff_right, Nat.max_le, List.forall_mem_append, and_and_and_comm]
    | .map entries =>
      rw [inner, isOk_map, isOk_innerEntries_iff, calls, scalars, Nat.add_le_add_iff_right]
    -- A set and a record show what is in them by one more call.
    | .set members =>
      rw [inner, calls, scalars]
      cases members with
      | nil => exact ⟨fun _ => ⟨Nat.succ_pos _, nofun⟩, fun _ => rfl⟩
      | cons s ss =>
        rw [List.isEmpty_cons, if_neg Bool.false_ne_true, if_neg Bool.false_ne_true]
        cases room with
        | zero => exact ⟨nofun, fun h => absurd h.1 (by omega)⟩
        | succ room =>
          rw [if_neg (Nat.succ_ne_zero room), isOk_map, Nat.succ_sub_one,
            Scalar.isOk_mapM_within_iff, Nat.add_le_add_iff_right]
    | .record name fields =>
      rw [inner, calls, scalars]
      cases room with
      | zero => exact ⟨nofun, fun h => absurd h.1 (by omega)⟩
      | succ room =>
        rw [if_neg (Nat.succ_ne_zero room), isOk_map, Nat.succ_sub_one, isOk_innerFields_iff,
          Nat.add_le_add_iff_right]
    | .cycle up =>
      rw [inner, calls, scalars]
      exact ⟨fun _ => ⟨Nat.succ_pos _, nofun⟩, fun _ => rfl⟩

theorem isOk_innerItems_iff (around : List String) (room : Nat) (ts : List Tree) :
    (innerItems around room ts).isOk = true ↔
      itemsCalls ts ≤ room ∧ ∀ s ∈ itemsScalars ts, s.Short := by
  match ts with
  | [] => exact ⟨fun _ => ⟨Nat.zero_le _, nofun⟩, fun _ => rfl⟩
  | t :: ts =>
    rw [innerItems, isOk_map₂ (f := List.cons), Bool.and_eq_true, isOk_inner_iff, isOk_innerItems_iff,
      itemsCalls, itemsScalars, Nat.max_le, List.forall_mem_append, and_and_and_comm]

theorem isOk_innerEntries_iff (around : List String) (room : Nat) (es : List (Scalar × Tree)) :
    (innerEntries around room es).isOk = true ↔
      entriesCalls es ≤ room ∧ ∀ s ∈ entriesScalars es, s.Short := by
  match es with
  | [] => exact ⟨fun _ => ⟨Nat.zero_le _, nofun⟩, fun _ => rfl⟩
  | (k, t) :: es =>
    rw [innerEntries, isOk_map₃ (f := fun key value rest => (key ++ ": " ++ value) :: rest),
      Bool.and_eq_true, Bool.and_eq_true, Scalar.isOk_within_iff, isOk_inner_iff,
      isOk_innerEntries_iff, entriesCalls, entriesScalars, Nat.max_le, Nat.max_le,
      List.forall_mem_cons, List.forall_mem_append]
    constructor
    · rintro ⟨⟨hk, hk'⟩, ⟨ht, ht'⟩, hes, hes'⟩
      exact ⟨⟨hk, ht, hes⟩, hk', ht', hes'⟩
    · rintro ⟨⟨hk, ht, hes⟩, hk', ht', hes'⟩
      exact ⟨⟨hk, hk'⟩, ⟨ht, ht'⟩, hes, hes'⟩

theorem isOk_innerFields_iff (around : List String) (room : Nat) (fs : List (String × Tree)) :
    (innerFields around room fs).isOk = true ↔
      fieldsCalls fs ≤ room ∧ ∀ s ∈ fieldsScalars fs, s.Short := by
  match fs with
  | [] => exact ⟨fun _ => ⟨Nat.zero_le _, nofun⟩, fun _ => rfl⟩
  | (k, t) :: fs =>
    rw [innerFields, isOk_map₂ (f := fun value rest => (k ++ "=" ++ value) :: rest),
      Bool.and_eq_true, isOk_inner_iff, isOk_innerFields_iff, fieldsCalls, fieldsScalars,
      Nat.max_le, List.forall_mem_append, and_and_and_comm]

end

/-- A list in a list, whose member takes a third call. -/
example : (Tree.list [.list [.scalar .null]]).inner [] 2 = .error .tooDeep ∧
    (Tree.list [.list [.scalar .null]]).inner [] 3 = .ok "[[None]]" := ⟨rfl, rfl⟩

end Tree

namespace Value

variable {limits : Limits} {v : Value}

/-- Enough calls are allowed for the parts of a value, of which a scalar has none, and no integer in it
is too long. -/
structure Showable (limits : Limits) (v : Value) : Prop where
  calls_le : (∃ s, v.tree = .scalar s) ∨ v.tree.calls ≤ limits.display
  short : ∀ s ∈ v.tree.scalars, s.Short

theorem isOk_text_iff : (v.text limits).isOk = true ↔ v.Showable limits := by
  rw [text]
  split
  · next s hs =>
    rw [Scalar.isOk_plain_iff]
    constructor
    · intro h
      exact ⟨Or.inl ⟨s, hs⟩, by rwa [hs, Tree.scalars, List.forall_mem_singleton]⟩
    · intro h
      exact h.short s (by rw [hs]; exact List.mem_singleton_self s)
  · next hparts =>
    rw [Tree.isOk_inner_iff]
    constructor
    · intro h
      exact ⟨Or.inr h.1, h.2⟩
    · intro h
      exact ⟨h.calls_le.resolve_left fun ⟨s, hs⟩ => hparts s hs, h.short⟩

theorem not_showable_of_error {e : NoText} (h : v.text limits = .error e) : ¬v.Showable limits := by
  rw [← isOk_text_iff, h]
  exact nofun

end Value

end Yaml
end TalkDeck
