import TalkDeck.Lint.FileTree
import TalkDeck.Proofs.Deck.Reading

/-
File trees that grow.

Making a directory with all above it only adds directories (`FileTree.Grows`): a file stays what it is
and where it is, and a path that leads somewhere still leads there.  Once it has succeeded the
directory is there, and making it again changes nothing (`makeDirectory_again`).  A tree whose places
are listed once and have names for parts (`FileTree.WellFormed`) stays one.
-/

namespace TalkDeck
namespace Lint

/-- What can stand between two slashes of a path. -/
def Path.IsPart (s : String) : Prop := s ≠ "" ∧ s ≠ "." ∧ '/' ∉ s.toList

instance (s : String) : Decidable (Path.IsPart s) := by unfold Path.IsPart; infer_instance

theorem Path.isPart_of_mem_partsOf {cs : List Char} {s : String} (h : s ∈ Path.partsOf cs) :
    Path.IsPart s := by
  obtain ⟨hs, hkept⟩ := List.mem_filter.mp h
  obtain ⟨piece, hpiece, rfl⟩ := List.mem_map.mp hs
  rw [Bool.and_eq_true, bne_iff_ne, bne_iff_ne] at hkept
  refine ⟨hkept.1, hkept.2, ?_⟩
  rw [String.toList_ofList]
  exact Text.not_mem_of_mem_splitAt hpiece

theorem Path.isPart_of_mem_of {text s : String} (h : s ∈ (Path.of text).parts) : Path.IsPart s :=
  Path.isPart_of_mem_partsOf h

namespace FileTree

variable {t u v : FileTree} {p : Path} {place : Place} {parts : List String}

/-! ## Entries -/

theorem lookup_filter_ne {q : Place} (h : q ≠ place) (entries : List (Place × Entry)) :
    (entries.filter (·.1 != place)).lookup q = entries.lookup q := by
  induction entries with
  | nil => rfl
  | cons e entries ih =>
    by_cases he : e.1 = place
    · have hq : (q == e.1) = false := by
        rw [he]
        exact beq_eq_false_iff_ne.mpr h
      rw [List.filter_cons_of_neg (by simp [he]), ih, List.lookup_cons, hq]
    · rw [List.filter_cons_of_pos (by simp [he]), List.lookup_cons, List.lookup_cons, ih]

theorem entryAt_put_self (h : place ≠ []) (t : FileTree) (e : Entry) :
    (t.put place e).entryAt place = some e := by
  rw [entryAt, if_neg h, put, List.lookup_cons, beq_self_eq_true]

theorem entryAt_put_ne {q : Place} (h : q ≠ place) (t : FileTree) (e : Entry) :
    (t.put place e).entryAt q = t.entryAt q := by
  have hq : (q == place) = false := beq_eq_false_iff_ne.mpr h
  rw [entryAt, entryAt, put, List.lookup_cons, hq, lookup_filter_ne h]

theorem ne_nil_of_entryAt (h : t.entryAt place = none) : place ≠ [] := by
  rintro rfl
  cases h

/-! ## Growth -/

/-- All that was there is there still, and what is new is a directory. -/
structure Grows (t u : FileTree) : Prop where
  here : u.here = t.here
  kept : ∀ place e, t.entryAt place = some e → u.entryAt place = some e
  made : ∀ place e, u.entryAt place = some e → t.entryAt place = some e ∨ e = .directory

theorem Grows.refl (t : FileTree) : Grows t t :=
  ⟨rfl, fun _ _ h => h, fun _ _ h => Or.inl h⟩

theorem Grows.trans (h : Grows t u) (h' : Grows u v) : Grows t v where
  here := h'.here.trans h.here
  kept := fun place e he => h'.kept place e (h.kept place e he)
  made := by
    intro place e he
    rcases h'.made place e he with he | rfl
    · exact h.made place e he
    · exact Or.inr rfl

/-- Files neither come nor go nor change. -/
theorem Grows.entryAt_iff (h : Grows t u) (place : Place) {e : Entry} (he : e ≠ .directory) :
    u.entryAt place = some e ↔ t.entryAt place = some e := by
  constructor
  · intro hu
    exact (h.made place e hu).resolve_right he
  · exact h.kept place e

theorem grows_put (h : t.entryAt place = none) : Grows t (t.put place .directory) where
  here := rfl
  kept := by
    intro q e hq
    have hne : q ≠ place := by
      rintro rfl
      rw [h] at hq
      cases hq
    rw [entryAt_put_ne hne, hq]
  made := by
    intro q e hq
    by_cases hne : q = place
    · subst hne
      rw [entryAt_put_self (ne_nil_of_entryAt h)] at hq
      exact Or.inr (Option.some.inj hq).symm
    · rw [entryAt_put_ne hne] at hq
      exact Or.inl hq

theorem Grows.walk (h : Grows t u) {start : Place} (hwalk : t.walk start parts = .ok place) :
    u.walk start parts = .ok place := by
  induction parts generalizing start with
  | nil => exact hwalk
  | cons part parts ih =>
    rw [FileTree.walk] at hwalk ⊢
    cases hentry : t.entryAt start with
    | none =>
      rw [hentry] at hwalk
      cases hwalk
    | some e =>
      rw [hentry] at hwalk
      rw [h.kept start e hentry]
      cases e with
      | directory =>
        simp only at hwalk ⊢
        split
        · next hlong =>
          rw [if_pos hlong] at hwalk
          cases hwalk
        · next hlong =>
          rw [if_neg hlong] at hwalk
          exact ih hwalk
      | file octets => cases hwalk
      | unreadable => cases hwalk

theorem Grows.placeOf (h : Grows t u) (hplace : t.placeOf p = .ok place) :
    u.placeOf p = .ok place := by
  unfold FileTree.placeOf at hplace ⊢
  split
  · next hlong =>
    rw [if_pos hlong] at hplace
    cases hplace
  · next hlong =>
    rw [if_neg hlong] at hplace
    rw [origin, h.here]
    exact h.walk hplace

/-! ## Directories -/

theorem isDirectory_eq (hnul : p.hasNul = false) (hplace : t.placeOf p = .ok place)
    (hentry : t.entryAt place = some .directory) : t.isDirectory p = .ok true := by
  rw [isDirectory, find?, hnul, hplace]
  show (Except.ok (t.entryAt place == some .directory) : Except Obstacle Bool) = .ok true
  rw [hentry]
  rfl

theorem exists_of_isDirectory (h : t.isDirectory p = .ok true) :
    p.hasNul = false ∧ ∃ place, t.placeOf p = .ok place ∧ t.entryAt place = some .directory := by
  obtain ⟨found, hfound, heq⟩ := bind_eq_ok_iff.mp h
  have hsome : found = some .directory := beq_iff_eq.mp (Except.ok.inj heq)
  unfold find? at hfound
  split at hfound
  · cases hfound
    cases hsome
  · next hnul =>
    refine ⟨Bool.eq_false_iff.mpr hnul, ?_⟩
    split at hfound
    · next place hplace =>
      exact ⟨place, hplace, (Except.ok.inj hfound).trans hsome⟩
    · cases hfound
    · cases hfound
      cases hsome

theorem makeOne_eq_ok (h : t.makeOne p = .ok u) :
    ∃ place, t.placeOf p = .ok place ∧ t.entryAt place = none ∧ u = t.put place .directory := by
  obtain ⟨place, hplace, h⟩ := bind_eq_ok_iff.mp h
  split at h
  · cases h
  · next hfree =>
    refine ⟨place, hplace, ?_, (Except.ok.inj h).symm⟩
    rw [not_or, not_or, Option.not_isSome_iff_eq_none] at hfree
    exact hfree.2.2

/-- Nothing can be made where there is something already. -/
theorem makeOne_taken (h : t.isDirectory p = .ok true) : t.makeOne p = .error .taken := by
  obtain ⟨-, place, hplace, hentry⟩ := exists_of_isDirectory h
  rw [makeOne, hplace]
  show (if p.parts = [] ∨ p.name = ".." ∨ (t.entryAt place).isSome then _ else _) = _
  rw [if_pos (Or.inr (Or.inr (by rw [hentry]; rfl)))]

theorem makeLast_again (h : t.isDirectory p = .ok true) : t.makeLast p true = (t, none) := by
  rw [makeLast, makeOne_taken h]
  simp only [h]
  rfl

theorem upTo_length (p : Path) : p.upTo p.parts.length = p := by
  rw [Path.upTo, List.take_length]

/-- A directory that is there can be made again. -/
theorem makeDirectory_again (h : t.isDirectory p = .ok true) :
    t.makeDirectory p true = (t, none) := by
  have hlast : t.makeLast (p.upTo p.parts.length) true = (t, none) := by
    rw [upTo_length]
    exact makeLast_again h
  have hone : t.makeOne (p.upTo p.parts.length) = .error .taken := by
    rw [upTo_length]
    exact makeOne_taken h
  unfold makeDirectory
  cases hn : p.parts.length with
  | zero =>
    rw [hn] at hlast
    exact hlast
  | succ n =>
    rw [hn] at hlast hone
    rw [makeUpTo, hone]
    exact hlast

/-! ## What making a directory keeps -/

/-- A tree on which paths behave: no place is listed twice, and names are parts of paths. -/
structure WellFormed (t : FileTree) : Prop where
  nodup : (t.entries.map (·.1)).Nodup
  names : ∀ q ∈ t.entries, ∀ s ∈ q.1, Path.IsPart s
  here : ∀ s ∈ t.here, Path.IsPart s

theorem WellFormed.put (h : t.WellFormed) (hplace : ∀ s ∈ place, Path.IsPart s) (e : Entry) :
    (t.put place e).WellFormed where
  nodup := by
    rw [FileTree.put, List.map_cons, List.nodup_cons]
    refine ⟨?_, h.nodup.sublist (List.filter_sublist.map _)⟩
    intro hmem
    obtain ⟨q, hq, heq⟩ := List.mem_map.mp hmem
    have hne := (List.mem_filter.mp hq).2
    rw [heq, bne_self_eq_false] at hne
    cases hne
  names := by
    intro q hq
    rcases List.mem_cons.mp hq with rfl | hq
    · exact hplace
    · exact h.names q (List.mem_filter.mp hq).1
  here := h.here

theorem isPart_of_walk {start : Place} (hstart : ∀ s ∈ start, Path.IsPart s)
    (hparts : ∀ s ∈ parts, Path.IsPart s) (h : t.walk start parts = .ok place) :
    ∀ s ∈ place, Path.IsPart s := by
  induction parts generalizing start with
  | nil =>
    cases h
    exact hstart
  | cons part parts ih =>
    have hnext : ∀ s ∈ stepTo start part, Path.IsPart s := by
      intro s hs
      unfold stepTo at hs
      split at hs
      · exact hstart s (List.dropLast_subset _ hs)
      · rcases List.mem_append.mp hs with hs | hs
        · exact hstart s hs
        · rw [List.mem_singleton.mp hs]
          exact hparts part List.mem_cons_self
    rw [walk] at h
    split at h
    · cases h
    · split at h
      · cases h
      · exact ih hnext (fun s hs => hparts s (List.mem_cons_of_mem _ hs)) h
    · cases h

theorem WellFormed.placeOf (ht : t.WellFormed) (hparts : ∀ s ∈ p.parts, Path.IsPart s)
    (h : t.placeOf p = .ok place) : ∀ s ∈ place, Path.IsPart s := by
  unfold FileTree.placeOf at h
  split at h
  · cases h
  · refine isPart_of_walk ?_ hparts h
    unfold origin
    split
    · exact fun _ hs => absurd hs List.not_mem_nil
    · exact ht.here

/-- A directory has been made: only directories are new, it is one of them or was there, and the tree
is as well formed as before. -/
structure Makes (t : FileTree) (p : Path) (u : FileTree) : Prop where
  grows : Grows t u
  directory : p.hasNul = false → u.isDirectory p = .ok true
  wellFormed : (∀ s ∈ p.parts, Path.IsPart s) → t.WellFormed → u.WellFormed

theorem makes_of_makeOne (h : t.makeOne p = .ok u) : t.Makes p u := by
  obtain ⟨place, hplace, hfree, rfl⟩ := makeOne_eq_ok h
  have hgrows := grows_put hfree
  refine ⟨hgrows, fun hnul => ?_, fun hparts ht => ht.put (ht.placeOf hparts hplace) _⟩
  exact isDirectory_eq hnul (hgrows.placeOf hplace)
    (entryAt_put_self (ne_nil_of_entryAt hfree) t .directory)

theorem makes_of_makeLast {keep : Bool} (h : t.makeLast p keep = (u, none)) : t.Makes p u := by
  unfold makeLast at h
  split at h
  · next hone =>
    cases h
    exact makes_of_makeOne hone
  · cases h
  · split at h
    · next found hfound =>
      split at h
      · next hkeep =>
        cases h
        rw [Bool.and_eq_true] at hkeep
        rw [hkeep.2] at hfound
        exact ⟨.refl t, fun _ => hfound, fun _ ht => ht⟩
      · cases h
    · cases h

theorem makes_of_makeUpTo {keep : Bool} {n : Nat} (h : t.makeUpTo p keep n = (u, none)) :
    t.Makes (p.upTo n) u := by
  induction n generalizing keep u with
  | zero => exact makes_of_makeLast h
  | succ n ih =>
    rw [makeUpTo] at h
    split at h
    · split at h
      · next above habove =>
        -- Those above were made first.
        have hfirst := ih habove
        have hlast := makes_of_makeLast h
        refine ⟨hfirst.grows.trans hlast.grows, hlast.directory, fun hparts ht => ?_⟩
        refine hlast.wellFormed hparts (hfirst.wellFormed (fun s hs => hparts s ?_) ht)
        exact (List.take_subset_take_left p.parts (Nat.le_succ n)) hs
      · next hfailed => exact absurd h (hfailed u)
    · exact makes_of_makeLast h

theorem makes_of_makeDirectory {keep : Bool} (h : t.makeDirectory p keep = (u, none)) :
    t.Makes p u := by
  have hmakes := makes_of_makeUpTo h
  rw [upTo_length] at hmakes
  exact hmakes

end FileTree
end Lint
end TalkDeck
