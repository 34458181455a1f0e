import Mathlib.Data.List.Nodup
import TalkDeck.Lint.Glob
import TalkDeck.Proofs.Lint.Tree

/-
What selectors find.

Every path that selectors lead to goes down from the path they start at by parts of paths
(`Glob.select_below`), and none is found twice (`Glob.select_nodup`): below one directory the names are
different, and where several ways can lead to one path, repetitions are dropped.  Hence the files of a
run are different files below its directory (`Glob.files_spec`), and so are the texts of their paths seen
from there (`Path.relativeTo_inj`).
-/

namespace TalkDeck

variable {ε α : Type}

theorem filterAuxM_eq_ok {f : α → Except ε Bool} {xs kept ys : List α}
    (h : xs.filterAuxM f kept = .ok ys) :
    ∃ zs : List α, zs.Sublist xs ∧ (∀ z ∈ zs, f z = .ok true) ∧ ys = zs.reverse ++ kept := by
  induction xs generalizing kept with
  | nil =>
    cases h
    exact ⟨[], .slnil, nofun, rfl⟩
  | cons x xs ih =>
    obtain ⟨found, hfound, h⟩ := bind_eq_ok_iff.mp h
    obtain ⟨zs, hsub, htrue, rfl⟩ := ih h
    cases found with
    | false => exact ⟨zs, hsub.cons x, htrue, rfl⟩
    | true =>
      refine ⟨x :: zs, hsub.cons_cons x, ?_, ?_⟩
      · intro z hz
        rcases List.mem_cons.mp hz with rfl | hz
        · exact hfound
        · exact htrue z hz
      · rw [List.reverse_cons, List.append_assoc]
        rfl

/-- What is kept of a list are some of its members, in their order. -/
theorem filterM_eq_ok {f : α → Except ε Bool} {xs ys : List α} (h : xs.filterM f = .ok ys) :
    ys.Sublist xs ∧ ∀ y ∈ ys, f y = .ok true := by
  obtain ⟨kept, hkept, h⟩ := bind_eq_ok_iff.mp h
  obtain ⟨zs, hsub, htrue, rfl⟩ := filterAuxM_eq_ok hkept
  obtain rfl := Except.ok.inj h
  rw [List.append_nil, List.reverse_reverse]
  exact ⟨hsub, htrue⟩

theorem exists_of_mem_mapM {β : Type} {f : α → Except ε β} {xs : List α} {ys : List β}
    (h : xs.mapM f = .ok ys) {y : β} (hy : y ∈ ys) : ∃ x ∈ xs, f x = .ok y := by
  obtain ⟨hlength, hget⟩ := List.forall₂_iff_get.mp (mapM_eq_ok_iff.mp h)
  obtain ⟨i, hi, rfl⟩ := List.getElem_of_mem hy
  exact ⟨_, List.get_mem xs ⟨i, hlength ▸ hi⟩, hget i (hlength ▸ hi) hi⟩

namespace Lint

variable {t : FileTree} {p q : Path} {selectors : List Selector} {found : List Path}

/-! ## Below a path -/

/-- A path that goes on from another by parts of paths. -/
def Path.Below (p q : Path) : Prop :=
  ∃ way, q = { p with parts := p.parts ++ way } ∧ ∀ s ∈ way, Path.IsPart s

theorem Path.below_refl (p : Path) : p.Below p :=
  ⟨[], by rw [List.append_nil], nofun⟩

theorem Path.Below.trans_way {way : List String} (hway : ∀ s ∈ way, Path.IsPart s)
    (h : ({ p with parts := p.parts ++ way } : Path).Below q) : p.Below q := by
  obtain ⟨more, rfl, hmore⟩ := h
  refine ⟨way ++ more, by rw [← List.append_assoc], ?_⟩
  intro s hs
  rcases List.mem_append.mp hs with hs | hs
  · exact hway s hs
  · exact hmore s hs

theorem Path.Below.of_child {s : String} (hs : Path.IsPart s) (h : (p.child s).Below q) :
    p.Below q :=
  Path.Below.trans_way (fun _ hmem => List.mem_singleton.mp hmem ▸ hs) h

/-- What lies below different children of one path is different. -/
theorem Path.Below.child_inj {a b : String} (ha : (p.child a).Below q) (hb : (p.child b).Below q) :
    a = b := by
  obtain ⟨way, rfl, -⟩ := ha
  obtain ⟨way', heq, -⟩ := hb
  have hparts := congrArg Path.parts heq
  simp only [Path.child, List.append_assoc, List.singleton_append] at hparts
  exact (List.cons.inj (List.append_cancel_left hparts)).1

/-! ## Names in a directory -/

namespace FileTree

theorem isPart_of_mem_children (ht : t.WellFormed) {place : Place} {s : String}
    (h : s ∈ t.children place) : Path.IsPart s := by
  obtain ⟨⟨q, e⟩, hq, hs⟩ := List.mem_filterMap.mp h
  dsimp only at hs
  split at hs
  · exact ht.names (q, e) hq s (List.mem_of_getLast? hs)
  · cases hs

theorem isPart_of_mem_waysDown (ht : t.WellFormed) {place : Place} {way : List String}
    (h : way ∈ t.waysDown place) : ∀ s ∈ way, Path.IsPart s := by
  rcases List.mem_cons.mp h with rfl | h
  · exact nofun
  · obtain ⟨⟨q, e⟩, hq, hway⟩ := List.mem_filterMap.mp h
    dsimp only at hway
    split at hway
    · cases hway
      exact fun s hs => ht.names (q, e) hq s (List.mem_of_mem_drop hs)
    · cases hway

/-- The names in a directory are different, as the places are. -/
theorem nodup_children (ht : t.WellFormed) (place : Place) : (t.children place).Nodup := by
  have hplaces : t.children place = (t.entries.map (·.1)).filterMap fun q =>
      if q ≠ [] ∧ q.dropLast = place then q.getLast? else none := by
    rw [List.filterMap_map]
    rfl
  rw [hplaces]
  refine ht.nodup.filterMap ?_
  intro q q' s hs hs'
  split at hs
  · next hq =>
    split at hs'
    · next hq' =>
      rw [← List.dropLast_append_getLast? s hs, ← List.dropLast_append_getLast? s hs', hq.2, hq'.2]
    · cases hs'
  · cases hs

end FileTree

/-! ## Selectors -/

namespace Glob

theorem distinct_spec (ps : List Path) : (distinct ps).Nodup ∧ ∀ p ∈ distinct ps, p ∈ ps := by
  have hfold : ∀ (ps seen : List Path), seen.Nodup →
      (ps.foldl (fun seen p => if seen.contains p then seen else seen ++ [p]) seen).Nodup ∧
        ∀ p ∈ ps.foldl (fun seen p => if seen.contains p then seen else seen ++ [p]) seen,
          p ∈ seen ∨ p ∈ ps := by
    intro ps
    induction ps with
    | nil => exact fun seen hseen => ⟨hseen, fun p hp => Or.inl hp⟩
    | cons p ps ih =>
      intro seen hseen
      rw [List.foldl_cons]
      split
      · obtain ⟨hnodup, hmem⟩ := ih seen hseen
        exact ⟨hnodup, fun q hq => (hmem q hq).imp_right (List.mem_cons_of_mem p)⟩
      · next hp =>
        rw [List.contains_iff_mem] at hp
        obtain ⟨hnodup, hmem⟩ := ih (seen ++ [p])
          (List.nodup_append.mpr ⟨hseen, List.nodup_singleton p, fun a ha b hb => by
            rintro rfl
            exact hp (List.mem_singleton.mp hb ▸ ha)⟩)
        refine ⟨hnodup, fun q hq => ?_⟩
        rcases hmem q hq with hq | hq
        · rcases List.mem_append.mp hq with hq | hq
          · exact Or.inl hq
          · exact Or.inr (List.mem_singleton.mp hq ▸ List.mem_cons_self)
        · exact Or.inr (List.mem_cons_of_mem p hq)
  obtain ⟨hnodup, hmem⟩ := hfold ps [] List.nodup_nil
  exact ⟨hnodup, fun p hp => (hmem p hp).resolve_left List.not_mem_nil⟩

/-- Selectors whose names are parts of paths. -/
def Proper (selectors : List Selector) : Prop := ∀ s, .name s ∈ selectors → Path.IsPart s

theorem Proper.tail {s : Selector} (h : Proper (s :: selectors)) : Proper selectors :=
  fun name hname => h name (List.mem_cons_of_mem s hname)

theorem eq_of_selectorOf {part s : String} (h : selectorOf part = .ok (.name s)) : s = part := by
  unfold selectorOf at h
  dsimp only at h
  split at h
  · cases h
  · split at h
    · cases h
    · split at h
      · cases h
      · split at h
        · cases h
        · cases h
          rfl

theorem proper_of_selectors {pattern : Option String} (h : Glob.selectors pattern = .ok selectors) :
    Proper selectors := by
  unfold Glob.selectors at h
  split at h
  · cases h
  · cases h
  · next pattern _ =>
    dsimp only at h
    split at h
    · cases h
    · split at h
      · cases h
      · obtain ⟨found, hfound, h⟩ := bind_eq_ok_iff.mp h
        obtain rfl := Except.ok.inj h
        intro s hs
        rcases List.mem_append.mp hs with hs | hs
        · obtain ⟨part, hpart, hselector⟩ := exists_of_mem_mapM hfound hs
          rw [eq_of_selectorOf hselector]
          exact Path.isPart_of_mem_of hpart
        · split at hs
          · cases List.mem_singleton.mp hs
          · cases hs

/-- What a wildcard leads to: the findings of the rest, below the names that fit. -/
theorem select_wild {ws : List Wild} {rest : List Selector}
    (h : select t p (.wild ws :: rest) = .ok found) :
    found = [] ∨ ∃ (place : Place) (names : List String) (founds : List (List Path)),
      names.Sublist (t.children place) ∧
      names.mapM (fun s => select t (p.child s) rest) = .ok founds ∧ found = founds.flatten := by
  rw [select] at h
  split at h
  · next place hplace =>
    obtain ⟨names, hnames, h⟩ := bind_eq_ok_iff.mp h
    obtain ⟨founds, hfounds, h⟩ := bind_eq_ok_iff.mp h
    exact Or.inr ⟨place, names, founds, (filterM_eq_ok hnames).1, hfounds, (Except.ok.inj h).symm⟩
  · exact Or.inl (Except.ok.inj h).symm

theorem select_anyDepth {rest : List Selector} (h : select t p (.anyDepth :: rest) = .ok found) :
    found = [] ∨ ∃ (place : Place) (founds : List (List Path)),
      (t.waysDown place).mapM (fun way => select t { p with parts := p.parts ++ way } rest) =
        .ok founds ∧ found = distinct founds.flatten := by
  rw [select] at h
  split at h
  · next place hplace =>
    obtain ⟨founds, hfounds, h⟩ := bind_eq_ok_iff.mp h
    exact Or.inr ⟨place, founds, hfounds, (Except.ok.inj h).symm⟩
  · exact Or.inl (Except.ok.inj h).symm

theorem select_name {s : String} {rest : List Selector}
    (h : select t p (.name s :: rest) = .ok found) :
    found = [] ∨ select t (p.child s) rest = .ok found := by
  have hgo : ∀ {x : Except Obstacle Bool},
      (x >>= fun there => if there = true then select t (p.child s) rest else pure []) = .ok found →
        found = [] ∨ select t (p.child s) rest = .ok found := by
    intro x hx
    obtain ⟨there, -, hx⟩ := bind_eq_ok_iff.mp hx
    split at hx
    · exact Or.inr hx
    · exact Or.inl (Except.ok.inj hx).symm
  rw [select] at h
  split at h
  · exact hgo h
  · exact hgo h

theorem select_below (ht : t.WellFormed) (hproper : Proper selectors)
    (h : select t p selectors = .ok found) : ∀ q ∈ found, p.Below q := by
  induction selectors generalizing p found with
  | nil =>
    cases h
    exact fun q hq => List.mem_singleton.mp hq ▸ p.below_refl
  | cons s rest ih =>
    have hrest : ∀ {p found}, select t p rest = .ok found → ∀ q ∈ found, p.Below q :=
      fun h => ih hproper.tail h
    cases s with
    | stop =>
      cases h
      exact fun q hq => List.mem_singleton.mp hq ▸ p.below_refl
    | name s =>
      rcases select_name h with rfl | h
      · exact nofun
      · exact fun q hq => (hrest h q hq).of_child (hproper s List.mem_cons_self)
    | above =>
      rw [select] at h
      exact fun q hq => (hrest h q hq).of_child (by decide)
    | anyDepth =>
      rcases select_anyDepth h with rfl | ⟨place, founds, hfounds, rfl⟩
      · exact nofun
      · intro q hq
        obtain ⟨ys, hys, hq⟩ := List.mem_flatten.mp ((distinct_spec _).2 q hq)
        obtain ⟨way, hway, hys⟩ := exists_of_mem_mapM hfounds hys
        exact (hrest hys q hq).trans_way (FileTree.isPart_of_mem_waysDown ht hway)
    | wild ws =>
      rcases select_wild h with rfl | ⟨place, names, founds, hnames, hfounds, rfl⟩
      · exact nofun
      · intro q hq
        obtain ⟨ys, hys, hq⟩ := List.mem_flatten.mp hq
        obtain ⟨s, hs, hys⟩ := exists_of_mem_mapM hfounds hys
        exact (hrest hys q hq).of_child
          (FileTree.isPart_of_mem_children ht (hnames.subset hs))

/-- Below different names there are different paths, so none is found below two of them. -/
theorem nodup_flatten_select (ht : t.WellFormed) (hproper : Proper selectors) {names : List String}
    (hnames : names.Nodup) {founds : List (List Path)}
    (hfounds : names.mapM (fun s => select t (p.child s) selectors) = .ok founds)
    (hall : ∀ ys ∈ founds, ys.Nodup) : founds.flatten.Nodup := by
  refine List.nodup_flatten.mpr ⟨hall, List.pairwise_iff_getElem.mpr fun i j hi hj hij => ?_⟩
  obtain ⟨hlength, hget⟩ := List.forall₂_iff_get.mp (mapM_eq_ok_iff.mp hfounds)
  intro q hqi hqj
  have hbi := select_below ht hproper (hget i (by omega) hi) q hqi
  have hbj := select_below ht hproper (hget j (by omega) hj) q hqj
  have hsame := hbi.child_inj hbj
  rw [List.get_eq_getElem, List.get_eq_getElem, hnames.getElem_inj_iff] at hsame
  exact absurd hsame (Nat.ne_of_lt hij)

theorem select_nodup (ht : t.WellFormed) (hproper : Proper selectors)
    (h : select t p selectors = .ok found) : found.Nodup := by
  induction selectors generalizing p found with
  | nil =>
    cases h
    exact List.nodup_singleton p
  | cons s rest ih =>
    have hrest : ∀ {p found}, select t p rest = .ok found → found.Nodup :=
      fun h => ih hproper.tail h
    cases s with
    | stop =>
      cases h
      exact List.nodup_singleton p
    | name s =>
      rcases select_name h with rfl | h
      · exact List.nodup_nil
      · exact hrest h
    | above =>
      rw [select] at h
      exact hrest h
    | anyDepth =>
      rcases select_anyDepth h with rfl | ⟨place, founds, -, rfl⟩
      · exact List.nodup_nil
      · exact (distinct_spec _).1
    | wild ws =>
      rcases select_wild h with rfl | ⟨place, names, founds, hnames, hfounds, rfl⟩
      · exact List.nodup_nil
      · have hnodup := (FileTree.nodup_children ht place).sublist hnames
        refine nodup_flatten_select ht hproper.tail hnodup hfounds fun ys hys => ?_
        obtain ⟨s, -, hys⟩ := exists_of_mem_mapM hfounds hys
        exact hrest hys

/-- The files that a run finds: different ones, each below its directory. -/
theorem files_spec (ht : t.WellFormed) {pattern : Option String}
    (hselectors : Glob.selectors pattern = .ok selectors)
    (h : Glob.files t p selectors = .ok found) :
    found.Nodup ∧ ∀ q ∈ found, p.Below q ∧ t.isFile q = .ok true := by
  obtain ⟨all, hall, h⟩ := bind_eq_ok_iff.mp h
  obtain ⟨kept, hkept, h⟩ := bind_eq_ok_iff.mp h
  obtain rfl := Except.ok.inj h
  have hproper := proper_of_selectors hselectors
  obtain ⟨hsub, hfile⟩ := filterM_eq_ok hkept
  have hperm := List.mergeSort_perm kept Path.le
  refine ⟨hperm.nodup_iff.mpr ((select_nodup ht hproper hall).sublist hsub), fun q hq => ?_⟩
  have hq := hperm.mem_iff.mp hq
  exact ⟨select_below ht hproper hall q (hsub.subset hq), hfile q hq⟩

/-- Where selectors lead to files only, and in order, these are the files. -/
theorem files_of_select (hselect : select t p selectors = .ok found)
    (hfiles : found.filterM t.isFile = .ok found) (hsorted : found.Pairwise (fun p q => p.le q)) :
    Glob.files t p selectors = .ok found := by
  refine bind_eq_ok_iff.mpr ⟨found, hselect, bind_eq_ok_iff.mpr ⟨found, hfiles, ?_⟩⟩
  rw [List.mergeSort_of_pairwise hsorted]
  rfl

end Glob

/-! ## Paths seen from above -/

namespace Path

theorem joinWith_eq_intercalate (sep : List Char) (pieces : List (List Char)) :
    Text.joinWith sep pieces = sep.intercalate pieces := by
  induction pieces with
  | nil => rfl
  | cons piece pieces ih =>
    cases pieces with
    | nil => simp [Text.joinWith]
    | cons next pieces =>
      rw [Text.joinWith, ih, List.intercalate_cons_cons]
      exact List.cons_ne_nil next pieces

/-- The parts of a path that starts nowhere are read off its text. -/
theorem splitAt_text {parts : List String} (h : ∀ s ∈ parts, IsPart s) :
    Text.splitAt '/' (text ⟨"", parts⟩).toList =
      if parts = [] then [['.']] else parts.map String.toList := by
  by_cases hparts : parts = []
  · subst hparts
    rfl
  · rw [text, if_neg (fun hnil => hparts hnil.2), if_neg hparts, String.toList_append,
      String.toList_intercalate, show ("".toList : List Char) = [] from rfl, List.nil_append,
      show "/".toList = ['/'] from rfl, ← joinWith_eq_intercalate]
    refine Text.splitAt_joinWith (fun hnil => hparts (List.map_eq_nil_iff.mp hnil)) ?_
    intro piece hpiece
    obtain ⟨s, hs, rfl⟩ := List.mem_map.mp hpiece
    exact (h s hs).2.2

theorem text_inj {parts more : List String} (h : ∀ s ∈ parts, IsPart s)
    (hmore : ∀ s ∈ more, IsPart s) (heq : text ⟨"", parts⟩ = text ⟨"", more⟩) : parts = more := by
  have hdot : ∀ {parts : List String}, (∀ s ∈ parts, IsPart s) →
      [['.']] ≠ parts.map String.toList := by
    intro parts hparts hdot
    cases parts with
    | nil => cases hdot
    | cons s rest =>
      have hs : '.' :: [] = s.toList := (List.cons.inj hdot).1
      exact (hparts s List.mem_cons_self).2.1 (String.toList_inj.mp hs.symm)
  have hsplit := congrArg (fun s => Text.splitAt '/' s.toList) heq
  simp only [splitAt_text h, splitAt_text hmore] at hsplit
  split at hsplit
  · next hnil =>
    split at hsplit
    · next hnil' => rw [hnil, hnil']
    · exact absurd hsplit (hdot hmore)
  · split at hsplit
    · exact absurd hsplit.symm (hdot h)
    · exact List.map_injective_iff.mpr (fun a b hab => String.toList_inj.mp hab) hsplit

/-- Different paths below a directory have different texts seen from there. -/
theorem relativeTo_inj {base p q : Path} (hp : base.Below p) (hq : base.Below q)
    (h : base.relativeTo p = base.relativeTo q) : p = q := by
  obtain ⟨way, rfl, hway⟩ := hp
  obtain ⟨way', rfl, hway'⟩ := hq
  unfold relativeTo at h
  rw [List.drop_left, List.drop_left] at h
  rw [text_inj hway hway' h]

end Path
end Lint
end TalkDeck
