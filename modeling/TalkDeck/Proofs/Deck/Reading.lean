import Mathlib.Data.List.Forall2
import TalkDeck.Deck.Document

/-
What a deck that could be read is made of.  Reading may fail, so every statement about a document is
one about a successful reading; the lemmas here turn that success into equations about its parts,
and later files open neither `create` nor `slideOf`.
-/

namespace TalkDeck

variable {ε α β : Type}

theorem bind_eq_ok_iff {x : Except ε α} {f : α → Except ε β} {b : β} :
    x >>= f = .ok b ↔ ∃ a, x = .ok a ∧ f a = .ok b := by
  cases x with
  | error e => simp [bind, Except.bind]
  | ok a => simp [bind, Except.bind]

/-- A list is read successfully when each of its members is. -/
theorem mapM_eq_ok_iff {f : α → Except ε β} {xs : List α} {ys : List β} :
    xs.mapM f = .ok ys ↔ List.Forall₂ (fun x y => f x = .ok y) xs ys := by
  induction xs generalizing ys with
  | nil =>
    rw [List.mapM_nil, List.forall₂_nil_left_iff]
    constructor
    · intro h
      exact (Except.ok.inj h).symm
    · rintro rfl
      rfl
  | cons x xs ih =>
    rw [List.mapM_cons, bind_eq_ok_iff, List.forall₂_cons_left_iff]
    constructor
    · rintro ⟨y, hy, h⟩
      obtain ⟨rest, hrest, hys⟩ := bind_eq_ok_iff.mp h
      exact ⟨y, rest, hy, ih.mp hrest, (Except.ok.inj hys).symm⟩
    · rintro ⟨y, rest, hy, hrest, rfl⟩
      exact ⟨y, hy, bind_eq_ok_iff.mpr ⟨rest, ih.mpr hrest, rfl⟩⟩

/-- A reading that can be computed, and a test of its result. -/
theorem exists_eq_ok_of_any {x : Except ε α} {p : α → Bool} (h : x.toOption.any p = true) :
    ∃ a, x = .ok a ∧ p a = true := by
  cases x with
  | error e => cases h
  | ok a => exact ⟨a, rfl, h⟩

namespace Step

theorem groups_ne_nil {ls g : List (Line × Nat)} (h : g ∈ groups ls) : g ≠ [] := by
  induction ls with
  | nil => cases h
  | cons p ls ih =>
    rw [groups] at h
    split at h
    · rcases List.mem_cons.mp h with rfl | h
      · exact List.cons_ne_nil _ _
      · exact ih h
    · exact ih h

/-- A step runs from its first line to the end of its last, and only a mapping gives it a type and
parameters. -/
theorem ofLines_eq (index : Nat) {ls : List (Line × Nat)} (h : ls ≠ [])
    (member : Option Yaml.Value) :
    ofLines index ls member =
      { index
        range := ⟨⟨(ls.head h).2, 0⟩, ⟨(ls.getLast h).2, (ls.getLast h).1.length⟩⟩
        actionType := (member.filter (·.isMap)).bind fun v => (v.get? "type").bind (·.str?)
        typeRange := (member.filter (·.isMap)).bind fun _ => typeRange? ls
        parameters := ((member.filter (·.isMap)).map fun v =>
          ls.filterMap fun p => parameter? v p.2 p.1).getD [] } := by
  have hlast : ∀ d, ls.getLast?.getD d = ls.getLast h := by
    intro d
    rw [List.getLast?_eq_getLast_of_ne_nil h, Option.getD_some]
  have hfirst : (ls.head?.map (·.2)).getD 0 = (ls.head h).2 := by
    rw [List.head?_eq_some_head h, Option.map_some, Option.getD_some]
  cases member with
  | none =>
    simp only [ofLines, hlast, hfirst, Option.filter_none, Option.bind_none, Option.map_none,
      Option.getD_none]
  | some v =>
    by_cases hv : v.isMap = true
    · simp only [ofLines, hlast, hfirst, hv, if_true, Option.filter_some, Option.bind_some,
        Option.map_some, Option.getD_some]
    · simp only [ofLines, hlast, hfirst, hv, if_false, Bool.false_eq_true, Option.filter_some,
        Option.bind_none, Option.map_none, Option.getD_none]

end Step

namespace Document

variable {limits : Limits}

/-- The delimiters that cut the deck into slides. -/
def boundaries (d : Document) : List Nat :=
  boundariesFrom (bodyStart d.frontmatter) false (d.lines.drop (bodyStart d.frontmatter))

/-- The lines of each slide, as its first line and the one beyond its last. -/
def slideSpans (d : Document) : List (Nat × Nat) :=
  spans (bodyStart d.frontmatter) d.boundaries d.lineCount

theorem create_eq_ok_iff {uri content sequenceType : String} {version : Int} {d : Document} :
    create limits uri version content sequenceType = .ok d ↔
      d.uri = uri ∧ d.version = version ∧ d.content = content ∧
        d.frontmatter = frontmatterOf d.lines ∧
        slidesOf limits sequenceType d.lines d.frontmatter = .ok d.slides := by
  unfold create
  rw [bind_eq_ok_iff]
  constructor
  · rintro ⟨slides, hslides, h⟩
    obtain rfl := Except.ok.inj h
    exact ⟨rfl, rfl, rfl, rfl, hslides⟩
  · rintro ⟨rfl, rfl, rfl, hfront, hslides⟩
    rw [hfront] at hslides
    refine ⟨d.slides, hslides, ?_⟩
    rw [show frontmatterOf (Text.lines d.content.toList) = d.frontmatter from hfront.symm]
    rfl

/-- Each slide is read from its own span. -/
theorem slides_of_create {uri content sequenceType : String} {version : Int} {d : Document}
    (h : create limits uri version content sequenceType = .ok d) :
    List.Forall₂ (fun p s => slideOf limits sequenceType d.lines p.2 p.1.1 p.1.2 = .ok s)
      d.slideSpans.zipIdx d.slides := by
  obtain ⟨-, -, -, -, hslides⟩ := create_eq_ok_iff.mp h
  exact mapM_eq_ok_iff.mp hslides

/-- The place of a slide without lines. -/
def emptyRange (all : List Line) (first : Nat) : Range :=
  if first ≤ all.length - 1 then Range.point first 0
  else Range.point (all.length - 1) (all.getLast?.getD []).length

theorem slideOf_empty {sequenceType : String} {all : List Line} {index first beyond : Nat}
    (h : beyond ≤ first) :
    slideOf limits sequenceType all index first beyond =
      .ok ⟨index, emptyRange all first, none, [], [], []⟩ := by
  rw [slideOf, if_pos h]
  rfl

theorem slideOf_eq_ok_iff {sequenceType : String} {all : List Line} {index first beyond : Nat}
    {s : Slide} (h : first < beyond) :
    slideOf limits sequenceType all index first beyond = .ok s ↔
      ∃ ls, ls = (all.drop first).take (beyond - first) ∧ s.index = index ∧
        s.range = ⟨⟨first, 0⟩, ⟨beyond - 1, (ls.getLast?.getD []).length⟩⟩ ∧
        s.title = titleOf ls ∧
        List.Forall₂ (fun r b => Block.ofRaw limits sequenceType r = .ok b)
          (Block.scan first none ls) s.blocks ∧
        s.links = Inline.ofLines Inline.actionForm first ls ∧
        s.directives = Inline.ofLines Inline.renderForm first ls := by
  rw [slideOf, if_neg (Nat.not_le.mpr h), bind_eq_ok_iff]
  constructor
  · rintro ⟨blocks, hblocks, hs⟩
    obtain rfl := Except.ok.inj hs
    exact ⟨_, rfl, rfl, rfl, rfl, mapM_eq_ok_iff.mp hblocks, rfl, rfl⟩
  · rintro ⟨ls, rfl, hindex, hrange, htitle, hblocks, hlinks, hdirectives⟩
    refine ⟨s.blocks, mapM_eq_ok_iff.mpr hblocks, ?_⟩
    rw [← hindex, ← hrange, ← htitle, ← hlinks, ← hdirectives]
    rfl

end Document
end TalkDeck
